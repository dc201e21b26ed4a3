import Mathlib.Data.Nat.Bitwise

/-!
# Sets that may answer "maybe" too often

A lossy set never forgets a member but may claim to hold more. Adding may run
out of room. The two laws below are all a client may use: no false negatives
for what was added, and nothing added later takes a member away.
-/
namespace Loushang.Lib

/-- A lossy set over carrier `F`; `add` is `none` when no room is left. -/
structure LossySet (F α : Type) where
  mightContain : F → α → Bool
  add : F → α → Option F
  mightContain_add : ∀ {f f' : F} {a : α}, add f a = some f' → mightContain f' a = true
  mightContain_mono : ∀ {f f' : F} {a b : α}, add f a = some f' → mightContain f b = true →
    mightContain f' b = true

namespace LossySet

variable {F α : Type} (S : LossySet F α)

/-- Add a list of members in order. -/
def addAll : F → List α → Option F
  | f, [] => some f
  | f, a :: rest => (S.add f a).bind fun f' => addAll f' rest

@[simp] theorem addAll_nil (f : F) : S.addAll f [] = some f := rfl

theorem addAll_cons (f : F) (a : α) (rest : List α) :
    S.addAll f (a :: rest) = (S.add f a).bind fun f' => S.addAll f' rest := rfl

theorem addAll_append (f : F) (front back : List α) :
    S.addAll f (front ++ back) = (S.addAll f front).bind fun f' => S.addAll f' back := by
  induction front generalizing f with
  | nil => rfl
  | cons a rest ih =>
    simp only [List.cons_append, addAll_cons, Option.bind_assoc, ih]

variable {f' : F} {members : List α}

theorem addAll_mono {f : F} {b : α} (added : S.addAll f members = some f')
    (present : S.mightContain f b = true) : S.mightContain f' b = true := by
  induction members generalizing f with
  | nil =>
    cases added
    exact present
  | cons a rest ih =>
    obtain ⟨middle, first, later⟩ := Option.bind_eq_some_iff.mp added
    exact ih later (S.mightContain_mono first present)

/-- No false negatives: everything added is still reported. -/
theorem mightContain_of_mem {f : F} {a : α} (added : S.addAll f members = some f') (member : a ∈ members) :
    S.mightContain f' a = true := by
  induction members generalizing f with
  | nil => cases member
  | cons head rest ih =>
    obtain ⟨middle, first, later⟩ := Option.bind_eq_some_iff.mp added
    rcases List.mem_cons.mp member with rfl | elsewhere
    · exact S.addAll_mono later (S.mightContain_add first)
    · exact ih later elsewhere

/-- What the set does not report was never added. -/
theorem not_mem_of_not_mightContain {f : F} {a : α} (added : S.addAll f members = some f')
    (absent : S.mightContain f' a = false) : a ∉ members := by
  intro member
  rw [S.mightContain_of_mem added member] at absent
  cases absent

end LossySet

/-! ## Bit payloads -/

/-- Set every listed bit. -/
def setBits (payload : Nat) (positions : List Nat) : Nat :=
  positions.foldl (fun bits position => bits ||| 1 <<< position) payload

/-- Are all listed bits set? -/
def hasBits (payload : Nat) (positions : List Nat) : Bool :=
  positions.all payload.testBit

theorem testBit_setBits (payload position : Nat) (positions : List Nat) :
    (setBits payload positions).testBit position =
      (payload.testBit position || decide (position ∈ positions)) := by
  induction positions generalizing payload with
  | nil => simp [setBits]
  | cons head rest ih =>
    have shifted : (1 <<< head : Nat).testBit position = decide (head = position) := by
      rw [Nat.one_shiftLeft, Nat.testBit_two_pow]
    have unfolded : setBits payload (head :: rest) = setBits (payload ||| 1 <<< head) rest := rfl
    rw [unfolded, ih, Nat.testBit_or, shifted]
    by_cases same : head = position
    · simp [same]
    · simp [same, Ne.symm same]

theorem hasBits_setBits (payload : Nat) (positions : List Nat) :
    hasBits (setBits payload positions) positions = true := by
  simp only [hasBits, List.all_eq_true]
  intro position member
  simp [testBit_setBits, member]

theorem hasBits_setBits_mono {payload : Nat} {old : List Nat} (new : List Nat)
    (present : hasBits payload old = true) : hasBits (setBits payload new) old = true := by
  simp only [hasBits, List.all_eq_true] at present ⊢
  intro position member
  simp [testBit_setBits, present position member]

end Loushang.Lib
