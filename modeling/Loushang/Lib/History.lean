import Mathlib.Data.PNat.Basic
import Mathlib.Logic.Function.Iterate

/-!
# Histories with undo and redo

A timeline is the present state with the states an undo and a redo may bring back, newest
first. The marks of a run say, in terms of what its operations answered, which of its
edits stand and which were taken back; the timeline agrees with them.
-/
namespace Loushang.Lib

variable {S : Type}

/-- The newest `depth` items of a list that starts with the newest. -/
def keepNewest (depth : Option ℕ+) (items : List S) : List S :=
  match depth with
  | none => items
  | some depth => items.take depth

variable {depth : Option ℕ+} {items : List S}

theorem keepNewest_eq_self (short : ∀ d : ℕ+, depth = some d → items.length ≤ d) :
    keepNewest depth items = items := by
  cases depth with
  | none => rfl
  | some d => exact List.take_of_length_le (short d rfl)

theorem getElem?_keepNewest {i : Nat} (inside : i < (keepNewest depth items).length) :
    (keepNewest depth items)[i]? = items[i]? := by
  cases depth with
  | none => rfl
  | some d =>
    unfold keepNewest at inside ⊢
    rw [List.length_take] at inside
    exact List.getElem?_take_of_lt (by omega)

structure Timeline (S : Type) where
  now : S
  past : List S
  future : List S

namespace Timeline

/-- The newest past state comes back; the present one can be redone. -/
def undo (depth : Option ℕ+) (t : Timeline S) : Timeline S :=
  match t.past with
  | [] => t
  | top :: past => ⟨top, past, keepNewest depth (t.now :: t.future)⟩

def redo (depth : Option ℕ+) (t : Timeline S) : Timeline S :=
  match t.future with
  | [] => t
  | top :: future => ⟨top, keepNewest depth (t.now :: t.past), future⟩

/-- Together the two stacks hold no more than one of them may. -/
def Fits (depth : Option ℕ+) (t : Timeline S) : Prop :=
  ∀ d : ℕ+, depth = some d → t.past.length + t.future.length ≤ d

/-- A bound on the redo stack is the bound on the undo stack. -/
def SameBound (depth redoDepth : Option ℕ+) : Prop := redoDepth = none ∨ redoDepth = depth

variable {depth redoDepth : Option ℕ+} {t : Timeline S}

theorem undo_eq {top : S} {past : List S} (same : SameBound depth redoDepth) (fits : t.Fits depth)
    (found : t.past = top :: past) : t.undo redoDepth = ⟨top, past, t.now :: t.future⟩ := by
  have whole : keepNewest redoDepth (t.now :: t.future) = t.now :: t.future := by
    apply keepNewest_eq_self
    intro d bounded
    rcases same with unbounded | equal
    · rw [unbounded] at bounded
      cases bounded
    · have room := fits d (equal.symm.trans bounded)
      rw [found, List.length_cons] at room
      rw [List.length_cons]
      omega
  simp only [undo, found, whole]

theorem redo_eq {top : S} {future : List S} (fits : t.Fits depth)
    (found : t.future = top :: future) : t.redo depth = ⟨top, t.now :: t.past, future⟩ := by
  have whole : keepNewest depth (t.now :: t.past) = t.now :: t.past := by
    apply keepNewest_eq_self
    intro d bounded
    have room := fits d bounded
    rw [found, List.length_cons] at room
    rw [List.length_cons]
    omega
  simp only [redo, found, whole]

theorem fits_undo (same : SameBound depth redoDepth) (fits : t.Fits depth) :
    (t.undo redoDepth).Fits depth := by
  cases found : t.past with
  | nil =>
    unfold undo
    rw [found]
    exact fits
  | cons top past =>
    rw [undo_eq same fits found]
    intro d bounded
    have room := fits d bounded
    rw [found, List.length_cons] at room
    simp only [List.length_cons]
    omega

theorem redo_undo (same : SameBound depth redoDepth) (fits : t.Fits depth)
    (some : t.past ≠ []) : (t.undo redoDepth).redo depth = t := by
  obtain ⟨top, past, found⟩ := List.exists_cons_of_ne_nil some
  have room := fits_undo same fits
  rw [undo_eq same fits found] at room ⊢
  rw [redo_eq room rfl]
  obtain ⟨now, _, future⟩ := t
  exact congrArg (fun past => Timeline.mk now past future) found.symm

theorem length_undo_iterate (same : SameBound depth redoDepth) {k : Nat} (fits : t.Fits depth)
    (available : k ≤ t.past.length) :
    ((undo redoDepth)^[k] t).past.length = t.past.length - k := by
  induction k generalizing t with
  | zero => rfl
  | succ k ih =>
    obtain ⟨top, past, found⟩ := List.exists_cons_of_length_pos (by omega : 0 < t.past.length)
    have shorter : (t.undo redoDepth).past.length = t.past.length - 1 := by
      rw [undo_eq same fits found, found, List.length_cons]
      rfl
    rw [Function.iterate_succ_apply, ih (fits_undo same fits) (by omega), shorter]
    omega

/-- As many redos as undos bring everything back. -/
theorem redo_undo_iterate (same : SameBound depth redoDepth) {k : Nat} (fits : t.Fits depth)
    (available : k ≤ t.past.length) : (redo depth)^[k] ((undo redoDepth)^[k] t) = t := by
  induction k generalizing t with
  | zero => rfl
  | succ k ih =>
    obtain ⟨top, past, found⟩ := List.exists_cons_of_length_pos (by omega : 0 < t.past.length)
    have shorter : k ≤ (t.undo redoDepth).past.length := by
      rw [undo_eq same fits found]
      rw [found, List.length_cons] at available
      exact Nat.le_of_succ_le_succ available
    rw [Function.iterate_succ_apply', Function.iterate_succ_apply, ih (fits_undo same fits) shorter]
    exact redo_undo same fits (by rw [found]; exact List.cons_ne_nil _ _)

end Timeline

/-- What one operation does to a history. -/
inductive Mark where
  | kept
  | dropped
  | made
  | undone
  | redone
  | reset
  deriving DecidableEq

/-- A timeline step with its mark: a kept or dropped one changes the present state only, or
also forgets what could be redone. -/
inductive Marked (depth redoDepth : Option ℕ+) : Mark → Timeline S → Timeline S → Prop
  | kept (t : Timeline S) (next : S) : Marked depth redoDepth .kept t { t with now := next }
  | dropped (t : Timeline S) (next : S) :
      Marked depth redoDepth .dropped t { t with now := next, future := [] }
  | made (t : Timeline S) (next : S) :
      Marked depth redoDepth .made t ⟨next, keepNewest depth (t.now :: t.past), []⟩
  | undone (t : Timeline S) (some : t.past ≠ []) :
      Marked depth redoDepth .undone t (t.undo redoDepth)
  | redone (t : Timeline S) (some : t.future ≠ []) :
      Marked depth redoDepth .redone t (t.redo depth)
  | reset (t : Timeline S) (next : S) : Marked depth redoDepth .reset t ⟨next, [], []⟩

/-- In a run's marks, newest first, each with the state it was made in: the state in which
the newest standing edit but `skip` was made or last redone. -/
def standing : Nat → List (Mark × S) → Option S
  | _, [] => none
  | 0, (.made, before) :: _ => some before
  | skip + 1, (.made, _) :: rest => standing skip rest
  | 0, (.redone, before) :: _ => some before
  | skip + 1, (.redone, _) :: rest => standing skip rest
  | skip, (.undone, _) :: rest => standing (skip + 1) rest
  | skip, (.kept, _) :: rest => standing skip rest
  | skip, (.dropped, _) :: rest => standing skip rest
  | _, (.reset, _) :: _ => none

/-- The state from which the newest edit but `skip` of those that can be redone was undone.
A made edit ends the search: what was undone before it is abandoned. -/
def redoable : Nat → List (Mark × S) → Option S
  | _, [] => none
  | 0, (.undone, before) :: _ => some before
  | skip + 1, (.undone, _) :: rest => redoable skip rest
  | skip, (.redone, _) :: rest => redoable (skip + 1) rest
  | skip, (.kept, _) :: rest => redoable skip rest
  | _, (.made, _) :: _ => none
  | _, (.dropped, _) :: _ => none
  | _, (.reset, _) :: _ => none

/-- How many edits stand within the depth kept. -/
def available (depth : Option ℕ+) : List (Mark × S) → Nat
  | [] => 0
  | (.made, _) :: rest =>
    match depth with
    | none => available depth rest + 1
    | some d => min d (available depth rest + 1)
  | (.undone, _) :: rest => available depth rest - 1
  | (.redone, _) :: rest => available depth rest + 1
  | (.kept, _) :: rest => available depth rest
  | (.dropped, _) :: rest => available depth rest
  | (.reset, _) :: _ => 0

/-- The stacks of a timeline hold what the marks of the run say. -/
structure Agrees (depth : Option ℕ+) (marks : List (Mark × S)) (t : Timeline S) : Prop where
  fits : t.Fits depth
  count : t.past.length = available depth marks
  past : ∀ i < t.past.length, t.past[i]? = standing i marks
  future : ∀ i, t.future[i]? = redoable i marks

section

variable {depth redoDepth : Option ℕ+} {marks : List (Mark × S)} {t t' : Timeline S}

theorem Agrees.start (now : S) : Agrees depth [] ⟨now, [], []⟩ where
  fits := fun _ _ => Nat.zero_le _
  count := rfl
  past := nofun
  future := fun _ => rfl

theorem Agrees.made (agrees : Agrees depth marks t) (next : S) :
    Agrees depth ((.made, t.now) :: marks) ⟨next, keepNewest depth (t.now :: t.past), []⟩ where
  fits := by
    intro d bounded
    subst bounded
    simp only [keepNewest, List.length_take, List.length_nil]
    omega
  count := by
    have count := agrees.count
    cases depth with
    | none => simp only [keepNewest, available, List.length_cons, count]
    | some d => simp only [keepNewest, available, List.length_take, List.length_cons, count]
  past := by
    intro i inside
    rw [getElem?_keepNewest inside]
    cases i with
    | zero => rfl
    | succ i =>
      have shorter : i < t.past.length := by
        cases depth with
        | none =>
          simp only [keepNewest, List.length_cons] at inside
          omega
        | some d =>
          simp only [keepNewest, List.length_take, List.length_cons] at inside
          omega
      exact agrees.past i shorter
  future := by
    intro i
    unfold redoable
    exact List.getElem?_nil

theorem Agrees.undone (same : Timeline.SameBound depth redoDepth) (agrees : Agrees depth marks t)
    (some : t.past ≠ []) : Agrees depth ((.undone, t.now) :: marks) (t.undo redoDepth) := by
  obtain ⟨top, past, found⟩ := List.exists_cons_of_ne_nil some
  have room := Timeline.fits_undo same agrees.fits
  rw [Timeline.undo_eq same agrees.fits found] at room ⊢
  refine ⟨room, ?_, ?_, ?_⟩
  · have count := agrees.count
    rw [found, List.length_cons] at count
    simp only [available]
    omega
  · intro i inside
    have earlier := agrees.past (i + 1) (by rw [found]; exact Nat.succ_lt_succ inside)
    rw [found, List.getElem?_cons_succ] at earlier
    exact earlier
  · intro i
    cases i with
    | zero => rfl
    | succ i => exact agrees.future i

theorem Agrees.redone (agrees : Agrees depth marks t) (some : t.future ≠ []) :
    Agrees depth ((.redone, t.now) :: marks) (t.redo depth) := by
  obtain ⟨top, future, found⟩ := List.exists_cons_of_ne_nil some
  have room := agrees.fits
  rw [Timeline.redo_eq agrees.fits found]
  refine ⟨?_, ?_, ?_, ?_⟩
  · intro d bounded
    have bound := room d bounded
    rw [found, List.length_cons] at bound
    simp only [List.length_cons]
    omega
  · simp only [available, List.length_cons, agrees.count]
  · intro i inside
    cases i with
    | zero => rfl
    | succ i => exact agrees.past i (Nat.lt_of_succ_lt_succ inside)
  · intro i
    have later := agrees.future (i + 1)
    rw [found, List.getElem?_cons_succ] at later
    exact later

/-- Step rule: every marked step keeps the agreement. -/
theorem Agrees.step {mark : Mark} (same : Timeline.SameBound depth redoDepth)
    (agrees : Agrees depth marks t) (marked : Marked depth redoDepth mark t t') :
    Agrees depth ((mark, t.now) :: marks) t' := by
  cases marked with
  | kept _ next =>
    refine ⟨agrees.fits, agrees.count, ?_, ?_⟩
    · intro i inside
      exact agrees.past i inside
    · intro i
      exact agrees.future i
  | dropped _ next =>
    refine ⟨?_, agrees.count, ?_, ?_⟩
    · intro d bounded
      have room := agrees.fits d bounded
      simp only [List.length_nil]
      omega
    · intro i inside
      exact agrees.past i inside
    · intro i
      unfold redoable
      exact List.getElem?_nil
  | made _ next => exact agrees.made next
  | undone _ some => exact agrees.undone same some
  | redone _ some => exact agrees.redone some
  | reset _ next =>
    refine ⟨fun _ _ => Nat.zero_le _, rfl, nofun, ?_⟩
    intro i
    unfold redoable
    exact List.getElem?_nil

end

end Loushang.Lib
