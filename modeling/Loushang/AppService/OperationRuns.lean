import Loushang.AppService.Operations
import Loushang.Lib.Lists

/-!
# The lanes of accepted operations over runs

An operation holds a place of its lane from its admission to its release. A step keeps the
operations that hold one, admits one, admits and takes back one, or lets one go; every table of
the owner is read off them.
-/
namespace Loushang.AppService
open Loushang.Lib

namespace OwnedAppOperations

/-- The operations of a lane that hold a place. -/
def held (s : OwnedAppOperations) (lane : Bool) : Nat :=
  s.operations.countP fun operation => operation.control == lane && operation.holds

/-- The tables agree with the operations. -/
structure Accounted (s : OwnedAppOperations) : Prop where
  entries_iff : ∀ i, i ∈ s.entries ↔ ∃ operation, s.operations[i]? = some operation ∧ operation.holds = true
  nodup : s.entries.Nodup
  counted : ∀ lane, s.counts lane = s.held lane
  limited : ∀ lane, s.counts lane ≤ s.limits lane
  keyed : ∀ key, key ∈ s.keys ↔
    ∃ (i : Nat) (operation : Operation), s.operations[i]? = some operation ∧ operation.holds = true ∧ operation.key = some key
  exclusive : ∀ (i j : Nat) (one other : Operation) (key : PyStr), s.operations[i]? = some one →
    s.operations[j]? = some other → one.holds = true → other.holds = true →
    one.key = some key → other.key = some key → i = j
  released_iff : ∀ i, i ∈ s.released ↔ ∃ operation, s.operations[i]? = some operation ∧ operation.holds = false
  releasedOnce : s.released.Nodup

section Steps
variable {s : OwnedAppOperations} {i : Nat} {operation after : Operation}

theorem getElem?_setOperation (found : s.operations[i]? = some operation) (j : Nat) :
    (s.setOperation i after).operations[j]? = if j = i then some after else s.operations[j]? := by
  have inside : i < s.operations.length := (List.getElem?_eq_some_iff.mp found).1
  unfold setOperation
  rw [List.getElem?_set]
  by_cases same : i = j
  · subst same
    simp [inside]
  · simp [same, Ne.symm same]

/-- The places of a lane after one operation has changed. -/
theorem held_setOperation (found : s.operations[i]? = some operation) (lane : Bool) :
    (s.setOperation i after).held lane + (if operation.control = lane ∧ operation.holds = true then 1 else 0) =
      s.held lane + (if after.control = lane ∧ after.holds = true then 1 else 0) := by
  obtain ⟨inside, located⟩ := List.getElem?_eq_some_iff.mp found
  have counted : 0 < s.operations.countP (fun operation => operation.control == lane && operation.holds) ∨
      ¬ (operation.control = lane ∧ operation.holds = true) := by
    by_cases counts : operation.control = lane ∧ operation.holds = true
    · refine Or.inl (List.countP_pos_iff.mpr ⟨operation, ?_, by simp [counts]⟩)
      exact located ▸ List.getElem_mem inside
    · exact Or.inr counts
  unfold held setOperation
  rw [List.countP_set inside, located]
  simp only [Bool.and_eq_true, beq_iff_eq]
  split
  · rename_i counts
    rcases counted with positive | none_
    · omega
    · exact absurd counts none_
  · omega

/-- A change of an operation that keeps its lane, its key and its place. -/
theorem Accounted.kept (accounted : Accounted s) (found : s.operations[i]? = some operation)
    (control : after.control = operation.control) (key : after.key = operation.key)
    (holds : after.holds = operation.holds) : Accounted (s.setOperation i after) := by
  have lookup : ∀ (j : Nat) (P : Operation → Prop), (P after ↔ P operation) →
      ((∃ found_, (s.setOperation i after).operations[j]? = some found_ ∧ P found_) ↔
        ∃ found_, s.operations[j]? = some found_ ∧ P found_) := by
    intro j P same
    rw [getElem?_setOperation found]
    by_cases here : j = i
    · subst here
      simp [found, same]
    · simp [here]
  refine ⟨?_, accounted.nodup, ?_, accounted.limited, ?_, ?_, ?_, accounted.releasedOnce⟩
  · intro j
    rw [lookup j (fun operation => operation.holds = true) (by rw [holds])]
    exact accounted.entries_iff j
  · intro lane
    have places := @held_setOperation s i operation after found lane
    rw [control, holds] at places
    have same : (s.setOperation i after).held lane = s.held lane := by omega
    rw [same]
    exact accounted.counted lane
  · intro text
    have each := fun j => lookup j (fun operation => operation.holds = true ∧ operation.key = some text)
      (by rw [holds, key])
    exact (accounted.keyed text).trans (exists_congr fun j => (each j).symm)
  · intro j k one other text oneFound otherFound oneHolds otherHolds oneKey otherKey
    have first := (lookup j (fun operation => operation.holds = true ∧ operation.key = some text)
      (by rw [holds, key])).mp ⟨one, oneFound, oneHolds, oneKey⟩
    have second := (lookup k (fun operation => operation.holds = true ∧ operation.key = some text)
      (by rw [holds, key])).mp ⟨other, otherFound, otherHolds, otherKey⟩
    obtain ⟨one', oneFound', oneHolds', oneKey'⟩ := first
    obtain ⟨other', otherFound', otherHolds', otherKey'⟩ := second
    exact accounted.exclusive j k one' other' text oneFound' otherFound' oneHolds' otherHolds' oneKey' otherKey'
  · intro j
    rw [lookup j (fun operation => operation.holds = false) (by rw [holds])]
    exact accounted.released_iff j

/-- The keys left when the key of operation `i` is discarded are those of the others. -/
theorem Accounted.discarded (accounted : Accounted s) (found : s.operations[i]? = some operation)
    (holds : operation.holds = true) (free : after.holds = false) (text : PyStr) :
    text ∈ discardKey operation.key s.keys ↔ ∃ (j : Nat) (other : Operation), (s.operations.set i after)[j]? = some other ∧ other.holds = true ∧
      other.key = some text := by
  have lookup : ∀ j, (s.operations.set i after)[j]? = if j = i then some after else s.operations[j]? :=
    getElem?_setOperation found
  have others : (∃ (j : Nat) (other : Operation), (s.operations.set i after)[j]? = some other ∧
        other.holds = true ∧ other.key = some text) ↔
      text ∈ s.keys ∧ operation.key ≠ some text := by
    rw [accounted.keyed]
    constructor
    · rintro ⟨j, other, there, otherHolds, otherKey⟩
      rw [lookup] at there
      by_cases here : j = i
      · rw [if_pos here, Option.some.injEq] at there
        rw [← there, free] at otherHolds
        cases otherHolds
      · rw [if_neg here] at there
        exact ⟨⟨j, other, there, otherHolds, otherKey⟩, fun same =>
          here (accounted.exclusive j i other operation text there found otherHolds holds otherKey same)⟩
    · rintro ⟨⟨j, other, there, otherHolds, otherKey⟩, differs⟩
      have elsewhere : j ≠ i := by
        rintro rfl
        rw [found, Option.some.injEq] at there
        exact differs (there ▸ otherKey)
      exact ⟨j, other, by rw [lookup, if_neg elsewhere]; exact there, otherHolds, otherKey⟩
  rw [others]
  cases operation.key with
  | none => simp [discardKey]
  | some own =>
    simp only [discardKey, List.mem_filter, decide_eq_true_eq, ne_eq, Option.some.injEq]
    exact and_congr_right fun _ => not_congr eq_comm

/-- Giving back the place of an operation, whether it still holds one or not. -/
theorem Accounted.settled (accounted : Accounted s) (found : s.operations[i]? = some operation)
    (control : after.control = operation.control) (key : after.key = operation.key)
    (free : after.holds = false) : Accounted ((s.release i).setOperation i after) := by
  by_cases holds : operation.holds = true
  · have listed : i ∈ s.entries := (accounted.entries_iff i).mpr ⟨operation, found, holds⟩
    have inside : i < s.operations.length := (List.getElem?_eq_some_iff.mp found).1
    unfold release
    rw [found]
    dsimp only
    rw [if_pos listed]
    have lookup : ∀ j, (s.operations.set i after)[j]? = if j = i then some after else s.operations[j]? :=
      getElem?_setOperation found
    refine ⟨?_, ?_, ?_, ?_, ?_, ?_, ?_, ?_⟩
    · intro j
      change j ∈ s.entries.erase i ↔ ∃ other_, (s.operations.set i after)[j]? = some other_ ∧ other_.holds = true
      rw [accounted.nodup.mem_erase_iff, accounted.entries_iff, lookup]
      by_cases here : j = i
      · simp [here, free]
      · simp [here]
    · exact accounted.nodup.erase i
    · intro lane
      have places := @held_setOperation s i operation after found lane
      change Function.update s.counts operation.control (s.counts operation.control - 1) lane =
        (s.setOperation i after).held lane
      have before := accounted.counted lane
      by_cases here : lane = operation.control
      · subst here
        rw [Function.update_self, before]
        simp only [holds, free, and_true, and_false, if_true, if_false, Bool.false_eq_true] at places
        omega
      · rw [Function.update_of_ne here, before]
        simp only [free, Ne.symm here, false_and, and_false, if_false, Bool.false_eq_true] at places
        omega
    · intro lane
      have before := accounted.limited lane
      change Function.update s.counts operation.control (s.counts operation.control - 1) lane ≤ s.limits lane
      by_cases here : lane = operation.control
      · subst here
        rw [Function.update_self]
        omega
      · rw [Function.update_of_ne here]
        exact before
    · exact accounted.discarded found holds free
    · intro j k one other text oneFound otherFound oneHolds otherHolds oneKey otherKey
      have elsewhere : ∀ {j : Nat} {other_ : Operation}, (s.operations.set i after)[j]? = some other_ →
          other_.holds = true → s.operations[j]? = some other_ := by
        intro j other_ there holds_
        rw [lookup] at there
        by_cases here : j = i
        · rw [if_pos here, Option.some.injEq] at there
          rw [← there, free] at holds_
          cases holds_
        · rwa [if_neg here] at there
      exact accounted.exclusive j k one other text (elsewhere oneFound oneHolds) (elsewhere otherFound otherHolds)
        oneHolds otherHolds oneKey otherKey
    · intro j
      change j ∈ i :: s.released ↔ ∃ other_, (s.operations.set i after)[j]? = some other_ ∧ other_.holds = false
      rw [List.mem_cons, accounted.released_iff, lookup]
      by_cases here : j = i
      · simp [here, free]
      · simp [here]
    · refine List.nodup_cons.mpr ⟨?_, accounted.releasedOnce⟩
      rw [accounted.released_iff, found]
      simp [holds]
  · have unlisted : i ∉ s.entries := by
      rw [accounted.entries_iff, found]
      simpa using holds
    have same : s.release i = s := by
      unfold release
      rw [found]
      dsimp only
      rw [if_neg unlisted]
    rw [same]
    exact accounted.kept found control key (by rw [free, Bool.eq_false_iff.mpr holds])

/-! ## Admissions -/

theorem getElem?_snoc (operations : List Operation) (entry : Operation) (j : Nat) :
    (operations ++ [entry])[j]? = if j = operations.length then some entry else operations[j]? := by
  rw [List.getElem?_append]
  split
  · next inside => rw [if_neg (by omega)]
  · next outside =>
    by_cases last : j = operations.length
    · simp [last]
    · rw [if_neg last, List.getElem?_eq_none (by omega : operations.length ≤ j)]
      exact List.getElem?_eq_none (by simp; omega)

variable {control : Bool} {key : Option PyStr}

/-- The state of an admission whose task has been made. -/
theorem Accounted.admitted (accounted : Accounted s) {phase : TaskPhase}
    (room : s.counts control < s.limits control) (fresh : ∀ text, key = some text → text ∉ s.keys)
    (starts : phase.holds = true) {entry : Operation} (made : entry = { call := s.calls, control, key }) :
    Accounted ((s.reserve control key).setOperation s.operations.length (entry.withPhase phase)) := by
  have operations : ((s.reserve control key).setOperation s.operations.length (entry.withPhase phase)).operations =
      s.operations ++ [entry.withPhase phase] := by
    simp [setOperation, reserve]
  have lookup : ∀ j, (s.operations ++ [entry.withPhase phase])[j]? =
      if j = s.operations.length then some (entry.withPhase phase) else s.operations[j]? :=
    getElem?_snoc s.operations _
  have holds : (entry.withPhase phase).holds = true := starts
  have ownKey : (entry.withPhase phase).key = key := by rw [made]; rfl
  have inside : ∀ {j : Nat} {operation : Operation}, s.operations[j]? = some operation → j ≠ s.operations.length :=
    fun found => Nat.ne_of_lt (List.getElem?_eq_some_iff.mp found).1
  refine ⟨?_, ?_, ?_, ?_, ?_, ?_, ?_, accounted.releasedOnce⟩
  · intro j
    rw [operations, lookup]
    change j ∈ s.operations.length :: s.entries ↔ _
    rw [List.mem_cons, accounted.entries_iff]
    by_cases here : j = s.operations.length
    · simp [here, holds]
    · simp [here]
  · refine List.nodup_cons.mpr ⟨fun listed => ?_, accounted.nodup⟩
    obtain ⟨operation, found, _⟩ := (accounted.entries_iff _).mp listed
    exact inside found rfl
  · intro lane
    unfold held
    rw [operations, List.countP_append, List.countP_singleton]
    change Function.update s.counts control (s.counts control + 1) lane = _
    have before := accounted.counted lane
    unfold held at before
    have ownLane : (entry.withPhase phase).control = control := by rw [made]; rfl
    simp only [ownLane, holds, Bool.and_true, beq_iff_eq]
    by_cases here : lane = control
    · subst here
      rw [Function.update_self, before, if_pos rfl]
      omega
    · rw [Function.update_of_ne here, before, if_neg (Ne.symm here)]
      omega
  · intro lane
    change Function.update s.counts control (s.counts control + 1) lane ≤ s.limits lane
    by_cases here : lane = control
    · subst here
      rw [Function.update_self]
      omega
    · rw [Function.update_of_ne here]
      exact accounted.limited lane
  · intro text
    have added : (text ∈ ((s.reserve control key).setOperation s.operations.length (entry.withPhase phase)).keys) ↔
        key = some text ∨ text ∈ s.keys := by
      unfold reserve setOperation
      cases key with
      | none => simp [addKey]
      | some own =>
        simp only [addKey, List.mem_cons, Option.some.injEq]
        exact or_congr_left eq_comm
    rw [added, operations, accounted.keyed]
    constructor
    · rintro (own | ⟨j, other, found, otherHolds, otherKey⟩)
      · exact ⟨s.operations.length, _, by rw [lookup, if_pos rfl], holds, ownKey.trans own⟩
      · exact ⟨j, other, by rw [lookup, if_neg (inside found)]; exact found, otherHolds, otherKey⟩
    · rintro ⟨j, other, found, otherHolds, otherKey⟩
      rw [lookup] at found
      by_cases here : j = s.operations.length
      · rw [if_pos here, Option.some.injEq] at found
        rw [← found, ownKey] at otherKey
        exact Or.inl otherKey
      · rw [if_neg here] at found
        exact Or.inr ⟨j, other, found, otherHolds, otherKey⟩
  · intro j k one other text oneFound otherFound oneHolds otherHolds oneKey otherKey
    rw [operations, lookup] at oneFound otherFound
    have known : ∀ {j : Nat} {operation : Operation}, s.operations[j]? = some operation →
        operation.holds = true → operation.key = some text → text ∈ s.keys :=
      fun found holds_ key_ => (accounted.keyed text).mpr ⟨_, _, found, holds_, key_⟩
    by_cases first : j = s.operations.length <;> by_cases second : k = s.operations.length
    · exact first.trans second.symm
    · rw [if_pos first, Option.some.injEq] at oneFound
      rw [if_neg second] at otherFound
      rw [← oneFound, ownKey] at oneKey
      exact absurd (known otherFound otherHolds otherKey) (fresh text oneKey)
    · rw [if_neg first] at oneFound
      rw [if_pos second, Option.some.injEq] at otherFound
      rw [← otherFound, ownKey] at otherKey
      exact absurd (known oneFound oneHolds oneKey) (fresh text otherKey)
    · rw [if_neg first] at oneFound
      rw [if_neg second] at otherFound
      exact accounted.exclusive j k one other text oneFound otherFound oneHolds otherHolds oneKey otherKey
  · intro j
    change j ∈ s.released ↔ _
    rw [operations, lookup, accounted.released_iff]
    by_cases here : j = s.operations.length
    · subst here
      simp [holds]
    · simp [here]

/-- What is left of an admission whose task could not be made: the object, and its number. -/
def withdrawn (s : OwnedAppOperations) (control : Bool) (key : Option PyStr) : OwnedAppOperations :=
  { s with
    operations := s.operations ++ [{ call := s.calls, control, key }]
    calls := s.calls + 1
    released := s.operations.length :: s.released }

theorem release_reserve {control : Bool} {key : Option PyStr} (fresh : ∀ text, key = some text → text ∉ s.keys) :
    (s.reserve control key).release s.operations.length = s.withdrawn control key := by
  have found : (s.reserve control key).operations[s.operations.length]? =
      some { call := s.calls, control, key } := by
    simp [reserve]
  unfold release
  rw [found]
  dsimp only
  have listed : s.operations.length ∈ (s.reserve control key).entries := List.mem_cons_self
  rw [if_pos listed]
  have counts : Function.update (s.reserve control key).counts control ((s.reserve control key).counts control - 1) =
      s.counts := by
    unfold reserve
    simp
  have keys : discardKey key (s.reserve control key).keys = s.keys := by
    unfold reserve
    cases key with
    | none => rfl
    | some text =>
      have others : ∀ other ∈ s.keys, other ≠ text := fun other member same => fresh text rfl (same ▸ member)
      simpa [addKey, discardKey] using others
  have entries : (s.reserve control key).entries.erase s.operations.length = s.entries := by
    unfold reserve
    simp
  unfold withdrawn
  rw [counts, entries, keys]
  rfl

theorem release_of_not_mem (absent : i ∉ s.entries) : s.release i = s := by
  unfold release
  split
  · rfl
  · rw [if_neg absent]

/-- An object without a task changes no account; its release is on record. -/
theorem Accounted.withdrawn (accounted : Accounted s) (control : Bool) (key : Option PyStr) :
    Accounted (s.withdrawn control key) := by
  have lookup := getElem?_snoc s.operations { call := s.calls, control, key }
  have inside : ∀ {j : Nat} {operation : Operation}, s.operations[j]? = some operation → j ≠ s.operations.length :=
    fun found => Nat.ne_of_lt (List.getElem?_eq_some_iff.mp found).1
  have holding : ∀ (j : Nat) (P : Operation → Prop),
      (∃ operation, (s.withdrawn control key).operations[j]? = some operation ∧ operation.holds = true ∧ P operation) ↔
        ∃ operation, s.operations[j]? = some operation ∧ operation.holds = true ∧ P operation := by
    intro j P
    unfold OwnedAppOperations.withdrawn
    rw [lookup]
    by_cases here : j = s.operations.length
    · subst here
      simp [Operation.holds]
    · simp [here]
  refine ⟨?_, accounted.nodup, ?_, accounted.limited, ?_, ?_, ?_, ?_⟩
  · intro j
    have same := holding j fun _ => True
    simp only [and_true] at same
    rw [same]
    exact accounted.entries_iff j
  · intro lane
    have before := accounted.counted lane
    unfold held OwnedAppOperations.withdrawn at *
    rw [List.countP_append, List.countP_singleton]
    simpa [Operation.holds] using before
  · intro text
    exact (accounted.keyed text).trans (exists_congr fun j => (holding j _).symm)
  · intro j k one other text oneFound otherFound oneHolds otherHolds oneKey otherKey
    obtain ⟨one', oneFound', oneHolds', oneKey'⟩ := (holding j fun operation => operation.key = some text).mp
      ⟨one, oneFound, oneHolds, oneKey⟩
    obtain ⟨other', otherFound', otherHolds', otherKey'⟩ := (holding k fun operation => operation.key = some text).mp
      ⟨other, otherFound, otherHolds, otherKey⟩
    exact accounted.exclusive j k one' other' text oneFound' otherFound' oneHolds' otherHolds' oneKey' otherKey'
  · intro j
    unfold OwnedAppOperations.withdrawn
    rw [List.mem_cons, lookup, accounted.released_iff]
    by_cases here : j = s.operations.length
    · simp [here, Operation.holds]
    · simp [here]
  · refine List.nodup_cons.mpr ⟨fun listed => ?_, accounted.releasedOnce⟩
    obtain ⟨operation, found, _⟩ := (accounted.released_iff _).mp listed
    exact inside found rfl

/-- What `admit` comes to: a refusal that only counts the call, an admission whose task is made, or
one that is taken back. -/
theorem admit_cases (accounted : Accounted s) (control : Bool) (key : Option PyStr) (creation : Creation) :
    (∃ error, s.admitCall control key creation = (.error error, { s with calls := s.calls + 1 })) ∨
    (∃ (phase : TaskPhase) (entry : Operation), phase.holds = true ∧ entry = { call := s.calls, control, key } ∧
      s.counts control < s.limits control ∧ (∀ text, key = some text → text ∉ s.keys) ∧
      s.admitCall control key creation = (.ok s.operations.length,
        (s.reserve control key).setOperation s.operations.length (entry.withPhase phase))) ∨
    s.admitCall control key creation = (.error .creationFailed, s.withdrawn control key) := by
  unfold admitCall
  dsimp only
  by_cases valid : (!validKey key) = true
  · rw [if_pos valid]
    exact Or.inl ⟨_, rfl⟩
  rw [if_neg valid]
  by_cases closing : s.closing = true
  · rw [if_pos closing]
    exact Or.inl ⟨_, rfl⟩
  rw [if_neg closing]
  by_cases full : (s.limits control : Int) ≤ s.counts control ∨ key.any (· ∈ s.keys) = true
  · rw [if_pos full]
    exact Or.inl ⟨_, rfl⟩
  rw [if_neg full]
  obtain ⟨room, free⟩ := not_or.mp full
  have fresh : ∀ text, key = some text → text ∉ s.keys := by
    rintro text rfl member
    exact free (by simpa using member)
  cases creation with
  | created eager =>
    refine Or.inr (Or.inl ⟨_, _, ?_, rfl, by omega, fresh, rfl⟩)
    cases eager <;> rfl
  | raises entered =>
    right
    right
    have released := @release_reserve s control key fresh
    have gone : s.operations.length ∉ (s.withdrawn control key).entries := by
      intro listed
      obtain ⟨operation, found, _⟩ := (accounted.entries_iff _).mp listed
      exact absurd (List.getElem?_eq_some_iff.mp found).1 (Nat.lt_irrefl _)
    cases entered with
    | false =>
      simp only [Bool.false_eq_true, if_false]
      rw [released]
    | true =>
      simp only [if_true]
      rw [released, release_of_not_mem gone]

/-! ## One step -/

theorem Accounted.admitCall (accounted : Accounted s) (control : Bool) (key : Option PyStr) (creation : Creation) :
    Accounted (s.admitCall control key creation).2 := by
  obtain ⟨error, refused⟩ | ⟨phase, entry, starts, made, room, fresh, ends⟩ | withdrawn :=
    admit_cases accounted control key creation
  · rw [refused]
    exact ⟨accounted.entries_iff, accounted.nodup, accounted.counted, accounted.limited, accounted.keyed,
      accounted.exclusive, accounted.released_iff, accounted.releasedOnce⟩
  · rw [ends]
    exact accounted.admitted room fresh starts made
  · rw [withdrawn]
    exact accounted.withdrawn control key

theorem Accounted.started (accounted : Accounted s) (calls : List Nat) :
    Accounted { s with started := calls } :=
  ⟨accounted.entries_iff, accounted.nodup, accounted.counted, accounted.limited, accounted.keyed,
    accounted.exclusive, accounted.released_iff, accounted.releasedOnce⟩

/-- What a step of a task comes to: nothing, a new phase in the same place, or a release. -/
theorem stepTask_cases (s : OwnedAppOperations) (i : Nat) (stepEnd : StepEnd) :
    s.stepTask i stepEnd = s ∨
    ∃ (operation : Operation) (task : OperationTask) (calls : List Nat), s.operations[i]? = some operation ∧
      operation.task = some task ∧ task.phase.done = false ∧
      (calls = s.started ∨ calls = operation.call :: s.started) ∧
      ((∃ phase, phase.holds = true ∧ s.stepTask i stepEnd =
          { s with started := calls }.setOperation i (operation.withPhase phase)) ∨
        s.stepTask i stepEnd =
          ({ s with started := calls }.release i).setOperation i (operation.withPhase (.ended true))) := by
  unfold stepTask
  cases found : s.operations[i]? with
  | none => exact Or.inl rfl
  | some operation =>
    dsimp only
    cases working : operation.task with
    | none => exact Or.inl rfl
    | some task =>
      dsimp only
      by_cases done : task.phase.done = true
      · rw [if_pos done]
        exact Or.inl rfl
      rw [if_neg done]
      right
      by_cases dropped : task.phase = .unstarted ∧ task.cancelRequested = true
      · rw [if_pos dropped]
        exact ⟨operation, task, s.started, rfl, working, Bool.eq_false_iff.mpr done, Or.inl rfl,
          Or.inl ⟨.ended false, rfl, rfl⟩⟩
      rw [if_neg dropped]
      by_cases stopped : task.phase = .waiting ∧ task.cancelRequested = true
      · rw [if_pos stopped]
        exact ⟨operation, task, s.started, rfl, working, Bool.eq_false_iff.mpr done, Or.inl rfl, Or.inr rfl⟩
      rw [if_neg stopped]
      have calls : ∃ calls, (calls = s.started ∨ calls = operation.call :: s.started) ∧
          (if task.phase = .running then s else { s with started := operation.call :: s.started }) =
            { s with started := calls } := by
        by_cases running : task.phase = .running
        · exact ⟨s.started, Or.inl rfl, if_pos running⟩
        · exact ⟨_, Or.inr rfl, if_neg running⟩
      obtain ⟨calls, which, called⟩ := calls
      rw [called]
      refine ⟨operation, task, calls, rfl, working, Bool.eq_false_iff.mpr done, which, ?_⟩
      cases stepEnd with
      | suspends => exact Or.inl ⟨.running, rfl, rfl⟩
      | ends => exact Or.inr rfl

/-- A task that is not done keeps its place. -/
theorem holds_of_not_done {task : OperationTask} (working : operation.task = some task)
    (going : task.phase.done = false) : operation.holds = true := by
  unfold Operation.holds
  rw [working]
  cases phase : task.phase <;> simp_all [TaskPhase.done, TaskPhase.holds]

theorem Accounted.stepTask (accounted : Accounted s) (i : Nat) (stepEnd : StepEnd) :
    Accounted (s.stepTask i stepEnd) := by
  obtain same | ⟨operation, task, calls, found, working, going, _, ⟨phase, stays, ends⟩ | ends⟩ :=
    stepTask_cases s i stepEnd
  · rw [same]
    exact accounted
  · rw [ends]
    exact (accounted.started calls).kept found rfl rfl
      (stays.trans (holds_of_not_done working going).symm)
  · rw [ends]
    exact (accounted.started calls).settled found rfl rfl rfl

theorem Accounted.finished (accounted : Accounted s) (i : Nat) : Accounted (s.finished i) := by
  unfold OwnedAppOperations.finished
  split
  · exact accounted
  · next operation found =>
    split
    · exact accounted.settled found rfl rfl rfl
    · exact accounted

/-- A change that keeps the call, the lane, the key and the phase of an operation. -/
structure Reflags (f : Operation → Operation) : Prop where
  call : ∀ operation, (f operation).call = operation.call
  control : ∀ operation, (f operation).control = operation.control
  key : ∀ operation, (f operation).key = operation.key
  phase : ∀ operation, (f operation).task.map OperationTask.phase = operation.task.map OperationTask.phase

theorem reflags_cancel : Reflags Operation.cancel := by
  constructor <;> intro operation <;> unfold Operation.cancel <;> split <;> try rfl
  all_goals split <;> simp_all

theorem reflags_cancelTask : Reflags Operation.cancelTask := by
  constructor <;> intro operation <;> unfold Operation.cancelTask <;> split <;> try rfl
  all_goals split <;> simp_all

variable {f : Operation → Operation}

theorem Reflags.picked (reflags : Reflags f) (picks : Operation → Bool) :
    Reflags fun operation => if picks operation then f operation else operation := by
  constructor <;> intro operation <;> split
  · exact reflags.call operation
  · rfl
  · exact reflags.control operation
  · rfl
  · exact reflags.key operation
  · rfl
  · exact reflags.phase operation
  · rfl

theorem Reflags.holds (reflags : Reflags f) (operation : Operation) :
    (f operation).holds = operation.holds := by
  have places : ∀ operation : Operation, operation.holds =
      (operation.task.map OperationTask.phase).any TaskPhase.holds := by
    intro operation
    unfold Operation.holds
    cases operation.task <;> rfl
  rw [places, places, reflags.phase]

theorem Accounted.modify (accounted : Accounted s) (i : Nat) (reflags : Reflags f) :
    Accounted (s.modify i f) := by
  unfold OwnedAppOperations.modify
  split
  · exact accounted
  · next operation found =>
    exact accounted.kept found (reflags.control operation) (reflags.key operation) (reflags.holds operation)

theorem Accounted.cancelEntries (picks : Operation → Bool) (entries : List Nat) :
    ∀ {s : OwnedAppOperations}, Accounted s → Accounted (s.cancelEntries picks entries) := by
  induction entries with
  | nil => exact id
  | cons i rest ih => exact fun accounted => ih (accounted.modify i (reflags_cancel.picked picks))

theorem Accounted.closeEntries (entries : List Nat) :
    ∀ {s : OwnedAppOperations}, Accounted s → Accounted (s.closeEntries entries) := by
  induction entries with
  | nil => exact id
  | cons i rest ih =>
    intro s accounted
    unfold OwnedAppOperations.closeEntries
    split
    · exact accounted
    · exact ih (accounted.modify i reflags_cancel)

theorem Accounted.step (accounted : Accounted s) (input : OperationInput) :
    Accounted (operationMachine.step s input).2 := by
  cases input with
  | admitCall control key creation => exact accounted.admitCall control key creation
  | step i stepEnd => exact accounted.stepTask i stepEnd
  | finished i => exact accounted.finished i
  | cancelTask i => exact accounted.modify i reflags_cancelTask
  | cancelOrdinary => exact accounted.cancelEntries _ _
  | cancelSessions sessionIds => exact accounted.cancelEntries _ _
  | joinSessions sessionIds => exact accounted
  | close =>
    exact ⟨accounted.entries_iff, accounted.nodup, accounted.counted, accounted.limited, accounted.keyed,
      accounted.exclusive, accounted.released_iff, accounted.releasedOnce⟩
  | closeOnce => exact accounted.closeEntries _

/-! ## Calls -/

/-- What the calls of `admit` and their operations may have become later. -/
structure Follows (s after : OwnedAppOperations) : Prop where
  limits : after.limits = s.limits
  calls : s.calls ≤ after.calls
  operations : ∀ made ∈ after.operations,
    (∃ operation ∈ s.operations, operation.call = made.call ∧ (operation.task = none → made.task = none)) ∨
      s.calls ≤ made.call ∧ made.call < after.calls
  started : ∀ call ∈ after.started, call ∈ s.started ∨
    (∃ operation ∈ s.operations, operation.call = call ∧ operation.task ≠ none) ∨
      s.calls ≤ call ∧ call < after.calls

theorem Follows.refl (s : OwnedAppOperations) : Follows s s :=
  ⟨rfl, Nat.le_refl _, fun made listed => Or.inl ⟨made, listed, rfl, id⟩, fun _ listed => Or.inl listed⟩

theorem Follows.trans {middle last : OwnedAppOperations} (first : Follows s middle) (second : Follows middle last) :
    Follows s last := by
  have forward := first.calls
  have further := second.calls
  refine ⟨second.limits.trans first.limits, by omega, ?_, ?_⟩
  · intro made listed
    rcases second.operations made listed with ⟨operation, known, same, idle⟩ | ⟨low, high⟩
    · rcases first.operations operation known with ⟨older, known', same', idle'⟩ | ⟨low, high⟩
      · exact Or.inl ⟨older, known', same'.trans same, idle ∘ idle'⟩
      · exact Or.inr ⟨same ▸ low, by omega⟩
    · exact Or.inr ⟨by omega, high⟩
  · intro call listed
    rcases second.started call listed with before | ⟨operation, known, same, working⟩ | ⟨low, high⟩
    · rcases first.started call before with before | older | ⟨low, high⟩
      · exact Or.inl before
      · exact Or.inr (Or.inl older)
      · exact Or.inr (Or.inr ⟨low, by omega⟩)
    · rcases first.operations operation known with ⟨older, known', same', idle⟩ | ⟨low, high⟩
      · exact Or.inr (Or.inl ⟨older, known', same'.trans same, fun none_ => working (idle none_)⟩)
      · exact Or.inr (Or.inr ⟨same ▸ low, by omega⟩)
    · exact Or.inr (Or.inr ⟨by omega, high⟩)

theorem release_frame (s : OwnedAppOperations) (i : Nat) :
    (s.release i).limits = s.limits ∧ (s.release i).calls = s.calls ∧
      (s.release i).operations = s.operations ∧ (s.release i).started = s.started := by
  unfold release
  split
  · exact ⟨rfl, rfl, rfl, rfl⟩
  · split <;> exact ⟨rfl, rfl, rfl, rfl⟩

theorem Follows.release (s : OwnedAppOperations) (i : Nat) : Follows s (s.release i) := by
  obtain ⟨limits, calls, operations, started⟩ := release_frame s i
  refine ⟨limits, Nat.le_of_eq calls.symm, ?_, ?_⟩
  · rw [operations]
    exact fun made listed => Or.inl ⟨made, listed, rfl, id⟩
  · rw [started]
    exact fun _ listed => Or.inl listed

theorem Follows.setOperation (found : s.operations[i]? = some operation) (call : after.call = operation.call)
    (idle : operation.task = none → after.task = none) : Follows s (s.setOperation i after) := by
  refine ⟨rfl, Nat.le_refl _, ?_, fun _ listed => Or.inl listed⟩
  intro made listed
  rcases List.mem_or_eq_of_mem_set listed with kept | rfl
  · exact Or.inl ⟨made, kept, rfl, id⟩
  · exact Or.inl ⟨operation, List.mem_of_getElem? found, call.symm, idle⟩

theorem Follows.admitCall (accounted : Accounted s) (control : Bool) (key : Option PyStr) (creation : Creation) :
    Follows s (s.admitCall control key creation).2 := by
  obtain ⟨error, refused⟩ | ⟨phase, entry, starts, made, room, fresh, ends⟩ | withdrawn :=
    admit_cases accounted control key creation
  · rw [refused]
    exact ⟨rfl, Nat.le_succ _, fun made listed => Or.inl ⟨made, listed, rfl, id⟩, fun _ listed => Or.inl listed⟩
  · rw [ends]
    refine ⟨rfl, Nat.le_succ _, ?_, fun _ listed => Or.inl listed⟩
    intro other listed
    rcases List.mem_or_eq_of_mem_set listed with kept | rfl
    · rcases List.mem_append.mp kept with old | new
      · exact Or.inl ⟨other, old, rfl, id⟩
      · rw [List.mem_singleton.mp new]
        exact Or.inr ⟨Nat.le_refl _, Nat.lt_succ_self _⟩
    · rw [made]
      exact Or.inr ⟨Nat.le_refl _, Nat.lt_succ_self _⟩
  · rw [withdrawn]
    refine ⟨rfl, Nat.le_succ _, ?_, fun _ listed => Or.inl listed⟩
    exact forall_mem_snoc (fun other old => Or.inl ⟨other, old, rfl, id⟩)
      (Or.inr ⟨Nat.le_refl _, Nat.lt_succ_self _⟩)

theorem Follows.stepTask (s : OwnedAppOperations) (i : Nat) (stepEnd : StepEnd) :
    Follows s (s.stepTask i stepEnd) := by
  obtain same | ⟨operation, task, calls, found, working, _, which, ends⟩ := stepTask_cases s i stepEnd
  · rw [same]
    exact Follows.refl s
  have working' : operation.task ≠ none := by rw [working]; simp
  have called : Follows s { s with started := calls } := by
    refine ⟨rfl, Nat.le_refl _, fun made listed => Or.inl ⟨made, listed, rfl, id⟩, ?_⟩
    intro call listed
    change call ∈ calls at listed
    rcases which with rfl | rfl
    · exact Or.inl listed
    · rcases List.mem_cons.mp listed with rfl | before
      · exact Or.inr (Or.inl ⟨operation, List.mem_of_getElem? found, rfl, working'⟩)
      · exact Or.inl before
  rcases ends with ⟨phase, _, ends⟩ | ends
  · rw [ends]
    exact called.trans (Follows.setOperation found rfl fun idle => absurd idle working')
  · rw [ends]
    refine called.trans ((Follows.release _ i).trans ?_)
    apply Follows.setOperation
    · rw [(release_frame _ i).2.2.1]
      exact found
    · rfl
    · exact fun idle => absurd idle working'

theorem Follows.finished (s : OwnedAppOperations) (i : Nat) : Follows s (s.finished i) := by
  unfold OwnedAppOperations.finished
  split
  · exact Follows.refl s
  · next operation found =>
    split
    · next working =>
      refine (Follows.release s i).trans ?_
      apply Follows.setOperation
      · rw [(release_frame s i).2.2.1]
        exact found
      · rfl
      · rw [working]
        exact nofun
    · exact Follows.refl s

theorem Follows.modify (s : OwnedAppOperations) (i : Nat) (reflags : Reflags f) :
    Follows s (s.modify i f) := by
  unfold OwnedAppOperations.modify
  split
  · exact Follows.refl s
  · next operation found =>
    refine Follows.setOperation found (reflags.call operation) fun idle => ?_
    have phase := reflags.phase operation
    rw [idle, Option.map_none, Option.map_eq_none_iff] at phase
    exact phase

theorem Follows.cancelEntries (picks : Operation → Bool) (entries : List Nat) :
    ∀ s : OwnedAppOperations, Follows s (s.cancelEntries picks entries) := by
  induction entries with
  | nil => exact Follows.refl
  | cons i rest ih => exact fun s => (Follows.modify s i (reflags_cancel.picked picks)).trans (ih _)

theorem Follows.closeEntries (entries : List Nat) :
    ∀ s : OwnedAppOperations, Follows s (s.closeEntries entries) := by
  induction entries with
  | nil => exact Follows.refl
  | cons i rest ih =>
    intro s
    unfold OwnedAppOperations.closeEntries
    split
    · exact Follows.refl s
    · exact (Follows.modify s i reflags_cancel).trans (ih _)

theorem Follows.step (accounted : Accounted s) (input : OperationInput) :
    Follows s (operationMachine.step s input).2 := by
  cases input with
  | admitCall control key creation => exact Follows.admitCall accounted control key creation
  | step i stepEnd => exact Follows.stepTask s i stepEnd
  | finished i => exact Follows.finished s i
  | cancelTask i => exact Follows.modify s i reflags_cancelTask
  | cancelOrdinary => exact Follows.cancelEntries _ _ s
  | cancelSessions sessionIds => exact Follows.cancelEntries _ _ s
  | joinSessions sessionIds => exact Follows.refl s
  | close =>
    exact ⟨rfl, Nat.le_refl _, fun made listed => Or.inl ⟨made, listed, rfl, id⟩, fun _ listed => Or.inl listed⟩
  | closeOnce => exact Follows.closeEntries _ s

/-- Calls are numbered in order. -/
structure Numbered (s : OwnedAppOperations) : Prop where
  operations : ∀ operation ∈ s.operations, operation.call < s.calls
  started : ∀ call ∈ s.started, call < s.calls

theorem Numbered.follows {after : OwnedAppOperations} (numbered : Numbered s) (follows : Follows s after) :
    Numbered after := by
  have forward := follows.calls
  constructor
  · intro made listed
    rcases follows.operations made listed with ⟨operation, known, same, _⟩ | ⟨_, high⟩
    · have before := numbered.operations operation known
      omega
    · exact high
  · intro call listed
    rcases follows.started call listed with before | ⟨operation, known, same, _⟩ | ⟨_, high⟩
    · have before := numbered.started call before
      omega
    · have before := numbered.operations operation known
      omega
    · exact high

/-- The operation of a call has not been called, and no task can call it. -/
structure Refused (call : Nat) (s : OwnedAppOperations) : Prop where
  past : call < s.calls
  idle : ∀ operation ∈ s.operations, operation.call = call → operation.task = none
  silent : call ∉ s.started

theorem Refused.follows {after : OwnedAppOperations} {call : Nat} (refused : Refused call s)
    (follows : Follows s after) : Refused call after := by
  have forward := follows.calls
  have past := refused.past
  refine ⟨by omega, ?_, ?_⟩
  · intro made listed own
    rcases follows.operations made listed with ⟨operation, known, same, idle⟩ | ⟨low, _⟩
    · exact idle (refused.idle operation known (same.trans own))
    · omega
  · intro listed
    rcases follows.started call listed with before | ⟨operation, known, same, working⟩ | ⟨low, _⟩
    · exact refused.silent before
    · exact working (refused.idle operation known same)
    · omega

theorem Refused.admitCall (accounted : Accounted s) (numbered : Numbered s) {creation : Creation}
    {error : AdmissionError} (failed : (s.admitCall control key creation).1 = .error error) :
    (s.admitCall control key creation).2.counts = s.counts ∧ Refused s.calls (s.admitCall control key creation).2 := by
  have silent : s.calls ∉ s.started := fun listed => Nat.lt_irrefl _ (numbered.started _ listed)
  have idle : ∀ operation ∈ s.operations, operation.call = s.calls → operation.task = none :=
    fun operation listed same => absurd (same ▸ numbered.operations operation listed) (Nat.lt_irrefl _)
  obtain ⟨_, refused⟩ | ⟨_, _, _, _, _, _, ends⟩ | withdrawn := admit_cases accounted control key creation
  · rw [refused]
    exact ⟨rfl, Nat.lt_succ_self _, idle, silent⟩
  · rw [ends] at failed
    cases failed
  · rw [withdrawn]
    refine ⟨rfl, Nat.lt_succ_self _, ?_, silent⟩
    intro operation listed same
    rcases List.mem_append.mp listed with old | new
    · exact idle operation old same
    · rw [List.mem_singleton.mp new]

end Steps

/-! ## Runs -/

variable {maxOrdinary maxControl : Int} {owner : OwnedAppOperations}

theorem accounted_create (made : create maxOrdinary maxControl = some owner) :
    Accounted owner ∧ Numbered owner := by
  unfold create at made
  split at made
  · rw [Option.some.injEq] at made
    subst made
    refine ⟨⟨?_, List.nodup_nil, ?_, ?_, ?_, ?_, ?_, List.nodup_nil⟩, by constructor <;> simp⟩
    · simp
    · simp [held]
    · simp
    · simp
    · simp
    · simp
  · cases made

/-- The accounts agree, the calls are numbered, and no limit moves. -/
structure Kept (owner s : OwnedAppOperations) : Prop where
  accounted : Accounted s
  numbered : Numbered s
  limits : s.limits = owner.limits

theorem kept_final (made : create maxOrdinary maxControl = some owner) (inputs : List OperationInput) :
    Kept owner (operationMachine.final owner inputs) := by
  obtain ⟨accounted, numbered⟩ := accounted_create made
  refine @Machine.final_of_invariant _ _ _ operationMachine (Kept owner) ?_ owner ⟨accounted, numbered, rfl⟩ inputs
  intro s input kept
  have follows := Follows.step kept.accounted input
  exact ⟨kept.accounted.step input, kept.numbered.follows follows, follows.limits.trans kept.limits⟩

theorem refused_final {call : Nat} {s : OwnedAppOperations} (accounted : Accounted s) (refused : Refused call s)
    (inputs : List OperationInput) : Refused call (operationMachine.final s inputs) := by
  refine (@Machine.final_of_invariant _ _ _ operationMachine (fun s => Accounted s ∧ Refused call s) ?_ s
    ⟨accounted, refused⟩ inputs).2
  intro s input both
  exact ⟨both.1.step input, both.2.follows (Follows.step both.1 input)⟩

theorem holds_eq (operation : Operation) :
    operation.holds = (operation.unfinished || operation.awaitsCallback) := by
  unfold Operation.holds Operation.unfinished Operation.awaitsCallback
  cases operation.task with
  | none => rfl
  | some task =>
    cases phase : task.phase with
    | ended entered => cases entered <;> simp [phase, TaskPhase.holds, TaskPhase.done]
    | _ => simp [phase, TaskPhase.holds, TaskPhase.done]

/-- Accounting of the accepted operations. A lane counts the operations whose task is not done and
those cancelled before their first step whose done callback the loop has still to call. -/
theorem lanes_accounted (maxOrdinary maxControl : Int) (owner : OwnedAppOperations)
    (made : create maxOrdinary maxControl = some owner) (inputs : List OperationInput) :
    (∀ lane, (operationMachine.final owner inputs).counts lane =
        ((operationMachine.final owner inputs).operations.countP fun operation =>
          operation.control == lane && (operation.unfinished || operation.awaitsCallback) : Nat) ∧
      0 ≤ (operationMachine.final owner inputs).counts lane ∧
      (operationMachine.final owner inputs).counts lane ≤ owner.limits lane) ∧
    ((∀ operation ∈ (operationMachine.final owner inputs).operations,
        operation.unfinished = false ∧ operation.awaitsCallback = false) →
      (operationMachine.final owner inputs).pendingCounts = (0, 0)) ∧
    (operationMachine.final owner inputs).released.Nodup ∧
    (∀ (i : Nat) (operation : Operation), (operationMachine.final owner inputs).operations[i]? = some operation →
      operation.task.isSome = true →
      (i ∈ (operationMachine.final owner inputs).released ↔
        operation.unfinished = false ∧ operation.awaitsCallback = false)) ∧
    ∀ (control : Bool) (key : Option PyStr) (creation : Creation) (error : AdmissionError) (after : OwnedAppOperations),
      (operationMachine.final owner inputs).admitCall control key creation = (.error error, after) →
      after.counts = (operationMachine.final owner inputs).counts ∧
        ∀ later, (operationMachine.final owner inputs).calls ∉ (operationMachine.final after later).started := by
  obtain ⟨accounted, numbered, limits⟩ := kept_final made inputs
  generalize operationMachine.final owner inputs = s at accounted numbered limits ⊢
  have counted : ∀ lane, s.counts lane = (s.operations.countP fun operation =>
      operation.control == lane && (operation.unfinished || operation.awaitsCallback) : Nat) := by
    intro lane
    rw [accounted.counted lane]
    unfold held
    simp only [holds_eq]
  refine ⟨?_, ?_, accounted.releasedOnce, ?_, ?_⟩
  · intro lane
    have bound := accounted.limited lane
    rw [limits] at bound
    exact ⟨counted lane, by rw [counted lane]; omega, bound⟩
  · intro over_
    have empty : ∀ lane, s.counts lane = 0 := by
      intro lane
      have nobody : (s.operations.countP fun operation =>
          operation.control == lane && (operation.unfinished || operation.awaitsCallback)) = 0 := by
        rw [List.countP_eq_zero]
        intro operation listed
        simp [over_ operation listed]
      rw [counted lane, nobody]
      rfl
    unfold pendingCounts
    rw [empty, empty]
  · intro i operation found admitted
    have free : operation.holds = false ↔ operation.unfinished = false ∧ operation.awaitsCallback = false := by
      rw [holds_eq, Bool.or_eq_false_iff]
    rw [accounted.released_iff, found]
    simpa using free
  · intro control key creation error after answered
    have failed : (s.admitCall control key creation).1 = .error error := by rw [answered]
    obtain ⟨counts, refused⟩ := Refused.admitCall accounted numbered failed
    have still := accounted.admitCall control key creation
    rw [answered] at counts refused still
    exact ⟨counts, fun later => (refused_final still refused later).silent⟩

/-- Two lanes of one place; the ordinary operation is cancelled while it runs, the second one is
refused, the control one is cancelled before its first step. -/
def crossedInputs : List OperationInput :=
  [.admitCall false none (.created false), .step 0 .suspends, .admitCall false none (.created false),
    .admitCall true none (.created false), .cancelTask 1, .cancelOrdinary, .step 0 .ends, .step 1 .suspends,
    .finished 1]

theorem lanes_accounted_crossed :
    (operationMachine.final { limits := fun control => if control then 1 else 1 } crossedInputs).pendingCounts =
      (0, 0) :=
  (lanes_accounted 1 1 _ rfl crossedInputs).2.1 (by decide)

/-- An operation cancelled before its first step: its task is done, and until the loop calls
`_finished` its lane still counts it. -/
theorem pending_after_done :
    create 1 1 = some { limits := fun control => if control then 1 else 1 } ∧
    ((operationMachine.final { limits := fun control => if control then 1 else 1 }
        [.admitCall false none (.created false), .cancelOrdinary, .step 0 .suspends]).operations.all
      fun operation => operation.unfinished = false) = true ∧
    (operationMachine.final { limits := fun control => if control then 1 else 1 }
      [.admitCall false none (.created false), .cancelOrdinary, .step 0 .suspends]).pendingCounts = (1, 0) :=
  ⟨rfl, by decide, by decide⟩

end OwnedAppOperations

end Loushang.AppService
