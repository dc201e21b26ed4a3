import Mathlib.Logic.Basic

/-!
# Loops that end

A `while` loop given by what one pass does. A measure that every pass lowers makes the loop a
total function, which runs by the measure; what holds of the result is shown from the end of
the loop backwards, pass by pass.
-/
namespace Loushang.Lib

/-- What one pass of a loop comes to: an end, or the state of the next pass. -/
inductive Pass (S R : Type) where
  | stop (result : R)
  | next (state : S)

namespace Loop

section
variable {S R : Type} (body : S → Pass S R)

/-- The loop ends with a result after finitely many passes. -/
inductive Ends : S → R → Prop
  | stop {s : S} {r : R} (last : body s = .stop r) : Ends s r
  | next {s later : S} {r : R} (pass : body s = .next later) (rest : Ends later r) : Ends s r

/-- The states at which the loop makes a pass. -/
inductive Visits : S → S → Prop
  | here (s : S) : Visits s s
  | later {s next t : S} (pass : body s = .next next) (rest : Visits next t) : Visits s t

variable {body}

theorem visits_stop {s t : S} {r : R} (last : body s = .stop r) : Visits body s t ↔ t = s := by
  constructor
  · intro visited
    cases visited with
    | here => rfl
    | later pass _ =>
      rw [last] at pass
      cases pass
  · rintro rfl
    exact .here _

theorem visits_next {s next t : S} (pass : body s = .next next) :
    Visits body s t ↔ t = s ∨ Visits body next t := by
  constructor
  · intro visited
    cases visited with
    | here => exact Or.inl rfl
    | later pass' rest =>
      rw [pass] at pass'
      cases pass'
      exact Or.inr rest
  · rintro (rfl | rest)
    · exact .here _
    · exact .later pass rest

/-! ## Running a loop by a measure -/

variable (body) (size : S → Nat) (lowers : ∀ s later, body s = .next later → size later < size s)

/-- The loop with more passes than the size of its state. -/
def passes : (count : Nat) → (s : S) → size s < count → R
  | 0, _, few => absurd few (Nat.not_lt_zero _)
  | count + 1, s, few =>
    match pass : body s with
    | .stop r => r
    | .next later => passes count later (Nat.lt_of_lt_of_le (lowers s later pass) (Nat.le_of_lt_succ few))

/-- The result of a loop whose passes lower the measure. -/
def run (s : S) : R := passes body size lowers (size s + 1) s (Nat.lt_succ_self _)

theorem ends_passes (count : Nat) (s : S) (few : size s < count) :
    Ends body s (passes body size lowers count s few) := by
  induction count generalizing s with
  | zero => exact absurd few (Nat.not_lt_zero _)
  | succ count ih =>
    unfold passes
    split
    · next last => exact .stop last
    · next later pass => exact .next pass (ih later _)

theorem ends_run (s : S) : Ends body s (run body size lowers s) := ends_passes body size lowers _ _ _

end

end Loop

end Loushang.Lib
