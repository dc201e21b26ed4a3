import Mathlib.Tactic.Basic

/-!
# Checks that raise

How a computation that may raise comes to return: each check it made was passed.
-/
namespace Loushang.Lib

variable {E A B : Type} {c : Prop} [Decidable c] {e : E} {x : Except E A} {a : A}

theorem raise_if_ok (ran : (if c then .error e else x) = Except.ok a) : ¬c ∧ x = .ok a := by
  split at ran
  · cases ran
  · exact ⟨‹_›, ran⟩

theorem raise_unless_ok (ran : (if ¬c then .error e else x) = Except.ok a) : c ∧ x = .ok a :=
  (raise_if_ok ran).imp_left Decidable.not_not.mp

theorem raise_else_ok (ran : (if c then x else .error e) = Except.ok a) : c ∧ x = .ok a := by
  split at ran
  · exact ⟨‹_›, ran⟩
  · cases ran

variable {step : Except E A}

theorem Except.bind_ok_iff {next : A → Except E B} {value : B} :
    (step >>= next) = .ok value ↔ ∃ x, step = .ok x ∧ next x = .ok value := by
  cases step with
  | error e => exact ⟨nofun, nofun⟩
  | ok x => exact ⟨fun done => ⟨x, rfl, done⟩, fun ⟨_, same, done⟩ => by cases same; exact done⟩

theorem Except.map_ok_iff {f : A → B} {value : B} :
    step.map f = .ok value ↔ ∃ x, step = .ok x ∧ f x = value := by
  cases step with
  | error e => exact ⟨nofun, nofun⟩
  | ok x => simp [Except.map]

end Loushang.Lib
