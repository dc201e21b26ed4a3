import Mathlib.Data.List.Basic

/-!
# Deterministic machines and their runs

A machine answers one input at a time; everything the outside world decides
(what a file system reports, which instance is asked) is part of the input, so
that a statement about every list of inputs is a statement about every run.
The rules below are the only inductions over runs: a client proves what one
step preserves and reads off what a whole run preserves.
-/
namespace Loushang.Lib

/-- One step takes a state and an input to an answer and the next state. -/
structure Machine (σ ι ω : Type) where
  step : σ → ι → ω × σ

namespace Machine

variable {σ τ ι ω ω' : Type}

/-- The state after a list of inputs. -/
def final (m : Machine σ ι ω) : σ → List ι → σ
  | s, [] => s
  | s, i :: rest => m.final (m.step s i).2 rest

/-- Each input's answer, with the states before and after it. -/
def trace (m : Machine σ ι ω) : σ → List ι → List (σ × ι × ω × σ)
  | _, [] => []
  | s, i :: rest => (s, i, m.step s i) :: m.trace (m.step s i).2 rest

/-- `P` holds of every input of the run at the state the input meets. -/
def AllSteps (m : Machine σ ι ω) (P : σ → ι → Prop) : σ → List ι → Prop
  | _, [] => True
  | s, i :: rest => P s i ∧ m.AllSteps P (m.step s i).2 rest

instance AllSteps.decidable (m : Machine σ ι ω) (P : σ → ι → Prop) [∀ s i, Decidable (P s i)] :
    ∀ s inputs, Decidable (m.AllSteps P s inputs)
  | _, [] => isTrue trivial
  | s, i :: rest => by
    have later := AllSteps.decidable m P (m.step s i).2 rest
    unfold AllSteps
    infer_instance

/-- Two machines side by side on the same inputs. -/
def pair (m : Machine σ ι ω) (n : Machine τ ι ω') : Machine (σ × τ) ι (ω × ω') where
  step s i := (((m.step s.1 i).1, (n.step s.2 i).1), ((m.step s.1 i).2, (n.step s.2 i).2))

theorem final_append (m : Machine σ ι ω) (s : σ) (front back : List ι) :
    m.final s (front ++ back) = m.final (m.final s front) back := by
  induction front generalizing s with
  | nil => rfl
  | cons i rest ih => exact ih (m.step s i).2

/-- Invariant rule: an invariant kept by every admitted step, each of which also
meets `Post`, makes every step of an admitted run meet `Post`. -/
theorem AllSteps.of_invariant {m : Machine σ ι ω} {Inv : σ → Prop} {Ok Post : σ → ι → Prop}
    (step : ∀ s i, Inv s → Ok s i → Post s i ∧ Inv (m.step s i).2)
    {s : σ} {inputs : List ι} (start : Inv s) (admitted : m.AllSteps Ok s inputs) :
    m.AllSteps Post s inputs ∧ Inv (m.final s inputs) := by
  induction inputs generalizing s with
  | nil => exact ⟨trivial, start⟩
  | cons i rest ih =>
    obtain ⟨post, next⟩ := step s i start admitted.1
    obtain ⟨later, last⟩ := ih next admitted.2
    exact ⟨⟨post, later⟩, last⟩

variable {m : Machine σ ι ω} {P : σ → ι → Prop} {inputs : List ι}

theorem AllSteps.mono {Q : σ → ι → Prop} (weaker : ∀ s i, P s i → Q s i) {s : σ}
    (holds : m.AllSteps P s inputs) : m.AllSteps Q s inputs := by
  induction inputs generalizing s with
  | nil => trivial
  | cons i rest ih => exact ⟨weaker s i holds.1, ih holds.2⟩

theorem allSteps_append {s : σ} {front back : List ι} :
    m.AllSteps P s (front ++ back) ↔ m.AllSteps P s front ∧ m.AllSteps P (m.final s front) back := by
  induction front generalizing s with
  | nil => simp [AllSteps, final]
  | cons i rest ih => simp only [List.cons_append, AllSteps, final, ih, and_assoc]

/-- A property of the inputs joins a property of the steps. -/
theorem AllSteps.and_mem {Q : ι → Prop} {s : σ} (holds : m.AllSteps P s inputs) (each : ∀ i ∈ inputs, Q i) :
    m.AllSteps (fun s i => P s i ∧ Q i) s inputs := by
  induction inputs generalizing s with
  | nil => trivial
  | cons i rest ih =>
    exact ⟨⟨holds.1, each i List.mem_cons_self⟩,
      ih holds.2 fun j member => each j (List.mem_cons_of_mem _ member)⟩

theorem AllSteps.true (m : Machine σ ι ω) (s : σ) (inputs : List ι) :
    m.AllSteps (fun _ _ => True) s inputs := by
  induction inputs generalizing s with
  | nil => trivial
  | cons i rest ih => exact ⟨trivial, ih _⟩

/-- The invariant rule where no input has to be excluded. -/
theorem final_of_invariant {m : Machine σ ι ω} {Inv : σ → Prop}
    (step : ∀ s i, Inv s → Inv (m.step s i).2) {s : σ} (start : Inv s) (inputs : List ι) :
    Inv (m.final s inputs) :=
  (@AllSteps.of_invariant _ _ _ m Inv (fun _ _ => True) (fun _ _ => True)
    (fun s i inv _ => ⟨trivial, step s i inv⟩) _ _ start (AllSteps.true m s inputs)).2

end Machine

end Loushang.Lib
