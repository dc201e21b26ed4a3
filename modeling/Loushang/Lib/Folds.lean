import Loushang.Lib.Raises
import Mathlib.Data.List.Dedup
import Mathlib.Data.List.Induction

/-!
# Folds that may raise

A loop over a list is a fold in `Except`. Its rule carries an invariant that speaks of the items
still to come.
-/
namespace Loushang.Lib

variable {E S A B : Type}

section

variable {step : S → A → Except E S} {inv : List A → S → Prop}

/-- What a fold keeps of the items still to come holds when none are left. -/
theorem foldlM_keeps
    (keeps : ∀ item rest s s', inv (item :: rest) s → step s item = .ok s' → inv rest s')
    {items : List A} {s s' : S} (start : inv items s) (run : items.foldlM step s = .ok s') :
    inv [] s' := by
  induction items generalizing s with
  | nil =>
    cases run
    exact start
  | cons item rest ih =>
    rw [List.foldlM_cons] at run
    obtain ⟨middle, first, more⟩ := Except.bind_ok_iff.mp run
    exact ih (keeps item rest s middle start first) more

end

section

variable {X : Type} {step : S → A → Except E S} {items : List A} {s s' : S}

/-- What a fold holds when each step adds what its item gives. -/
theorem foldlM_adds {view : S → X → Prop} {adds : A → X → Prop}
    (more : ∀ item ∈ items, ∀ s s', step s item = .ok s' → ∀ x, view s' x ↔ view s x ∨ adds item x)
    (run : items.foldlM step s = .ok s') (x : X) :
    view s' x ↔ view s x ∨ ∃ item ∈ items, adds item x := by
  induction items generalizing s with
  | nil =>
    cases run
    simp
  | cons item rest ih =>
    rw [List.foldlM_cons] at run
    obtain ⟨middle, first, later⟩ := Except.bind_ok_iff.mp run
    rw [ih (fun other member => more other (List.mem_cons_of_mem _ member)) later,
      more item List.mem_cons_self s middle first, or_assoc]
    simp

end

variable {items : List A}

theorem mapM_ok {f : A → Except E B} {g : A → B} (each : ∀ item ∈ items, f item = .ok (g item)) :
    items.mapM f = .ok (items.map g) := by
  induction items with
  | nil => rfl
  | cons item items ih =>
    rw [List.mapM_cons, each item List.mem_cons_self,
      ih fun other member => each other (List.mem_cons_of_mem _ member)]
    rfl

theorem mapM_map_ok {C : Type} {f : B → Except E C} {h : A → B} {g : A → C}
    (each : ∀ item ∈ items, f (h item) = .ok (g item)) : (items.map h).mapM f = .ok (items.map g) := by
  induction items with
  | nil => rfl
  | cons item items ih =>
    rw [List.map_cons, List.mapM_cons, each item List.mem_cons_self,
      ih fun other member => each other (List.mem_cons_of_mem _ member)]
    rfl

end Loushang.Lib
