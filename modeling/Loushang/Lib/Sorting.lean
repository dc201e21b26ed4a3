import Mathlib.Data.List.Sort
import Mathlib.Data.Prod.Lex

/-!
# Sorting by a key

`sorted(items, key=...)` is stable: items with equal keys keep their order. Two
arrangements of the same items are sorted alike when equal keys mean equal items.
-/
namespace Loushang.Lib

section

variable {α K : Type} [LinearOrder K]

/-- `sorted(items, key=key)`. -/
def sortedOn (key : α → K) (items : List α) : List α :=
  items.insertionSort fun a b => key a ≤ key b

theorem perm_sortedOn (key : α → K) (items : List α) : (sortedOn key items).Perm items :=
  List.perm_insertionSort _ items

variable {key : α → K} {items : List α}

@[simp] theorem mem_sortedOn {item : α} : item ∈ sortedOn key items ↔ item ∈ items :=
  (perm_sortedOn key items).mem_iff

theorem pairwise_sortedOn (key : α → K) (items : List α) :
    (sortedOn key items).Pairwise fun a b => key a ≤ key b := by
  exact List.pairwise_insertionSort _ items

/-- Sorting keeps a list that is in order. -/
theorem sortedOn_eq_self (ordered : items.Pairwise fun a b => key a ≤ key b) : sortedOn key items = items :=
  List.Pairwise.insertionSort_eq ordered

/-- The order of the argument does not matter when the key tells its items apart. -/
theorem sortedOn_eq_of_perm {others : List α} (same : items.Perm others)
    (separates : ∀ a ∈ items, ∀ b ∈ items, key a = key b → a = b) :
    sortedOn key items = sortedOn key others := by
  have perm : (sortedOn key items).Perm (sortedOn key others) :=
    (perm_sortedOn key items).trans (same.trans (perm_sortedOn key others).symm)
  refine List.Perm.eq_of_pairwise ?_ (pairwise_sortedOn key items) (pairwise_sortedOn key others) perm
  intro a b here there below above
  have inside : b ∈ items := same.mem_iff.mpr (mem_sortedOn.mp there)
  exact separates a (mem_sortedOn.mp here) b inside (le_antisymm below above)

end

end Loushang.Lib
