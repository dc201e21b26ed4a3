import Mathlib.Data.List.Nodup

/-!
# Lists that grow at the end

A record is appended to what is on record: what holds of the old ones and of the new one holds of all.
-/
namespace Loushang.Lib

variable {A : Type*} {a : A} {l : List A}

theorem forall_mem_snoc {p : A → Prop} (old : ∀ x ∈ l, p x) (new : p a) : ∀ x ∈ l ++ [a], p x :=
  List.forall_mem_append.mpr ⟨old, List.forall_mem_singleton.mpr new⟩

theorem nodup_snoc (once : l.Nodup) (fresh : a ∉ l) : (l ++ [a]).Nodup := by
  rw [← List.concat_eq_append]
  exact once.concat fresh

end Loushang.Lib
