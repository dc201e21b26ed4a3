import Mathlib.Data.List.Nodup

/-!
# Insertion-ordered dictionaries

A `dict` of the source: assigning to a present key keeps its place, a new key goes
to the end. Distinctness of the keys is a field.
-/
namespace Loushang.Lib

/-- Entries in insertion order. -/
structure Dict (K V : Type) where
  entries : List (K × V)
  nodup : (entries.map Prod.fst).Nodup
  deriving DecidableEq

namespace Dict

variable {K V : Type}

def empty : Dict K V := ⟨[], List.nodup_nil⟩

def keys (dict : Dict K V) : List K := dict.entries.map Prod.fst

def values (dict : Dict K V) : List V := dict.entries.map Prod.snd

@[simp] theorem keys_empty : (empty : Dict K V).keys = [] := rfl

variable [DecidableEq K]

/-- `dict.get(key)`. -/
def get? (dict : Dict K V) (key : K) : Option V :=
  (dict.entries.find? fun entry => entry.1 = key).map Prod.snd

private theorem fst_ite (entry : K × V) (key : K) (value : V) :
    (if entry.1 = key then (key, value) else entry).1 = entry.1 := by
  split
  · next same => exact same.symm
  · rfl

private theorem map_fst_replace (entries : List (K × V)) (key : K) (value : V) :
    (entries.map fun entry => if entry.1 = key then (key, value) else entry).map Prod.fst =
      entries.map Prod.fst := by
  rw [List.map_map]
  exact List.map_congr_left fun entry _ => fst_ite entry key value

/-- `dict[key] = value`. -/
def set (dict : Dict K V) (key : K) (value : V) : Dict K V :=
  if present : key ∈ dict.keys then
    ⟨dict.entries.map fun entry => if entry.1 = key then (key, value) else entry, by
      rw [map_fst_replace]
      exact dict.nodup⟩
  else
    ⟨dict.entries ++ [(key, value)], by
      rw [List.map_append]
      exact List.nodup_append.mpr ⟨dict.nodup, List.nodup_singleton _,
        by
          rintro a member b only same
          rw [List.map_singleton, List.mem_singleton] at only
          rw [same, only] at member
          exact present member⟩⟩

/-- `dict.pop(key, None)`. -/
def pop (dict : Dict K V) (key : K) : Dict K V :=
  ⟨dict.entries.filter fun entry => entry.1 ≠ key,
    (List.filter_sublist.map _).nodup dict.nodup⟩

/-- `dict.update(entries)`. -/
def update (dict : Dict K V) (entries : List (K × V)) : Dict K V :=
  entries.foldl (fun dict entry => dict.set entry.1 entry.2) dict

@[simp] theorem get?_empty (key : K) : (empty : Dict K V).get? key = none := rfl

variable {dict : Dict K V} {key : K}

theorem get?_eq_none : dict.get? key = none ↔ key ∉ dict.keys := by
  simp only [get?, keys, Option.map_eq_none_iff, List.find?_eq_none, decide_eq_true_eq,
    List.mem_map, not_exists, not_and]

theorem get?_isSome : (dict.get? key).isSome ↔ key ∈ dict.keys := by
  rw [← not_iff_not, Option.not_isSome_iff_eq_none, get?_eq_none]

variable {value : V}

theorem mem_of_get? (found : dict.get? key = some value) : (key, value) ∈ dict.entries := by
  obtain ⟨entry, located, rfl⟩ := Option.map_eq_some_iff.mp found
  have same := List.find?_some located
  rw [decide_eq_true_eq] at same
  rw [← same]
  exact List.mem_of_find?_eq_some located

theorem get?_of_mem {dict : Dict K V} {key : K} {value : V} (member : (key, value) ∈ dict.entries) :
    dict.get? key = some value := by
  cases found : dict.get? key with
  | none => exact absurd (List.mem_map_of_mem member) (get?_eq_none.mp found)
  | some other =>
    have there := mem_of_get? found
    have same := List.inj_on_of_nodup_map dict.nodup there member rfl
    rw [(Prod.mk.inj same).2]

theorem keys_set (dict : Dict K V) (key : K) (value : V) :
    (dict.set key value).keys = if key ∈ dict.keys then dict.keys else dict.keys ++ [key] := by
  unfold set
  split
  · exact map_fst_replace dict.entries key value
  · simp [keys]

variable {other : K}

@[simp] theorem mem_keys_set : other ∈ (dict.set key value).keys ↔ other = key ∨ other ∈ dict.keys := by
  rw [keys_set]
  split
  · next present =>
    constructor
    · exact Or.inr
    · rintro (rfl | member)
      · exact present
      · exact member
  · rw [List.mem_append, List.mem_singleton, or_comm]

private theorem find?_replace (entries : List (K × V)) (key other : K) (value : V)
    (different : other ≠ key) :
    ((entries.map fun entry => if entry.1 = key then (key, value) else entry).find?
        fun entry => entry.1 = other) = entries.find? fun entry => entry.1 = other := by
  induction entries with
  | nil => rfl
  | cons entry rest ih =>
    rw [List.map_cons, List.find?_cons, List.find?_cons, ih, fst_ite]
    by_cases here : entry.1 = other
    · simp [here, different]
    · simp [here]

theorem get?_set_self (dict : Dict K V) (key : K) (value : V) :
    (dict.set key value).get? key = some value := by
  apply get?_of_mem
  unfold set
  split
  · next present =>
    obtain ⟨entry, member, rfl⟩ := List.mem_map.mp present
    exact List.mem_map.mpr ⟨entry, member, if_pos rfl⟩
  · exact List.mem_append_right _ (List.mem_singleton.mpr rfl)

theorem get?_set_of_ne (dict : Dict K V) (value : V) (different : other ≠ key) :
    (dict.set key value).get? other = dict.get? other := by
  unfold set get?
  split
  · rw [find?_replace dict.entries key other value different]
  · rw [List.find?_append, List.find?_cons, decide_eq_false (Ne.symm different)]
    simp

theorem get?_set (dict : Dict K V) (key other : K) (value : V) :
    (dict.set key value).get? other = if other = key then some value else dict.get? other := by
  split
  · next same =>
    rw [same]
    exact get?_set_self dict key value
  · next different => exact get?_set_of_ne dict value different

theorem mem_entries_pop {entry : K × V} :
    entry ∈ (dict.pop key).entries ↔ entry ∈ dict.entries ∧ entry.1 ≠ key := by
  rw [pop, List.mem_filter, decide_eq_true_eq]

theorem get?_pop_self (dict : Dict K V) (key : K) : (dict.pop key).get? key = none := by
  rw [get?_eq_none]
  intro known
  obtain ⟨entry, member, same⟩ := List.mem_map.mp known
  exact (mem_entries_pop.mp member).2 same

theorem get?_pop_of_ne (dict : Dict K V) (different : other ≠ key) :
    (dict.pop key).get? other = dict.get? other := by
  cases found : dict.get? other with
  | some value => exact get?_of_mem (mem_entries_pop.mpr ⟨mem_of_get? found, different⟩)
  | none =>
    rw [get?_eq_none] at found ⊢
    intro known
    obtain ⟨entry, member, rfl⟩ := List.mem_map.mp known
    exact found (List.mem_map_of_mem (mem_entries_pop.mp member).1)

theorem entries_set_of_not_mem (absent : key ∉ dict.keys) (value : V) :
    (dict.set key value).entries = dict.entries ++ [(key, value)] := by
  unfold set
  rw [dif_neg absent]

@[simp] theorem update_nil (dict : Dict K V) : dict.update [] = dict := rfl

theorem update_cons (dict : Dict K V) (entry : K × V) (rest : List (K × V)) :
    dict.update (entry :: rest) = (dict.set entry.1 entry.2).update rest := rfl

theorem update_append (dict : Dict K V) (front back : List (K × V)) :
    dict.update (front ++ back) = (dict.update front).update back :=
  List.foldl_append

variable {entries : List (K × V)}

theorem mem_keys_update :
    key ∈ (dict.update entries).keys ↔ key ∈ dict.keys ∨ key ∈ entries.map Prod.fst := by
  induction entries generalizing dict with
  | nil => simp
  | cons entry rest ih =>
    rw [update_cons, ih, mem_keys_set, List.map_cons, List.mem_cons]
    tauto

/-- New keys go to the end. -/
theorem entries_update_of_disjoint (nodup : (entries.map Prod.fst).Nodup)
    (disjoint : ∀ key ∈ entries.map Prod.fst, key ∉ dict.keys) :
    (dict.update entries).entries = dict.entries ++ entries := by
  induction entries generalizing dict with
  | nil => simp
  | cons entry rest ih =>
    rw [List.map_cons, List.nodup_cons] at nodup
    have absent := disjoint entry.1 (by simp)
    rw [update_cons, ih nodup.2, entries_set_of_not_mem absent, List.append_assoc]
    · rfl
    · intro key member
      rw [mem_keys_set]
      rintro (rfl | present)
      · exact nodup.1 member
      · exact disjoint key (List.mem_cons_of_mem _ member) present

theorem get?_update_cases (found : (dict.update entries).get? key = some value) :
    dict.get? key = some value ∨ (key, value) ∈ entries := by
  induction entries generalizing dict with
  | nil => exact Or.inl found
  | cons entry rest ih =>
    rcases ih found with before | later
    · rw [get?_set] at before
      split at before
      · next same =>
        rw [Option.some.injEq] at before
        right
        rw [same, ← before]
        exact List.mem_cons_self
      · exact Or.inl before
    · exact Or.inr (List.mem_cons_of_mem _ later)

/-- Over distinct keys, a dictionary built from a list holds the list. -/
theorem get?_update_of_mem (nodup : (entries.map Prod.fst).Nodup) (member : (key, value) ∈ entries) :
    ((empty : Dict K V).update entries).get? key = some value := by
  apply get?_of_mem
  rw [entries_update_of_disjoint nodup (fun _ _ => List.not_mem_nil)]
  exact List.mem_append_right _ member

section Keyed
variable {A : Type}

variable {items : List A}

/-- In a list with distinct keys, `find?` by key finds the members. -/
theorem find?_key_iff {key : A → K} (nodup : (items.map key).Nodup) {wanted : K} {item : A} :
    (items.find? fun item => key item = wanted) = some item ↔
      item ∈ items ∧ key item = wanted := by
  constructor
  · intro found
    have same := List.find?_some found
    rw [decide_eq_true_eq] at same
    exact ⟨List.mem_of_find?_eq_some found, same⟩
  · rintro ⟨member, rfl⟩
    cases found : items.find? (fun other => key other = key item) with
    | none =>
      have missing := List.find?_eq_none.mp found item member
      simp at missing
    | some other =>
      have same := List.find?_some found
      rw [decide_eq_true_eq] at same
      rw [List.inj_on_of_nodup_map nodup (List.mem_of_find?_eq_some found) member same]

/-- `{key(item): item for item in items}` over distinct keys. -/
theorem get?_index {key : A → K} (nodup : (items.map key).Nodup) (wanted : K) :
    ((empty : Dict K A).update (items.map fun item => (key item, item))).get? wanted =
      items.find? fun item => key item = wanted := by
  have names : (items.map fun item => (key item, item)).map Prod.fst = items.map key := by
    rw [List.map_map]
    rfl
  apply Option.ext
  intro item
  rw [find?_key_iff nodup]
  constructor
  · intro found
    rcases get?_update_cases found with nothing | listed
    · cases nothing
    · obtain ⟨other, member, same⟩ := List.mem_map.mp listed
      obtain ⟨rfl, rfl⟩ := Prod.mk.inj same
      exact ⟨member, rfl⟩
  · rintro ⟨member, rfl⟩
    exact get?_update_of_mem (names ▸ nodup) (List.mem_map.mpr ⟨item, member, rfl⟩)

end Keyed

/-- An update reads as the other dictionary where that has the key. -/
theorem get?_update (dict other : Dict K V) (key : K) :
    (dict.update other.entries).get? key = (other.get? key).or (dict.get? key) := by
  obtain ⟨entries, nodup⟩ := other
  induction entries generalizing dict with
  | nil => rfl
  | cons entry rest ih =>
    obtain ⟨name, value⟩ := entry
    rw [List.map_cons, List.nodup_cons] at nodup
    rw [update_cons, ih _ nodup.2, get?_set]
    by_cases same : key = name
    · subst same
      have absent : (⟨rest, nodup.2⟩ : Dict K V).get? key = none := get?_eq_none.mpr nodup.1
      rw [absent]
      simp [get?]
    · simp [get?, same, Ne.symm same]

/-- Counting the values after an assignment: the old value's count goes, the new one's comes. -/
theorem countP_values_set (dict : Dict K V) (key : K) (value : V) (p : V → Bool) :
    (dict.set key value).values.countP p + (dict.get? key).toList.countP p =
      dict.values.countP p + [value].countP p := by
  obtain ⟨entries, nodup⟩ := dict
  unfold set values get? keys
  by_cases present : key ∈ entries.map Prod.fst
  · rw [dif_pos present]
    induction entries with
    | nil => cases present
    | cons entry rest ih =>
      obtain ⟨new, others⟩ := List.nodup_cons.mp nodup
      rw [List.find?_cons]
      by_cases here : entry.1 = key
      · have untouched : (rest.map fun entry => if entry.1 = key then (key, value) else entry) = rest := by
          rw [List.map_congr_left (g := id), List.map_id]
          intro other member
          rw [if_neg]
          · rfl
          · intro same
            apply new
            rw [here, ← same]
            exact List.mem_map_of_mem member
        simp only [here, decide_true, if_true, List.map_cons, untouched, List.countP_cons, List.countP_nil,
          Option.map_some, Option.toList_some]
        omega
      · have later := ih others (by
          rcases List.mem_cons.mp present with same | member
          · exact absurd same.symm here
          · exact member)
        simp only [here, decide_false, if_false, List.map_cons, List.countP_cons] at later ⊢
        omega
  · rw [dif_neg present]
    have missing : entries.find? (fun entry => entry.1 = key) = none := by
      rw [List.find?_eq_none]
      intro entry member
      simp only [decide_eq_true_eq]
      intro same
      exact present (same ▸ List.mem_map_of_mem member)
    rw [missing]
    simp [List.countP_append]

end Dict

end Loushang.Lib
