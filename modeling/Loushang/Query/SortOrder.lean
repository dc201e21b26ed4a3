import Loushang.Query.Engine
import Mathlib.Algebra.Order.Ring.Cast
import Mathlib.Algebra.Order.Ring.Rat
import Mathlib.Data.List.Pairwise
import Loushang.Lib.Lists

/-!
# Sorting by a property

A `SortBy` step compares the type name of a value before the value itself, so floats come
before integers, and an aware and a naive moment cannot be compared. Apart from that the
step arranges the objects by the property.
-/
namespace Loushang.Query
open Loushang.Lib Loushang.Facts Loushang.Projection Loushang.Schema

/-! ## The order of a property -/

/-- Numbers, truth values and moments are ordered by a number, texts by their characters. -/
abbrev Measure := ℚ ×ₗ String

def Value.measure : Value → Option Measure
  | .bool value => some (toLex (if value then 1 else 0, ""))
  | .int value => some (toLex ((value : ℚ), ""))
  | .float bits => some (toLex (floatValue bits, ""))
  | .str value => some (toLex (0, value))
  | .datetime moment => some (toLex ((moment.instant : ℚ), ""))
  | .null | .list _ | .dict _ => none

/-- The values a property of a type may have. -/
def Value.Typed : ValueType → Value → Prop
  | _, .null | .number, .int _ | .number, .float _ | .integer, .int _ | .string, .str _
  | .boolean, .bool _ | .datetime, .datetime _ => True
  | _, _ => False

/-- An object's value and a later one's, where the sort puts them in the order of the property:
a float goes before an integer, and moments are all aware or all naive. -/
def Orderly (ascending : Bool) : Value → Value → Prop
  | .float bits, .int whole =>
    if ascending then floatValue bits ≤ whole else floatValue bits < whole
  | .int whole, .float bits =>
    if ascending then floatValue bits < whole else floatValue bits ≤ whole
  | .datetime a, .datetime b => a.aware = b.aware
  | _, _ => True

/-- A snapshot whose properties have passed the check of their constructor. -/
structure CheckedSnapshot (lib : Stdlib) where
  snapshot : ProjectionSnapshot
  typed : ∀ object ∈ snapshot.objects, ∀ prop ∈ object.properties,
    fits lib prop.valueType prop.value = .ok true

/-! ## Keys -/

/-- The order of the keys. -/
def rank (key : SortKey) : Bool ×ₗ String ×ₗ Measure :=
  toLex (key.1, toLex (key.2.1, (key.2.2.measure).getD (toLex (0, ""))))

theorem rank_lt_iff {a b : SortKey} : rank a < rank b ↔ a.1 < b.1 ∨ a.1 = b.1 ∧
    (a.2.1 < b.2.1 ∨ a.2.1 = b.2.1 ∧
      (a.2.2.measure).getD (toLex (0, "")) < (b.2.2.measure).getD (toLex (0, ""))) := by
  unfold rank
  rw [Prod.Lex.toLex_lt_toLex, Prod.Lex.toLex_lt_toLex]

theorem measure_less {v w : Value} {less : Bool} (compared : v.less w = .ok less) :
    less = true ↔ v.measure.getD (toLex (0, "")) < w.measure.getD (toLex (0, "")) := by
  unfold Value.less at compared
  split at compared
  · next a b =>
    cases compared
    cases a <;> cases b <;> simp [Value.measure, Prod.Lex.toLex_lt_toLex]
  · cases compared
    simp [Value.measure, Prod.Lex.toLex_lt_toLex]
  · cases compared
    simp [Value.measure, Prod.Lex.toLex_lt_toLex]
  · cases compared
    simp [Value.measure, Prod.Lex.toLex_lt_toLex]
  · split at compared
    · cases compared
      simp [Value.measure, Prod.Lex.toLex_lt_toLex]
    · cases compared
  · cases compared

/-- A comparison of two keys that succeeds is the one of their ranks. -/
theorem key_less {a b : SortKey} {less : Bool} (compared : a.less b = .ok less) :
    less = true ↔ rank a < rank b := by
  rw [rank_lt_iff]
  unfold SortKey.less at compared
  split at compared
  · next apart =>
    cases compared
    cases first : a.1 <;> cases second : b.1 <;> simp_all
  · next same =>
    rw [not_not] at same
    split at compared
    · next named =>
      cases compared
      simp [same, named]
    · next named =>
      rw [not_not] at named
      rw [measure_less compared]
      simp only [same, named, lt_irrefl, false_or, true_and]

/-! ## Values of one property -/

/-- A value of a type's property is null only when it is missing, and shaped by the type. -/
theorem typed_of_fits {lib : Stdlib} (calendar : Calendar lib) {prop : ProjectedProperty}
    (scalar : prop.valueType ≠ .json) (fitting : fits lib prop.valueType prop.value = .ok true) :
    ∃ value, propertyValue calendar prop = .ok value ∧ value.Typed prop.valueType := by
  unfold propertyValue
  unfold fits at fitting
  split at fitting
  · next typed given =>
    rw [typed, given]
    exact ⟨_, rfl, trivial⟩
  · next typed given =>
    rw [typed, given]
    exact ⟨_, rfl, trivial⟩
  · next typed given =>
    rw [typed, given]
    exact ⟨_, rfl, trivial⟩
  · next typed given =>
    rw [typed, given]
    exact ⟨_, rfl, trivial⟩
  · next typed given =>
    rw [typed, given]
    exact ⟨_, rfl, trivial⟩
  · next text typed given =>
    rw [typed, given]
    rw [Except.ok.injEq, calendar.takes] at fitting
    obtain ⟨moment, parsed⟩ := Option.isSome_iff_exists.mp fitting
    simp only [rawValue, parsed]
    exact ⟨_, rfl, trivial⟩
  · next typed => exact absurd typed scalar
  · cases fitting

section
variable {lib : Stdlib} (calendar : Calendar lib)

/-- What an object is sorted by, null when its value cannot be had. -/
def valueOf (name : String) (object : ProjectedObject) : Value :=
  (get calendar object name).toOption.getD .null

def orderOf (name : String) (object : ProjectedObject) : Option Measure :=
  (valueOf calendar name object).measure

/-- The objects that have a property called `name` have it with this type. -/
def Declared (name : String) (valueType : ValueType) (objects : List ProjectedObject) : Prop :=
  ∀ object ∈ objects, ∀ prop, property object name = some prop → prop.valueType = valueType

/-- The step does not raise, and arranges the objects by the property. -/
def Respects (name : String) (ascending : Bool) (objects : List ProjectedObject) : Prop :=
  ∃ sorted, sortBy calendar objects name ascending = .ok sorted ∧
    if ascending then Arranged (orderOf calendar name) objects sorted
    else @Arranged ProjectedObject Measureᵒᵈ _ _ (orderOf calendar name) objects sorted

variable {calendar} {name : String} {valueType : ValueType} {objects : List ProjectedObject}

theorem get_typed (snapshot : CheckedSnapshot lib) (scalar : valueType ≠ .json)
    (inside : ∀ object ∈ objects, object ∈ snapshot.snapshot.objects)
    (declared : Declared name valueType objects) :
    ∀ object ∈ objects, get calendar object name = .ok (valueOf calendar name object) ∧
      (valueOf calendar name object).Typed valueType := by
  intro object member
  have known : ∃ value, get calendar object name = .ok value ∧ value.Typed valueType := by
    unfold get
    cases found : property object name with
    | none => exact ⟨.null, rfl, by cases valueType <;> trivial⟩
    | some prop =>
      have typed := declared object member prop found
      rw [← typed] at scalar ⊢
      exact typed_of_fits calendar scalar
        (snapshot.typed object (inside object member) prop (List.mem_of_find?_eq_some found))
  obtain ⟨value, got, typed⟩ := known
  rw [valueOf, got]
  exact ⟨rfl, typed⟩

/-- The objects with their keys. -/
def keyed (calendar : Calendar lib) (name : String) (objects : List ProjectedObject) :
    List (SortKey × ProjectedObject) :=
  objects.map fun object => (sortKey (valueOf calendar name object), object)

/-- The rank of an object in the sort. -/
def rankOf (calendar : Calendar lib) (name : String) (object : ProjectedObject) :
    Bool ×ₗ String ×ₗ Measure :=
  rank (sortKey (valueOf calendar name object))

variable {ascending : Bool}

theorem sortBy_eq_sortWith
    (got : ∀ object ∈ objects, get calendar object name = .ok (valueOf calendar name object)) :
    sortBy calendar objects name ascending =
      (sortWith (fun a b => a.1.less b.1) (!ascending) (keyed calendar name objects)).map
        fun sorted => sorted.map Prod.snd := by
  have keys : objects.mapM (fun object => do return (sortKey (← get calendar object name), object)) =
      Except.ok (ε := QueryError) (keyed calendar name objects) := by
    exact mapM_ok fun object member => by rw [got object member]; rfl
  rw [sortBy, keys]
  change (sortWith (fun a b => a.1.less b.1) (!ascending) (keyed calendar name objects) >>= fun sorted =>
    pure (sorted.map Prod.snd)) = _
  cases sortWith (fun a b => a.1.less b.1) (!ascending) (keyed calendar name objects) <;> rfl

variable {sorted : List ProjectedObject}

/-- A step that does not raise sorts by rank, or by its dual. -/
theorem sortBy_eq (got : ∀ object ∈ objects, get calendar object name = .ok (valueOf calendar name object))
    (ran : sortBy calendar objects name ascending = .ok sorted) :
    sorted = if ascending then sortedOn (rankOf calendar name) objects
      else sortedOn (fun object => OrderDual.toDual (rankOf calendar name object)) objects := by
  rw [sortBy_eq_sortWith got] at ran
  obtain ⟨pairs, inner, rfl⟩ := Except.map_ok_iff.mp ran
  have pairs_eq : pairs = if !ascending then
      sortedOn (fun pair : SortKey × ProjectedObject => OrderDual.toDual (rank pair.1)) (keyed calendar name objects)
    else sortedOn (fun pair => rank pair.1) (keyed calendar name objects) :=
    sortWith_eq (fun _ _ _ _ _ compared => key_less compared) inner
  rw [pairs_eq]
  -- the keys go, and the order stays
  have undone : (keyed calendar name objects).map Prod.snd = objects := by
    rw [keyed, List.map_map]
    exact List.map_id _
  have ranked : ∀ pair ∈ keyed calendar name objects, rank pair.1 = rankOf calendar name pair.2 := by
    intro pair member
    obtain ⟨object, _, rfl⟩ := List.mem_map.mp member
    rfl
  cases ascending with
  | true =>
    refine (map_sortedOn ranked).trans ?_
    rw [undone]
    rfl
  | false =>
    have moved : ((sortedOn fun pair : SortKey × ProjectedObject => OrderDual.toDual (rank pair.1))
          (keyed calendar name objects)).map Prod.snd =
        sortedOn (fun object => OrderDual.toDual (rankOf calendar name object))
          ((keyed calendar name objects).map Prod.snd) :=
      map_sortedOn fun pair member => congrArg OrderDual.toDual (ranked pair member)
    rw [undone] at moved
    exact moved

/-- Moments can be compared when both are aware or both are naive. -/
def Comparable (v w : Value) : Prop :=
  ∀ a b, v = .datetime a → w = .datetime b → a.aware = b.aware

theorem Comparable.refl (v : Value) : Comparable v v := by
  intro a b first second
  rw [first, Value.datetime.injEq] at second
  rw [second]

variable {v w : Value}

theorem Comparable.symm (comparable : Comparable v w) : Comparable w v :=
  fun a b first second => (comparable b a second first).symm

/-- The values a sort compares, one of a key: a missing value is replaced by an empty text. -/
theorem comparable_key : Comparable (sortKey v).2.2 (sortKey w).2.2 ↔ Comparable v w := by
  have moment : ∀ (v : Value) (a : Datetime), (sortKey v).2.2 = .datetime a ↔ v = .datetime a := by
    intro v a
    by_cases missing : v = .null <;> simp [sortKey, missing]
  unfold Comparable
  simp only [moment]

theorem key_less_fails (apart : ¬ Comparable v w) (less : Bool) :
    (sortKey v).less (sortKey w) ≠ .ok less := by
  unfold Comparable at apart
  push Not at apart
  obtain ⟨a, b, rfl, rfl, different⟩ := apart
  simp [SortKey.less, sortKey, Value.typeName, Value.less, different]

theorem key_less_ends (typed : v.Typed valueType) (typedToo : w.Typed valueType) (comparable : Comparable v w) :
    ∃ less, (sortKey v).less (sortKey w) = .ok less := by
  unfold SortKey.less
  split
  · exact ⟨_, rfl⟩
  · next same =>
    split
    · exact ⟨_, rfl⟩
    · next named =>
      rw [not_not] at same named
      cases v <;> cases w <;> simp only [sortKey, Value.typeName] at same named
      case datetime.datetime a b => exact ⟨a.instant < b.instant, if_pos (comparable a b rfl rfl)⟩
      case list.list => cases valueType <;> exact typed.elim
      case dict.dict => cases valueType <;> exact typed.elim
      case null.null | bool.bool | int.int | float.float | str.str => exact ⟨_, rfl⟩
      all_goals exact absurd named (by decide)

/-- A moment that cannot be compared with another is like all that come before it. -/
theorem comparable_below {u : Value} (typed : u.Typed valueType) (typedToo : v.Typed valueType)
    (least : rank (sortKey u) ≤ rank (sortKey v)) (paired : Comparable u v) (apart : ¬ Comparable v w) :
    ¬ Comparable u w := by
  unfold Comparable at apart
  push Not at apart
  obtain ⟨a, b, rfl, rfl, different⟩ := apart
  cases u with
  | null =>
    have missing : rank (sortKey (.datetime a)) < rank (sortKey .null) :=
      rank_lt_iff.mpr (Or.inl (show false < true by decide))
    exact absurd missing (not_lt.mpr least)
  | datetime c =>
    intro comparable
    exact different ((paired c a rfl rfl).symm.trans (comparable c b rfl rfl))
  | bool _ | int _ | float _ | str _ | list _ | dict _ =>
    cases valueType <;> first | exact typed.elim | exact typedToo.elim

/-- A step raises exactly when an aware and a naive moment meet. -/
theorem sortBy_ends_iff {ascending : Bool}
    (values : ∀ object ∈ objects, get calendar object name = .ok (valueOf calendar name object) ∧
      (valueOf calendar name object).Typed valueType) :
    (∃ sorted, sortBy calendar objects name ascending = .ok sorted) ↔
      ∀ a ∈ objects, ∀ b ∈ objects, Comparable (valueOf calendar name a) (valueOf calendar name b) := by
  rw [sortBy_eq_sortWith fun object member => (values object member).1]
  have compares : ∀ a ∈ keyed calendar name objects, ∀ b ∈ keyed calendar name objects, ∀ less,
      a.1.less b.1 = .ok less → (less = true ↔ rank a.1 < rank b.1) :=
    fun _ _ _ _ _ compared => key_less compared
  have from_ : ∀ pair ∈ keyed calendar name objects, ∃ object ∈ objects,
      pair = (sortKey (valueOf calendar name object), object) := by
    intro pair member
    obtain ⟨object, listed, rfl⟩ := List.mem_map.mp member
    exact ⟨object, listed, rfl⟩
  constructor
  · rintro ⟨sorted, ran⟩ a here b there
    obtain ⟨pairs, inner, _⟩ := Except.map_ok_iff.mp ran
    have all := @sortWith_related _ _ _ _ _ _ (fun p q : SortKey × ProjectedObject => Comparable p.1.2.2 q.1.2.2)
      (fun p => Comparable.refl _) (fun p q => Comparable.symm) _ _ _ compares ?_ ?_ inner
    · exact comparable_key.mp (all _ (List.mem_map_of_mem here) _ (List.mem_map_of_mem there))
    · intro p here q there apart less
      obtain ⟨a, _, rfl⟩ := from_ p here
      obtain ⟨b, _, rfl⟩ := from_ q there
      exact key_less_fails (fun comparable => apart (comparable_key.mpr comparable)) less
    · intro p here q there r third least paired apart
      obtain ⟨a, listed, rfl⟩ := from_ p here
      obtain ⟨b, listedToo, rfl⟩ := from_ q there
      obtain ⟨c, _, rfl⟩ := from_ r third
      rw [comparable_key] at paired apart ⊢
      exact comparable_below (values a listed).2 (values b listedToo).2 least paired apart
  · intro comparable
    obtain ⟨pairs, ran⟩ := @sortWith_ends _ _ _ _ _ _ (!ascending) _ compares fun p here q there => by
      obtain ⟨a, listed, rfl⟩ := from_ p here
      obtain ⟨b, listedToo, rfl⟩ := from_ q there
      exact key_less_ends (values a listed).2 (values b listedToo).2 (comparable a listed b listedToo)
    exact ⟨pairs.map Prod.snd, Except.map_ok_iff.mpr ⟨pairs, ran, rfl⟩⟩

theorem orderly_swap : Orderly false v w ↔ Orderly true w v := by
  cases v <;> cases w <;> simp [Orderly, eq_comm]

theorem ranks_of_same_type {m n : Measure} (same : v.typeName = w.typeName) (first : v.measure = some m)
    (second : w.measure = some n) :
    (rank (sortKey v) ≤ rank (sortKey w) → m ≤ n) ∧ (rank (sortKey w) < rank (sortKey v) → n < m) := by
  have present : ∀ {v : Value} {m : Measure}, v.measure = some m → sortKey v = (false, v.typeName, v) := by
    intro v m measured
    cases v <;> first | rfl | cases measured
  rw [← not_lt, rank_lt_iff, present first, present second]
  simp only [same, first, second, Option.getD_some, lt_irrefl, false_or, true_and, not_lt]
  exact ⟨id, id⟩

/-- Orderly values are comparable, and their keys agree with their order. -/
theorem orderly_iff (typed : v.Typed valueType) (typedToo : w.Typed valueType) :
    Orderly true v w ↔ Comparable v w ∧ ∀ m n, v.measure = some m → w.measure = some n →
      (rank (sortKey v) ≤ rank (sortKey w) → m ≤ n) ∧ (rank (sortKey w) < rank (sortKey v) → n < m) := by
  have floats : ∀ bits whole, rank (sortKey (.float bits)) < rank (sortKey (.int whole)) :=
    fun _ _ => rank_lt_iff.mpr (Or.inr ⟨rfl, Or.inl (show "float" < "int" by decide)⟩)
  by_cases same : v.typeName = w.typeName
  · have agree : Orderly true v w ↔ Comparable v w := by
      cases v <;> cases w <;> simp_all [Orderly, Comparable, Value.typeName]
    rw [agree]
    exact ⟨fun comparable => ⟨comparable, fun _ _ => ranks_of_same_type same⟩, And.left⟩
  · cases v <;> cases w
    case float.int bits whole =>
      have before := floats bits whole
      simp [Orderly, Comparable, Value.measure, before.le, not_lt.mpr before.le, Prod.Lex.toLex_le_toLex]
      exact le_iff_lt_or_eq
    case int.float whole bits =>
      have before := floats bits whole
      simp [Orderly, Comparable, Value.measure, before, not_le.mpr before, Prod.Lex.toLex_lt_toLex]
    all_goals first
      | simp [Orderly, Comparable, Value.measure]; done
      | cases valueType <;> first | exact typed.elim | exact typedToo.elim
      | exact absurd rfl same

theorem measure_eq_none (typed : v.Typed valueType) : v.measure = none ↔ v = .null := by
  cases v
  case list | dict => cases valueType <;> exact typed.elim
  all_goals simp [Value.measure]

/-- Missing values come after all others. -/
theorem rank_lt_null (present : v ≠ .null) : rank (sortKey v) < rank (sortKey .null) :=
  rank_lt_iff.mpr (Or.inl (by simp [sortKey, present]))

/-- Orderly values: all of them can be compared, and every two objects agree. -/
theorem pairwise_orderly {agree : ProjectedObject → ProjectedObject → Prop}
    (each : ∀ a ∈ objects, ∀ b ∈ objects,
      Orderly ascending (valueOf calendar name a) (valueOf calendar name b) ↔
        Comparable (valueOf calendar name a) (valueOf calendar name b) ∧ agree a b) :
    objects.Pairwise (fun a b => Orderly ascending (valueOf calendar name a) (valueOf calendar name b)) ↔
      (∀ a ∈ objects, ∀ b ∈ objects, Comparable (valueOf calendar name a) (valueOf calendar name b)) ∧
        objects.Pairwise agree := by
  rw [List.Pairwise.iff_of_mem fun here there => each _ here _ there, List.pairwise_and_iff]
  have symmetric : Std.Symm fun a b : ProjectedObject =>
      Comparable (valueOf calendar name a) (valueOf calendar name b) := ⟨fun _ _ => Comparable.symm⟩
  refine and_congr_left fun _ => ⟨fun pairs a here b there => ?_, fun all => ?_⟩
  · exact @List.Pairwise.forall_of_forall _ _ _ symmetric (fun _ _ => Comparable.refl _) pairs a here b there
  · exact List.pairwise_of_forall_mem_list all

/-- On typed values a step is by the property exactly when the values are orderly. -/
theorem respects_iff
    (values : ∀ object ∈ objects, get calendar object name = .ok (valueOf calendar name object) ∧
      (valueOf calendar name object).Typed valueType) :
    Respects calendar name ascending objects ↔ objects.Pairwise fun a b =>
      Orderly ascending (valueOf calendar name a) (valueOf calendar name b) := by
  have got := fun object member => (values object member).1
  have typed := fun object member => (values object member).2
  have missing : ∀ object ∈ objects, orderOf calendar name object = none ↔
      valueOf calendar name object = .null := fun object member => measure_eq_none (typed object member)
  have alike : ∀ a ∈ objects, ∀ b ∈ objects, orderOf calendar name a = none →
      orderOf calendar name b = none → rankOf calendar name a = rankOf calendar name b := by
    intro a here b there first second
    rw [rankOf, rankOf, (missing a here).mp first, (missing b there).mp second]
  have apart : ∀ a ∈ objects, ∀ b ∈ objects, (orderOf calendar name a).isSome →
      orderOf calendar name b = none → rankOf calendar name a < rankOf calendar name b := by
    intro a here b there first second
    rw [rankOf, rankOf, (missing b there).mp second]
    refine rank_lt_null fun null => ?_
    rw [(missing a here).mpr null] at first
    cases first
  have ends := @sortBy_ends_iff lib calendar name valueType objects ascending values
  -- a step that ends does so with one list
  have settled : ∀ {expected : List ProjectedObject} {P : List ProjectedObject → Prop},
      (∀ sorted, sortBy calendar objects name ascending = .ok sorted → sorted = expected) →
      ((∃ sorted, sortBy calendar objects name ascending = .ok sorted ∧ P sorted) ↔
        (∀ a ∈ objects, ∀ b ∈ objects, Comparable (valueOf calendar name a) (valueOf calendar name b)) ∧
          P expected) := by
    intro expected P same
    rw [← ends]
    constructor
    · rintro ⟨sorted, ran, done⟩
      exact ⟨⟨sorted, ran⟩, same sorted ran ▸ done⟩
    · rintro ⟨⟨sorted, ran⟩, done⟩
      exact ⟨sorted, ran, same sorted ran ▸ done⟩
  unfold Respects
  rw [settled fun sorted ran => sortBy_eq got ran]
  cases ascending with
  | true =>
    simp only [if_true]
    rw [arranged_iff alike (Or.inl apart)]
    exact (pairwise_orderly fun a here b there => orderly_iff (typed a here) (typed b there)).symm
  | false =>
    simp only [Bool.false_eq_true, if_false]
    have dual := @arranged_iff ProjectedObject (Bool ×ₗ String ×ₗ Measure)ᵒᵈ Measureᵒᵈ _ _
      (fun object => OrderDual.toDual (rankOf calendar name object)) (orderOf calendar name) objects
      (fun a here b there first second => congrArg OrderDual.toDual (alike a here b there first second))
      (Or.inr apart)
    rw [dual]
    refine (pairwise_orderly fun a here b there => ?_).symm
    rw [orderly_swap, orderly_iff (typed b there) (typed a here)]
    refine and_congr ⟨Comparable.symm, Comparable.symm⟩ ⟨?_, ?_⟩
    · exact fun agree m n first second => agree n m second first
    · exact fun agree m n first second => agree n m second first

/-! ## Objects of the snapshot -/

variable {known : List ProjectedObject}

/-- A loop that only takes items of `known` ends with such items. -/
theorem foldlM_inside {A : Type} {step : List ProjectedObject → A → Except QueryError (List ProjectedObject)}
    {items : List A} {start final : List ProjectedObject} (begins : ∀ object ∈ start, object ∈ known)
    (keeps : ∀ item ∈ items, ∀ before after, (∀ object ∈ before, object ∈ known) →
      step before item = .ok after → ∀ object ∈ after, object ∈ known)
    (ran : items.foldlM step start = .ok final) : ∀ object ∈ final, object ∈ known := by
  have all := @foldlM_keeps QueryError (List ProjectedObject) A step
    (fun (left : List A) objects => (∀ item ∈ left, item ∈ items) ∧ ∀ object ∈ objects, object ∈ known)
    (fun item rest before after held one =>
      ⟨fun other member => held.1 other (List.mem_cons_of_mem _ member),
        keeps item (held.1 item List.mem_cons_self) before after held.2 one⟩)
    items start final ⟨fun _ member => member, begins⟩ ran
  exact all.2

theorem mem_of_sortBy (ran : sortBy calendar objects name ascending = .ok sorted) :
    ∀ object ∈ sorted, object ∈ objects := by
  obtain ⟨pairs, keys, more⟩ := Except.bind_ok_iff.mp ran
  obtain ⟨arranged, inner, result⟩ := Except.bind_ok_iff.mp more
  cases result
  have decorated : pairs.map Prod.snd = objects := by
    clear ran more inner
    induction objects generalizing pairs with
    | nil =>
      cases keys
      rfl
    | cons first rest ih =>
      rw [List.mapM_cons] at keys
      obtain ⟨pair, made, more⟩ := Except.bind_ok_iff.mp keys
      obtain ⟨others, later, result⟩ := Except.bind_ok_iff.mp more
      cases result
      obtain ⟨value, _, same⟩ := Except.bind_ok_iff.mp made
      cases same
      rw [List.map_cons, ih others later]
  intro object member
  rw [← decorated]
  exact ((sortWith_perm inner).map Prod.snd).mem_iff.mp member

variable {snapshot : ProjectionSnapshot} {neighbors : List ProjectedObject}

theorem findNeighbors_inside {objectId : Uuid} {linkType : String} {outgoing : Bool}
    (ran : findNeighbors snapshot objectId linkType outgoing = .ok neighbors) :
    ∀ object ∈ neighbors, object ∈ snapshot.objects := by
  unfold findNeighbors at ran
  generalize (snapshot.links.filterMap _) = ids at ran
  induction ids generalizing neighbors with
  | nil =>
    cases ran
    nofun
  | cons id rest ih =>
    rw [List.mapM_cons] at ran
    obtain ⟨first, found, more⟩ := Except.bind_ok_iff.mp ran
    obtain ⟨others, later, result⟩ := Except.bind_ok_iff.mp more
    cases result
    intro object member
    rcases List.mem_cons.mp member with rfl | member
    · cases located : getObject snapshot id with
      | none =>
        rw [located] at found
        cases found
      | some known =>
        rw [located] at found
        cases found
        exact List.mem_of_find?_eq_some located
    · exact ih later object member

theorem addNeighbors_inside {result : List ProjectedObject} (here : ∀ object ∈ result, object ∈ known)
    (there : ∀ object ∈ neighbors, object ∈ known) :
    ∀ object ∈ addNeighbors result neighbors, object ∈ known := by
  unfold addNeighbors
  induction neighbors generalizing result with
  | nil => exact here
  | cons first rest ih =>
    refine ih ?_ fun object member => there object (List.mem_cons_of_mem _ member)
    dsimp only
    split
    · exact here
    · exact forall_mem_snoc here (there first List.mem_cons_self)

/-- Every step keeps to the objects of the snapshot. -/
theorem runStep_inside {step : QueryStep} {next : List ProjectedObject}
    (inside : ∀ object ∈ objects, object ∈ snapshot.objects)
    (ran : runStep calendar snapshot objects step = .ok next) :
    ∀ object ∈ next, object ∈ snapshot.objects := by
  cases step with
  | startFromIds objectIds =>
    cases ran
    intro object member
    obtain ⟨id, _, found⟩ := List.mem_filterMap.mp member
    exact List.mem_of_find?_eq_some found
  | startFromType objectType =>
    cases ran
    exact fun object member => (List.mem_filter.mp member).1
  | startAll =>
    cases ran
    exact fun _ member => member
  | traverse linkType outgoing =>
    refine foldlM_inside (fun _ member => absurd member List.not_mem_nil) ?_ ran
    intro object _ before after held one
    obtain ⟨neighbors, found, rfl⟩ := Except.map_ok_iff.mp one
    exact addNeighbors_inside held (findNeighbors_inside found)
  | propertyFilter propertyName operator predicate =>
    simp only [runStep, filterByProperty] at ran
    split at ran
    · cases ran
    · refine foldlM_inside (fun _ member => absurd member List.not_mem_nil) ?_ ran
      intro object listed before after held one
      obtain ⟨value, _, more⟩ := Except.bind_ok_iff.mp one
      obtain ⟨keep, _, more⟩ := Except.bind_ok_iff.mp more
      split at more
      · cases more
        intro other member
        rcases List.mem_append.mp member with old | new
        · exact held other old
        · rw [List.mem_singleton.mp new]
          exact inside object listed
      · cases more
        exact held
  | objectTypeFilter objectType =>
    cases ran
    exact fun object member => inside object (List.mem_filter.mp member).1
  | limit count =>
    cases ran
    exact fun object member => inside object (List.mem_of_mem_take member)
  | offset count =>
    cases ran
    exact fun object member => inside object (List.mem_of_mem_drop member)
  | sortBy propertyName ascending =>
    exact fun object member => inside object (mem_of_sortBy ran object member)

theorem runSteps_inside {steps : List QueryStep} (ran : runSteps calendar snapshot steps = .ok objects) :
    ∀ object ∈ objects, object ∈ snapshot.objects :=
  foldlM_inside (fun _ member => absurd member List.not_mem_nil)
    (fun _ _ _ _ held one => runStep_inside held one) ran

end

/-- A step that sorts by a property arranges the objects a query has come to by the property,
in every run, exactly when no float of it would pass an integer the wrong way and its moments
are all aware or all naive. -/
theorem sortBy_respects_iff {lib : Stdlib} (calendar : Calendar lib) (snapshot : CheckedSnapshot lib)
    {steps : List QueryStep} {objects : List ProjectedObject}
    (ran : runSteps calendar snapshot.snapshot steps = .ok objects) {name : String}
    {valueType : ValueType} (scalar : valueType ≠ .json) (declared : Declared name valueType objects)
    (ascending : Bool) :
    Respects calendar name ascending objects ↔ objects.Pairwise fun a b =>
      Orderly ascending (valueOf calendar name a) (valueOf calendar name b) :=
  respects_iff (get_typed snapshot scalar (runSteps_inside ran) declared)

/-! ## Integers and floats -/

/-- A library that no number comes to. -/
def plainStdlib : Stdlib where
  fromisoformat _ := false
  identityText identity := identity.packageId
  numberText _ := ""
  contentDigest _ := ⟨"0000000000000000000000000000000000000000000000000000000000000000", by decide⟩

def plainCalendar : Calendar plainStdlib where
  fromisoformat _ := none
  takes _ := rfl

/-- Three probes: one reads the integer 1, one the float 2.5 and one the float 0.5. -/
def probes : ProjectionSnapshot :=
  let identity : SchemaIdentity := ⟨"test.probes", "urn:test:probes", "1.0.0"⟩
  let reading : CompiledPropertyDefinition :=
    ⟨"reading", some "probe.reading", some .ontologyOwned, .number, false, false, false, "", .null⟩
  let probe (id : Uuid) (value : Json) : ProjectedObject :=
    ⟨id, "Probe", .fact ⟨0⟩,
      [⟨"reading", .number, value, 0, some 0, none, "test", .operational (.fact ⟨0⟩)⟩]⟩
  { schema :=
      ⟨"test.probes", "urn:test:probes", "1.0.0",
        [⟨"Probe", "probe", .ontologyOwned, [reading], [], [], false, none, "", none⟩], [], [], []⟩
    state := ⟨identity, 1, ⟨identity, [], 0, 0, 0, none⟩, 0⟩
    factIds := [0]
    objects := [probe 1 (.int 1), probe 2 (.float 0x4004000000000000), probe 3 (.float 0x3fe0000000000000)]
    links := [] }

def checkedProbes : CheckedSnapshot plainStdlib where
  snapshot := probes
  typed := by decide +kernel

theorem sortBy_respects_iff_probes :
    ∃ objects, runSteps plainCalendar probes [.startFromIds [1, 3]] = .ok objects ∧
      Respects plainCalendar "reading" false objects := by
  have ran : runSteps plainCalendar checkedProbes.snapshot [.startFromIds [1, 3]] =
      .ok [probes.objects[0], probes.objects[2]] := by decide +kernel
  have declared : Declared "reading" .number [probes.objects[0], probes.objects[2]] := by
    intro object member prop found
    rcases List.mem_pair.mp member with rfl | rfl <;> (cases found; rfl)
  refine ⟨_, ran, (sortBy_respects_iff plainCalendar checkedProbes ran (by decide) declared false).mpr ?_⟩
  have values : valueOf plainCalendar "reading" probes.objects[0] = .int 1 ∧
      valueOf plainCalendar "reading" probes.objects[2] = .float 0x3fe0000000000000 := by decide +kernel
  have below : floatValue 0x3fe0000000000000 ≤ (1 : ℤ) := by decide +kernel
  simp only [List.pairwise_cons, List.mem_singleton, forall_eq, values.1, values.2]
  exact ⟨below, nofun, List.Pairwise.nil⟩

/-- From the integer 1 and the float 2.5 the step makes the descending order. -/
theorem sortBy_disorders_probes :
    ∃ objects sorted, runSteps plainCalendar probes [.startFromIds [1, 2]] = .ok objects ∧
      runSteps plainCalendar probes [.startFromIds [1, 2], .sortBy "reading" true] = .ok sorted ∧
      sorted.filterMap (orderOf plainCalendar "reading") = [toLex (5 / 2, ""), toLex (1, "")] ∧
      ¬ Respects plainCalendar "reading" true objects := by
  have ran : sortBy plainCalendar [probes.objects[0], probes.objects[1]] "reading" true =
      .ok [probes.objects[1], probes.objects[0]] := by decide
  have readings : [probes.objects[1], probes.objects[0]].filterMap (orderOf plainCalendar "reading") =
      [toLex (5 / 2, ""), toLex (1, "")] := by decide +kernel
  refine ⟨[probes.objects[0], probes.objects[1]], [probes.objects[1], probes.objects[0]], by decide,
    by decide, readings, ?_⟩
  rintro ⟨sorted, same, arranged⟩
  rw [ran, Except.ok.injEq] at same
  subst same
  have ordered := arranged.ordered
  rw [readings] at ordered
  exact absurd ordered (by decide +kernel)

end Loushang.Query
