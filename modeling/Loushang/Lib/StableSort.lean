import Loushang.Lib.Folds
import Loushang.Lib.Sorting
import Mathlib.Data.List.Permutation
import Mathlib.Order.OrderDual

/-!
# Stable sorts and the order they are meant for

A sort by comparisons that may fail, as `list.sort` makes them, and when a sort by keys is
also a stable sort by values: items that share an end of the list, and keys that agree with
the values of the items they move past each other.
-/
namespace Loushang.Lib

section SortM
variable {A E : Type} (lt : A → A → Except E Bool)

/-- Insertion before the first item that is not less. -/
def insertM (item : A) : List A → Except E (List A)
  | [] => .ok [item]
  | first :: rest => do
    if ← lt first item then return first :: (← insertM item rest)
    else return item :: first :: rest

/-- `list.sort`: stable, by `<` alone, and failing with a comparison that fails. -/
def sortM : List A → Except E (List A)
  | [] => .ok []
  | item :: rest => do insertM lt item (← sortM rest)

/-- `list.sort(reverse=...)`. -/
def sortWith (reverse : Bool) (items : List A) : Except E (List A) :=
  if reverse then List.reverse <$> sortM lt items.reverse else sortM lt items

end SortM

section Perm
variable {A E : Type} {lt : A → A → Except E Bool}

variable {items sorted : List A}

theorem insertM_perm {item : A} (ran : insertM lt item items = .ok sorted) : sorted.Perm (item :: items) := by
  induction items generalizing sorted with
  | nil =>
    cases ran
    exact List.Perm.refl _
  | cons first rest ih =>
    rw [insertM] at ran
    obtain ⟨less, _, more⟩ := Except.bind_ok_iff.mp ran
    split at more
    · obtain ⟨others, inserted, result⟩ := Except.bind_ok_iff.mp more
      cases result
      exact ((ih inserted).cons first).trans (List.Perm.swap item first rest)
    · cases more
      exact List.Perm.refl _

theorem sortM_perm (ran : sortM lt items = .ok sorted) : sorted.Perm items := by
  induction items generalizing sorted with
  | nil =>
    cases ran
    exact List.Perm.refl _
  | cons item rest ih =>
    rw [sortM] at ran
    obtain ⟨others, first, inserted⟩ := Except.bind_ok_iff.mp ran
    exact (insertM_perm inserted).trans ((ih first).cons item)

theorem sortWith_perm {reverse : Bool} (ran : sortWith lt reverse items = .ok sorted) :
    sorted.Perm items := by
  cases reverse with
  | false => exact sortM_perm ran
  | true =>
    obtain ⟨backwards, inner, rfl⟩ := Except.map_ok_iff.mp ran
    exact (List.reverse_perm _).trans ((sortM_perm inner).trans (List.reverse_perm _))

end Perm

section Stability
variable {A K : Type} [LinearOrder K] {key : A → K}

theorem filter_key_sortedOn (wanted : K) (items : List A) :
    (sortedOn key items).filter (fun item => key item = wanted) =
      items.filter fun item => key item = wanted := by
  have inserted : ∀ (item : A) (others : List A),
      (others.orderedInsert (fun a b => key a ≤ key b) item).filter (fun other => key other = wanted) =
        (item :: others).filter fun other => key other = wanted := by
    intro item others
    induction others with
    | nil => rfl
    | cons first rest ih =>
      rw [List.orderedInsert_cons]
      split
      · rfl
      · next before =>
        rw [List.filter_cons, ih]
        by_cases here : key first = wanted
        · have other : key item ≠ wanted := fun same => before (by rw [same, here])
          simp [here, other]
        · by_cases there : key item = wanted <;> simp [here, there]
  induction items with
  | nil => rfl
  | cons item rest ih =>
    rw [sortedOn, List.insertionSort_cons, inserted, List.filter_cons, List.filter_cons, ← sortedOn, ih]

/-- An ordered list is determined by its items of each key. -/
theorem eq_of_filter_key {items others : List A} (ordered : items.Pairwise fun a b => key a ≤ key b)
    (orderedToo : others.Pairwise fun a b => key a ≤ key b)
    (same : ∀ wanted, items.filter (fun item => key item = wanted) =
      others.filter fun item => key item = wanted) : items = others := by
  induction items generalizing others with
  | nil =>
    cases others with
    | nil => rfl
    | cons first rest =>
      have here := same (key first)
      simp at here
  | cons first rest ih =>
    cases others with
    | nil =>
      have here := same (key first)
      simp at here
    | cons other more =>
      have holds : ∀ item, item ∈ first :: rest ↔ item ∈ other :: more := by
        intro item
        have here := same (key item)
        have member : item ∈ (first :: rest).filter (fun x => key x = key item) ↔
            item ∈ (other :: more).filter fun x => key x = key item := by rw [here]
        simpa only [List.mem_filter, decide_true, and_true] using member
      have least : ∀ {x y : A} {tail : List A}, (x :: tail).Pairwise (fun a b => key a ≤ key b) →
          y ∈ x :: tail → key x ≤ key y := by
        intro x y tail sorted member
        rcases List.mem_cons.mp member with rfl | later
        · exact le_rfl
        · exact (List.pairwise_cons.mp sorted).1 y later
      have tied : key first = key other :=
        le_antisymm (least ordered ((holds other).mpr List.mem_cons_self))
          (least orderedToo ((holds first).mp List.mem_cons_self))
      have heads := same (key first)
      rw [List.filter_cons_of_pos (by simp), List.filter_cons_of_pos (by simp [tied]),
        List.cons.injEq] at heads
      obtain ⟨rfl, _⟩ := heads
      congr 1
      refine ih (List.pairwise_cons.mp ordered).2 (List.pairwise_cons.mp orderedToo).2 fun wanted => ?_
      have here := same wanted
      rw [List.filter_cons, List.filter_cons] at here
      split at here
      · exact (List.cons.inj here).2
      · exact here

theorem filter_sortedOn (p : A → Bool) (items : List A) :
    (sortedOn key items).filter p = sortedOn key (items.filter p) := by
  apply eq_of_filter_key ((pairwise_sortedOn key items).filter p) (pairwise_sortedOn key _)
  intro wanted
  rw [filter_key_sortedOn, List.filter_filter, List.filter_filter]
  have swapped : (fun item => decide (key item = wanted) && p item) =
      fun item => p item && decide (key item = wanted) := funext fun item => Bool.and_comm _ _
  rw [swapped, ← List.filter_filter, filter_key_sortedOn, List.filter_filter]

/-- A map under which the keys stay the same keeps the order. -/
theorem map_sortedOn {B : Type} {f : A → B} {other : B → K} {items : List A}
    (same : ∀ item ∈ items, key item = other (f item)) :
    (sortedOn key items).map f = sortedOn other (items.map f) := by
  unfold sortedOn
  exact List.map_insertionSort _ _ f items fun a here b there => by rw [same a here, same b there]

/-- Sorting from the other end is sorting by the dual order. -/
theorem reverse_sortedOn_reverse (items : List A) :
    (sortedOn key items.reverse).reverse = sortedOn (fun item => OrderDual.toDual (key item)) items := by
  refine @eq_of_filter_key A Kᵒᵈ _ (fun item => OrderDual.toDual (key item)) _ _ ?_ (pairwise_sortedOn _ _)
    fun wanted => ?_
  · rw [List.pairwise_reverse]
    exact pairwise_sortedOn key items.reverse
  · rw [filter_key_sortedOn]
    have here := @filter_key_sortedOn A K _ key (OrderDual.ofDual wanted) items.reverse
    rw [List.filter_reverse] at here
    rw [List.filter_reverse]
    exact (congrArg List.reverse here).trans (List.reverse_reverse _)

end Stability

section Comparisons
variable {A E K : Type} [LinearOrder K] {lt : A → A → Except E Bool} {key : A → K}

variable {items sorted : List A}

theorem insertM_eq {item : A}
    (compares : ∀ other ∈ items, ∀ less, lt other item = .ok less → (less = true ↔ key other < key item))
    (ran : insertM lt item items = .ok sorted) :
    sorted = items.orderedInsert (fun a b => key a ≤ key b) item := by
  induction items generalizing sorted with
  | nil =>
    cases ran
    rfl
  | cons first rest ih =>
    rw [insertM] at ran
    obtain ⟨less, compared, more⟩ := Except.bind_ok_iff.mp ran
    have meaning := compares first List.mem_cons_self less compared
    rw [List.orderedInsert_cons]
    split at more
    · next before =>
      obtain ⟨others, inserted, result⟩ := Except.bind_ok_iff.mp more
      cases result
      rw [if_neg (not_le.mpr (meaning.mp before)),
        ih (fun other member => compares other (List.mem_cons_of_mem _ member)) inserted]
    · next after =>
      cases more
      rw [if_pos (not_lt.mp fun before => after (meaning.mpr before))]

/-- A sort that ends has sorted by the key its comparisons are about. -/
theorem sortM_eq
    (compares : ∀ a ∈ items, ∀ b ∈ items, ∀ less, lt a b = .ok less → (less = true ↔ key a < key b))
    (ran : sortM lt items = .ok sorted) : sorted = sortedOn key items := by
  induction items generalizing sorted with
  | nil =>
    cases ran
    rfl
  | cons item rest ih =>
    rw [sortM] at ran
    obtain ⟨others, first, inserted⟩ := Except.bind_ok_iff.mp ran
    have others_eq := ih (fun a here b there => compares a (List.mem_cons_of_mem _ here) b
      (List.mem_cons_of_mem _ there)) first
    subst others_eq
    rw [sortedOn, List.insertionSort_cons]
    refine insertM_eq (fun other member => ?_) inserted
    exact compares other (List.mem_cons_of_mem _ (mem_sortedOn.mp member)) item List.mem_cons_self

theorem sortWith_eq {reverse : Bool}
    (compares : ∀ a ∈ items, ∀ b ∈ items, ∀ less, lt a b = .ok less → (less = true ↔ key a < key b))
    (ran : sortWith lt reverse items = .ok sorted) :
    sorted = if reverse then sortedOn (fun item => OrderDual.toDual (key item)) items
      else sortedOn key items := by
  unfold sortWith at ran
  cases reverse with
  | false => exact sortM_eq compares ran
  | true =>
    obtain ⟨backwards, inner, rfl⟩ := Except.map_ok_iff.mp ran
    rw [sortM_eq (fun a here b there => compares a (List.mem_reverse.mp here) b (List.mem_reverse.mp there))
      inner]
    exact reverse_sortedOn_reverse items

theorem insertM_ends {item : A} (compared : ∀ other ∈ items, ∃ less, lt other item = .ok less) :
    ∃ sorted, insertM lt item items = .ok sorted := by
  induction items with
  | nil => exact ⟨_, rfl⟩
  | cons first rest ih =>
    obtain ⟨less, known⟩ := compared first List.mem_cons_self
    obtain ⟨sorted, inserted⟩ := ih fun other member => compared other (List.mem_cons_of_mem _ member)
    rw [insertM, known]
    cases less with
    | true => exact ⟨first :: sorted, by rw [inserted]; rfl⟩
    | false => exact ⟨item :: first :: rest, rfl⟩

/-- Where every comparison succeeds the sort ends. -/
theorem sortM_ends {items : List A}
    (compares : ∀ a ∈ items, ∀ b ∈ items, ∀ less, lt a b = .ok less → (less = true ↔ key a < key b))
    (compared : ∀ a ∈ items, ∀ b ∈ items, ∃ less, lt a b = .ok less) :
    ∃ sorted, sortM lt items = .ok sorted := by
  induction items with
  | nil => exact ⟨_, rfl⟩
  | cons item rest ih =>
    obtain ⟨others, first⟩ := ih
      (fun a here b there => compares a (List.mem_cons_of_mem _ here) b (List.mem_cons_of_mem _ there))
      (fun a here b there => compared a (List.mem_cons_of_mem _ here) b (List.mem_cons_of_mem _ there))
    have others_eq := sortM_eq (fun a here b there => compares a (List.mem_cons_of_mem _ here) b
      (List.mem_cons_of_mem _ there)) first
    rw [sortM, first]
    refine insertM_ends fun other member => compared other ?_ item List.mem_cons_self
    exact List.mem_cons_of_mem _ (mem_sortedOn.mp (others_eq ▸ member))

/-- Items that cannot be compared are never sorted together, where nothing below the one of
them can be compared with the other. -/
theorem sortM_related {related : A → A → Prop} (reflexive : ∀ a, related a a)
    (symmetric : ∀ a b, related a b → related b a)
    (compares : ∀ a ∈ items, ∀ b ∈ items, ∀ less, lt a b = .ok less → (less = true ↔ key a < key b))
    (fails : ∀ a ∈ items, ∀ b ∈ items, ¬ related a b → ∀ less, lt a b ≠ .ok less)
    (below : ∀ a ∈ items, ∀ b ∈ items, ∀ c ∈ items, key a ≤ key b → related a b → ¬ related b c →
      ¬ related a c) (ran : sortM lt items = .ok sorted) : ∀ a ∈ items, ∀ b ∈ items, related a b := by
  induction items generalizing sorted with
  | nil => nofun
  | cons item rest ih =>
    rw [sortM] at ran
    obtain ⟨others, first, inserted⟩ := Except.bind_ok_iff.mp ran
    have inside : ∀ {other}, other ∈ rest → other ∈ item :: rest := List.mem_cons_of_mem _
    have earlier := ih (fun a here b there => compares a (inside here) b (inside there))
      (fun a here b there => fails a (inside here) b (inside there))
      (fun a here b there c third => below a (inside here) b (inside there) c (inside third)) first
    have sorted_ := sortM_eq (fun a here b there => compares a (inside here) b (inside there)) first
    have latest : ∀ other ∈ rest, related other item := by
      intro other member
      by_contra unrelated
      have listed : other ∈ sortedOn key rest := mem_sortedOn.mpr member
      rw [← sorted_] at listed
      cases others with
      | nil => cases listed
      | cons head tail =>
        have headIn : head ∈ rest := mem_sortedOn.mp (sorted_ ▸ List.mem_cons_self)
        have least : key head ≤ key other := by
          have ordered := pairwise_sortedOn key rest
          rw [← sorted_] at ordered
          rcases List.mem_cons.mp listed with rfl | later
          · exact le_rfl
          · exact (List.pairwise_cons.mp ordered).1 other later
        -- the item is compared with the head first
        rw [insertM] at inserted
        obtain ⟨less, compared, _⟩ := Except.bind_ok_iff.mp inserted
        refine fails head (inside headIn) item List.mem_cons_self ?_ less compared
        exact below head (inside headIn) other (inside member) item List.mem_cons_self least
          (earlier head headIn other member) unrelated
    intro a here b there
    rcases List.mem_cons.mp here with rfl | before
    · rcases List.mem_cons.mp there with rfl | after
      · exact reflexive _
      · exact symmetric _ _ (latest b after)
    · rcases List.mem_cons.mp there with rfl | after
      · exact latest a before
      · exact earlier a before b after

theorem sortWith_ends {reverse : Bool} {items : List A}
    (compares : ∀ a ∈ items, ∀ b ∈ items, ∀ less, lt a b = .ok less → (less = true ↔ key a < key b))
    (compared : ∀ a ∈ items, ∀ b ∈ items, ∃ less, lt a b = .ok less) :
    ∃ sorted, sortWith lt reverse items = .ok sorted := by
  cases reverse with
  | false => exact sortM_ends compares compared
  | true =>
    obtain ⟨sorted, ran⟩ := @sortM_ends A E K _ lt key items.reverse
      (fun a here b there => compares a (List.mem_reverse.mp here) b (List.mem_reverse.mp there))
      fun a here b there => compared a (List.mem_reverse.mp here) b (List.mem_reverse.mp there)
    exact ⟨sorted.reverse, Except.map_ok_iff.mpr ⟨sorted, ran, rfl⟩⟩

theorem sortWith_related {related : A → A → Prop} (reflexive : ∀ a, related a a)
    (symmetric : ∀ a b, related a b → related b a) {reverse : Bool} {items sorted : List A}
    (compares : ∀ a ∈ items, ∀ b ∈ items, ∀ less, lt a b = .ok less → (less = true ↔ key a < key b))
    (fails : ∀ a ∈ items, ∀ b ∈ items, ¬ related a b → ∀ less, lt a b ≠ .ok less)
    (below : ∀ a ∈ items, ∀ b ∈ items, ∀ c ∈ items, key a ≤ key b → related a b → ¬ related b c →
      ¬ related a c)
    (ran : sortWith lt reverse items = .ok sorted) : ∀ a ∈ items, ∀ b ∈ items, related a b := by
  cases reverse with
  | false => exact sortM_related reflexive symmetric compares fails below ran
  | true =>
    obtain ⟨backwards, inner, _⟩ := Except.map_ok_iff.mp ran
    have inside : ∀ {item}, item ∈ items.reverse → item ∈ items := List.mem_reverse.mp
    have all := sortM_related reflexive symmetric
      (fun a here b there => compares a (inside here) b (inside there))
      (fun a here b there => fails a (inside here) b (inside there))
      (fun a here b there c third => below a (inside here) b (inside there) c (inside third)) inner
    exact fun a here b there => all a (List.mem_reverse.mpr here) b (List.mem_reverse.mpr there)

end Comparisons

/-! ## Arrangements by value -/

/-- The items with a value in its order, those without at one end, equal ones as they were. -/
structure Arranged {A N : Type} [LE N] [DecidableEq N] (value : A → Option N) (items sorted : List A) :
    Prop where
  ordered : (sorted.filterMap value).Pairwise (· ≤ ·)
  together : sorted = sorted.filter (fun item => (value item).isSome) ++
      sorted.filter (fun item => (value item).isNone) ∨
    sorted = sorted.filter (fun item => (value item).isNone) ++
      sorted.filter fun item => (value item).isSome
  stable : ∀ wanted, sorted.filter (fun item => value item = wanted) =
    items.filter fun item => value item = wanted

section Arranged
variable {A K N : Type} [LinearOrder K] [LinearOrder N] {key : A → K} {value : A → Option N}

/-- Items the key puts below all others of a sorted list are in front. -/
theorem split_sorted {p : A → Bool} {sorted : List A} (ordered : sorted.Pairwise fun a b => key a ≤ key b)
    (lower : ∀ a ∈ sorted, ∀ b ∈ sorted, p a = true → p b = false → key a < key b) :
    sorted = sorted.filter p ++ sorted.filter fun item => !p item := by
  induction sorted with
  | nil => rfl
  | cons first rest ih =>
    obtain ⟨least, later⟩ := List.pairwise_cons.mp ordered
    have more := ih later fun a here b there =>
      lower a (List.mem_cons_of_mem _ here) b (List.mem_cons_of_mem _ there)
    cases here : p first with
    | true =>
      rw [List.filter_cons_of_pos here, List.filter_cons_of_neg (by simp [here]), List.cons_append, ← more]
    | false =>
      have none_ : ∀ item ∈ rest, p item = false := by
        intro item member
        by_contra holds
        rw [Bool.not_eq_false] at holds
        have before := lower item (List.mem_cons_of_mem _ member) first List.mem_cons_self holds here
        exact absurd (least item member) (not_le.mpr before)
      have nothing : (first :: rest).filter p = [] := by
        rw [List.filter_eq_nil_iff]
        intro item member
        rcases List.mem_cons.mp member with rfl | member
        · simp [here]
        · simp [none_ item member]
      rw [nothing, List.nil_append, List.filter_eq_self.mpr]
      intro item member
      rcases List.mem_cons.mp member with rfl | member
      · simp [here]
      · simp [none_ item member]

variable {items : List A}

/-- Two items of one list come in some order in every arrangement of it. -/
theorem pair_of_perm {others : List A} (same : items.Perm others) {a b : A} (listed : [a, b].Sublist items) :
    [a, b].Sublist others ∨ [b, a].Sublist others := by
  obtain ⟨pair, perm, placed⟩ := listed.subperm.trans same.subperm
  rcases List.perm_pair.mp perm with rfl | rfl
  · exact Or.inl placed
  · exact Or.inr placed

/-- Items of one key stay in their order. -/
theorem pair_sortedOn {a b : A} (tied : key a = key b) :
    [a, b].Sublist (sortedOn key items) ↔ [a, b].Sublist items := by
  have both : [a, b].filter (fun item => key item = key b) = [a, b] := by simp [tied]
  have same := @filter_key_sortedOn A K _ key (key b) items
  constructor
  · intro listed
    have kept := listed.filter fun item => key item = key b
    rw [both, same] at kept
    exact kept.trans List.filter_sublist
  · intro listed
    have kept := listed.filter fun item => key item = key b
    rw [both, ← same] at kept
    exact kept.trans List.filter_sublist

/-- An item and a later one: the key keeps them as they are only in the order of the values,
and exchanges them only for values that are apart. -/
def Agree (key : A → K) (value : A → Option N) (a b : A) : Prop :=
  ∀ v w, value a = some v → value b = some w → (key a ≤ key b → v ≤ w) ∧ (key b < key a → w < v)

/-- A stable sort by key is one by value exactly when the two agree on every two items. -/
theorem arranged_iff {items : List A}
    (alike : ∀ a ∈ items, ∀ b ∈ items, value a = none → value b = none → key a = key b)
    (apart : (∀ a ∈ items, ∀ b ∈ items, (value a).isSome → value b = none → key a < key b) ∨
      ∀ a ∈ items, ∀ b ∈ items, (value a).isSome → value b = none → key b < key a) :
    Arranged value items (sortedOn key items) ↔ items.Pairwise (Agree key value) := by
  have ordered := pairwise_sortedOn key items
  constructor
  · intro arranged
    rw [List.pairwise_iff_forall_sublist]
    intro a b listed v w first second
    have values : ∀ {x y : A} {m n : N}, [x, y].Sublist (sortedOn key items) → value x = some m →
        value y = some n → m ≤ n := by
      intro x y m n placed here there
      have mapped := placed.filterMap value
      simp only [List.filterMap_cons, here, there, List.filterMap_nil] at mapped
      exact List.pairwise_iff_forall_sublist.mp arranged.ordered mapped
    rcases pair_of_perm (perm_sortedOn key items).symm listed with kept | exchanged
    · have placed := List.pairwise_iff_forall_sublist.mp ordered kept
      exact ⟨fun _ => values kept first second, fun before => absurd before (not_lt.mpr placed)⟩
    · have placed := List.pairwise_iff_forall_sublist.mp ordered exchanged
      refine ⟨fun before => ?_, fun before => lt_of_le_of_ne (values exchanged second first) ?_⟩
      · exact values ((pair_sortedOn (le_antisymm before placed)).mpr listed) first second
      · -- equal values stay as they were, and are not exchanged
        rintro rfl
        have tied := listed.filter fun item => value item = some w
        rw [← arranged.stable (some w)] at tied
        simp only [List.filter_cons, first, second, decide_true, if_true, List.filter_nil] at tied
        have still := List.pairwise_iff_forall_sublist.mp ordered (tied.trans List.filter_sublist)
        exact absurd before (not_lt.mpr still)
  · intro agrees
    have stable : ∀ wanted, (sortedOn key items).filter (fun item => value item = wanted) =
        items.filter fun item => value item = wanted := by
      intro wanted
      rw [filter_sortedOn]
      apply sortedOn_eq_self
      rw [List.pairwise_iff_forall_sublist]
      intro a b listed
      have here := (List.mem_filter.mp (listed.subset List.mem_cons_self))
      have there := (List.mem_filter.mp (listed.subset (List.mem_cons_of_mem _ List.mem_cons_self)))
      rw [decide_eq_true_eq] at here there
      cases wanted with
      | none => exact (alike a here.1 b there.1 here.2 there.2).le
      | some v =>
        by_contra exchanged
        have both := List.pairwise_iff_forall_sublist.mp agrees (listed.trans List.filter_sublist) v v
          here.2 there.2
        exact lt_irrefl v (both.2 (not_le.mp exchanged))
    refine ⟨?_, ?_, stable⟩
    · rw [List.pairwise_filterMap, List.pairwise_iff_forall_sublist]
      intro a b placed v first w second
      have kept : [a, b].Sublist items → v ≤ w := fun listed =>
        (List.pairwise_iff_forall_sublist.mp agrees listed v w first second).1
          (List.pairwise_iff_forall_sublist.mp ordered placed)
      rcases pair_of_perm (perm_sortedOn key items) placed with listed | exchanged
      · exact kept listed
      · rcases lt_or_eq_of_le (List.pairwise_iff_forall_sublist.mp ordered placed) with before | tied
        · exact ((List.pairwise_iff_forall_sublist.mp agrees exchanged w v second first).2 before).le
        · exact kept ((pair_sortedOn tied).mp placed)
    · have some_iff : ∀ item, (!(value item).isSome) = (value item).isNone := fun item => by simp
      have none_iff : ∀ item, (!(value item).isNone) = (value item).isSome := fun item => by simp
      rcases apart with lower | upper
      · left
        have split_ := split_sorted ordered (p := fun item => (value item).isSome)
          fun a here b there present absent => lower a (mem_sortedOn.mp here) b (mem_sortedOn.mp there)
            present (Option.not_isSome_iff_eq_none.mp (by simp [absent]))
        simpa only [some_iff] using split_
      · right
        have split_ := split_sorted ordered (p := fun item => (value item).isNone)
          fun a here b there absent present => upper b (mem_sortedOn.mp there) a (mem_sortedOn.mp here)
            (by simpa using present) (Option.isNone_iff_eq_none.mp absent)
        simpa only [none_iff] using split_

end Arranged

end Loushang.Lib
