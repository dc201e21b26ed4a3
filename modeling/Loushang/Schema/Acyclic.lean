import Loushang.Lib.Hierarchy
import Loushang.Schema.Compiler

/-!
# A draft without cycle diagnostics is acyclic

The depth-first search of `_validate_parent_cycles` leaves every type after its parents
unless it reports a cycle.
-/
namespace Loushang.Schema
open Loushang.Lib Loushang.Lib.Hierarchy

/-- The declared parents of a type, by its last declaration. -/
def draftParents (byName : Dict String (ObjectTypeDefinition × Nat)) (name : String) : List String :=
  match byName.get? name with
  | none => []
  | some (objectType, _) => objectType.parentTypes.filter (· ∈ byName.keys)

variable {name : String}

theorem mem_draftParents {byName : Dict String (ObjectTypeDefinition × Nat)} {parent : String} :
    parent ∈ draftParents byName name ↔ ∃ objectType index,
      byName.get? name = some (objectType, index) ∧ parent ∈ objectType.parentTypes ∧
        parent ∈ byName.keys := by
  unfold draftParents
  cases byName.get? name with
  | none => simp
  | some declaration =>
    obtain ⟨objectType, index⟩ := declaration
    simp

/-- Every reported cycle has one diagnostic. -/
def CycleSearch.Counted (search : CycleSearch) : Prop :=
  search.reportedCycles.length = search.diagnostics.length

/-- A later search has the diagnostics of the earlier one. -/
structure CycleSearch.Extends (search later : CycleSearch) : Prop where
  counted : search.Counted → later.Counted
  kept : search.diagnostics <+: later.diagnostics

theorem CycleSearch.Extends.refl (search : CycleSearch) : search.Extends search :=
  ⟨id, List.prefix_rfl⟩

theorem CycleSearch.Extends.trans {first second third : CycleSearch} (early : first.Extends second)
    (late : second.Extends third) : first.Extends third :=
  ⟨late.counted ∘ early.counted, early.kept.trans late.kept⟩

variable {search : CycleSearch}

theorem CycleSearch.Extends.quiet {later : CycleSearch} (grown : search.Extends later)
    (quiet : later.diagnostics = []) : search.diagnostics = [] :=
  List.prefix_nil.mp (quiet ▸ grown.kept)

theorem CycleSearch.extends_report (search : CycleSearch) (objectIndex parentIndex : Nat)
    (parentName : String) : search.Extends (search.report objectIndex parentIndex parentName) := by
  unfold CycleSearch.report
  dsimp only
  split
  · exact CycleSearch.Extends.refl search
  · refine ⟨fun counted => ?_, List.prefix_append _ _⟩
    unfold CycleSearch.Counted at counted ⊢
    rw [List.length_append, List.length_cons, counted]
    rfl

/-- A report leaves a diagnostic, its own or the one of the same cycle. -/
theorem CycleSearch.report_loud (counted : search.Counted) (objectIndex parentIndex : Nat)
    (parentName : String) : (search.report objectIndex parentIndex parentName).diagnostics ≠ [] := by
  unfold CycleSearch.report
  dsimp only
  split
  · next reported =>
    intro quiet
    rw [CycleSearch.Counted, quiet, List.length_nil, List.length_eq_zero_iff] at counted
    rw [counted] at reported
    exact List.not_mem_nil reported
  · exact List.append_ne_nil_of_right_ne_nil _ (List.cons_ne_nil _ _)

section Search
variable {byName : Dict String (ObjectTypeDefinition × Nat)}

variable {visit : CycleSearch → String → CycleSearch}

variable (byName) in
theorem CycleSearch.extends_consider (grows : ∀ search name, CycleSearch.Extends search (visit search name))
    (objectIndex : Nat) (search : CycleSearch) (parent : String × Nat) :
    search.Extends (search.consider byName visit objectIndex parent) := by
  unfold CycleSearch.consider
  split
  · exact CycleSearch.Extends.refl search
  · split
    · exact grows search parent.1
    · split
      · exact search.extends_report objectIndex parent.2 parent.1
      · exact CycleSearch.Extends.refl search

variable (byName) in
theorem CycleSearch.extends_foldl (grows : ∀ search name, CycleSearch.Extends search (visit search name))
    (objectIndex : Nat) (search : CycleSearch) (above : List (String × Nat)) :
    search.Extends (above.foldl (CycleSearch.consider byName visit objectIndex) search) := by
  induction above generalizing search with
  | nil => exact CycleSearch.Extends.refl search
  | cons parent rest ih =>
    exact (search.extends_consider byName grows objectIndex parent).trans (ih _)

theorem extends_visitParents (depth : Nat) (search : CycleSearch) (name : String) :
    search.Extends (visitParents byName depth search name) := by
  induction depth generalizing search name with
  | zero => exact CycleSearch.Extends.refl search
  | succ depth ih =>
    rw [visitParents]
    split
    · exact CycleSearch.Extends.refl search
    · next objectType objectIndex _ =>
      have entered : search.Extends (search.enter name) := ⟨id, List.prefix_rfl⟩
      have grown := entered.trans
        ((search.enter name).extends_foldl byName ih objectIndex objectType.parentTypes.zipIdx)
      exact ⟨grown.counted, grown.kept⟩

variable (byName) in
theorem extends_searchRoots (roots : List ObjectTypeDefinition) (search : CycleSearch) :
    search.Extends (roots.foldl (searchRoot byName) search) := by
  induction roots generalizing search with
  | nil => exact CycleSearch.Extends.refl search
  | cons root rest ih =>
    refine CycleSearch.Extends.trans ?_ (ih _)
    unfold searchRoot
    split
    · exact extends_visitParents byName.keys.length search root.name
    · exact CycleSearch.Extends.refl search

/-- The types left so far, each after its parents, are those in state 2. -/
structure CycleSearch.Searched (byName : Dict String (ObjectTypeDefinition × Nat))
    (search : CycleSearch) (order : List String) : Prop where
  sorted : ParentsFirst (draftParents byName) order
  left_ : ∀ name, search.state.get? name = some 2 ↔ name ∈ order
  states : ∀ name state, search.state.get? name = some state → state = 1 ∨ state = 2
  known : ∀ name ∈ order, name ∈ byName.keys

/-- The declared types that have not been entered. -/
def CycleSearch.unvisited (byName : Dict String (ObjectTypeDefinition × Nat))
    (search : CycleSearch) : List String :=
  byName.keys.filter fun name => search.state.get? name = none

/-- What a visit keeps: the open types, the left ones, and that nothing becomes unvisited. -/
structure CycleSearch.Kept (search later : CycleSearch) : Prop where
  opened : ∀ name, later.state.get? name = some 1 ↔ search.state.get? name = some 1
  left_ : ∀ name, search.state.get? name = some 2 → later.state.get? name = some 2
  fresh : ∀ name, later.state.get? name = none → search.state.get? name = none

theorem CycleSearch.Kept.refl (search : CycleSearch) : search.Kept search :=
  ⟨fun _ => Iff.rfl, fun _ => id, fun _ => id⟩

theorem CycleSearch.Kept.trans {first second third : CycleSearch} (early : first.Kept second)
    (late : second.Kept third) : first.Kept third :=
  ⟨fun name => (late.opened name).trans (early.opened name),
    fun name before => late.left_ name (early.left_ name before),
    fun name after => early.fresh name (late.fresh name after)⟩

variable {search : CycleSearch}

theorem CycleSearch.Kept.unvisited_le {later : CycleSearch} (kept : search.Kept later) :
    (later.unvisited byName).length ≤ (search.unvisited byName).length := by
  apply List.Sublist.length_le
  apply List.monotone_filter_right
  intro name fresh
  rw [decide_eq_true_eq] at fresh ⊢
  exact kept.fresh name fresh

variable {name : String}

theorem CycleSearch.unvisited_enter (declared : name ∈ byName.keys) (fresh : search.state.get? name = none) :
    ((search.enter name).unvisited byName).length < (search.unvisited byName).length := by
  have strict : (search.enter name).unvisited byName = (search.unvisited byName).filter (· ≠ name) := by
    unfold CycleSearch.unvisited CycleSearch.enter
    rw [List.filter_filter]
    apply List.filter_congr
    intro other _
    rw [Dict.get?_set]
    by_cases same : other = name
    · simp [same]
    · simp [same]
  rw [strict]
  apply List.length_filter_lt_length_iff_exists.mpr
  refine ⟨name, List.mem_filter.mpr ⟨declared, ?_⟩, ?_⟩
  · rw [decide_eq_true_eq]
    exact fresh
  · simp

variable {order : List String}

theorem CycleSearch.Searched.enter (before : search.Searched byName order)
    (fresh : search.state.get? name = none) : (search.enter name).Searched byName order := by
  refine ⟨before.sorted, fun other => ?_, fun other state => ?_, before.known⟩
  · rw [CycleSearch.enter, Dict.get?_set]
    split
    · next same =>
      subst same
      rw [← before.left_, fresh]
      simp
    · exact before.left_ other
  · rw [CycleSearch.enter, Dict.get?_set]
    split
    · rintro ⟨⟩
      exact Or.inl rfl
    · exact before.states other state

/-- A search that has left the types `names`, going on from another one. -/
structure CycleSearch.Leaves (byName : Dict String (ObjectTypeDefinition × Nat))
    (search later : CycleSearch) (names order : List String) : Prop where
  searched : later.Searched byName order
  kept : search.Kept later
  done : ∀ name ∈ names, name ∈ order

/-- The type whose parents have been left is left itself. -/
theorem CycleSearch.Leaves.leave {above : CycleSearch}
    (parents : CycleSearch.Leaves byName (search.enter name) above (draftParents byName name) order)
    (known : name ∈ byName.keys) (fresh : search.state.get? name = none) :
    CycleSearch.Leaves byName search (above.leave name) [name] (order ++ [name]) := by
  have entered : (search.enter name).state.get? name = some 1 := Dict.get?_set_self _ _ _
  have still := (parents.kept.opened name).mpr entered
  have absent : name ∉ order := by
    rw [← parents.searched.left_, still]
    simp
  have elsewhere : ∀ other, other ≠ name →
      (search.enter name).state.get? other = search.state.get? other := fun other different =>
    Dict.get?_set_of_ne _ _ different
  refine ⟨⟨parents.searched.sorted.snoc absent parents.done, fun other => ?_, fun other state => ?_,
      fun other member => ?_⟩,
    ⟨fun other => ?_, fun other old => ?_, fun other new => ?_⟩, fun other member => ?_⟩
  · rw [CycleSearch.leave, Dict.get?_set, List.mem_append, List.mem_singleton]
    split
    · next same => simp [same]
    · next different => simp [parents.searched.left_, different]
  · rw [CycleSearch.leave, Dict.get?_set]
    split
    · rintro ⟨⟩
      exact Or.inr rfl
    · exact parents.searched.states other state
  · rcases List.mem_append.mp member with before | only
    · exact parents.searched.known other before
    · rw [List.mem_singleton.mp only]
      exact known
  · rw [CycleSearch.leave, Dict.get?_set]
    split
    · next same => simp [same, fresh]
    · next different => rw [parents.kept.opened, elsewhere other different]
  · rw [CycleSearch.leave, Dict.get?_set]
    split
    · rfl
    · next different =>
      apply parents.kept.left_
      rw [elsewhere other different]
      exact old
  · rw [CycleSearch.leave, Dict.get?_set] at new
    split at new
    · cases new
    · next different => rw [← elsewhere other different, parents.kept.fresh other new]
  · exact List.mem_append_right _ member

/-- What is asked of a visit of a new type with `depth` types to go. -/
structure Visits (byName : Dict String (ObjectTypeDefinition × Nat)) (depth : Nat)
    (visit : CycleSearch → String → CycleSearch) : Prop where
  grows : ∀ search name, CycleSearch.Extends search (visit search name)
  leaves : ∀ search order name, search.Searched byName order → search.Counted →
    name ∈ byName.keys → search.state.get? name = none →
    (search.unvisited byName).length ≤ depth → (visit search name).diagnostics = [] →
    ∃ later, CycleSearch.Leaves byName search (visit search name) [name] later

/-- A quiet look at a declared parent leaves it; an open parent would be reported. -/
theorem Visits.consider {depth : Nat} (visits : Visits byName depth visit) {parent : String × Nat}
    (objectIndex : Nat) (before : search.Searched byName order) (counted : search.Counted)
    (enough : (search.unvisited byName).length ≤ depth)
    (quiet : (search.consider byName visit objectIndex parent).diagnostics = []) :
    ∃ later, CycleSearch.Leaves byName search (search.consider byName visit objectIndex parent)
      ([parent.1].filter (· ∈ byName.keys)) later := by
  unfold CycleSearch.consider at quiet ⊢
  by_cases declared : parent.1 ∈ byName.keys
  · rw [if_neg (not_not.mpr declared)] at quiet ⊢
    have listed : [parent.1].filter (· ∈ byName.keys) = [parent.1] := by simp [declared]
    rw [listed]
    cases state : search.state.get? parent.1 with
    | none =>
      rw [state] at quiet
      exact visits.leaves search order parent.1 before counted declared state enough quiet
    | some value =>
      rw [state] at quiet
      rcases before.states parent.1 value state with rfl | rfl
      · exact absurd quiet (search.report_loud counted _ _ _)
      · refine ⟨order, before, .refl search, fun name member => ?_⟩
        rw [List.mem_singleton.mp member]
        exact (before.left_ parent.1).mp state
  · rw [if_pos declared]
    refine ⟨order, before, .refl search, fun name member => ?_⟩
    obtain ⟨only, known⟩ := List.mem_filter.mp member
    rw [List.mem_singleton] at only
    rw [only, decide_eq_true_eq] at known
    exact absurd known declared

theorem Visits.foldl {depth : Nat} (visits : Visits byName depth visit) {above : List (String × Nat)}
    (objectIndex : Nat) (before : search.Searched byName order) (counted : search.Counted)
    (enough : (search.unvisited byName).length ≤ depth)
    (quiet : (above.foldl (CycleSearch.consider byName visit objectIndex) search).diagnostics = []) :
    ∃ later, CycleSearch.Leaves byName search
      (above.foldl (CycleSearch.consider byName visit objectIndex) search)
      ((above.map Prod.fst).filter (· ∈ byName.keys)) later := by
  induction above generalizing search order with
  | nil => exact ⟨order, before, .refl search, nofun⟩
  | cons parent rest ih =>
    rw [List.foldl_cons] at quiet ⊢
    have step := search.extends_consider byName visits.grows objectIndex parent
    have tail := (search.consider byName visit objectIndex parent).extends_foldl
      byName visits.grows objectIndex rest
    obtain ⟨middle, here⟩ := visits.consider objectIndex before counted enough (tail.quiet quiet)
    obtain ⟨later, others⟩ := ih here.searched (step.counted counted)
      (Nat.le_trans here.kept.unvisited_le enough) quiet
    refine ⟨later, others.searched, here.kept.trans others.kept, fun name member => ?_⟩
    rw [List.map_cons, ← List.singleton_append, List.filter_append, List.mem_append] at member
    rcases member with first | member
    · have left_ := (here.searched.left_ name).mpr (here.done name first)
      exact (others.searched.left_ name).mp (others.kept.left_ name left_)
    · exact others.done name member

/-- A quiet visit of a new type leaves it, after its parents. -/
theorem visits_visitParents (depth : Nat) : Visits byName depth (visitParents byName depth) := by
  induction depth with
  | zero =>
    refine ⟨fun search name => extends_visitParents 0 search name, ?_⟩
    intro search order name before counted known fresh enough quiet
    have fewer := search.unvisited_enter known fresh
    omega
  | succ depth ih =>
    refine ⟨fun search name => extends_visitParents (depth + 1) search name, ?_⟩
    intro search order name before counted known fresh enough quiet
    have fewer := search.unvisited_enter known fresh
    rw [visitParents] at quiet ⊢
    cases found : byName.get? name with
    | none => exact absurd known (Dict.get?_eq_none.mp found)
    | some declaration =>
      obtain ⟨objectType, objectIndex⟩ := declaration
      rw [found] at quiet
      have parents : (objectType.parentTypes.zipIdx.map Prod.fst).filter (· ∈ byName.keys) =
          draftParents byName name := by
        rw [List.zipIdx_map_fst, draftParents, found]
      obtain ⟨later, above⟩ := ih.foldl objectIndex (before.enter fresh) counted (by omega) quiet
      rw [parents] at above
      exact ⟨later ++ [name], above.leave known fresh⟩

/-- A quiet search from all roots leaves them. -/
theorem searchRoots_leaves {roots : List ObjectTypeDefinition} (before : search.Searched byName order)
    (counted : search.Counted) (closed : ∀ name, search.state.get? name ≠ some 1)
    (known : ∀ root ∈ roots, root.name ∈ byName.keys)
    (quiet : (roots.foldl (searchRoot byName) search).diagnostics = []) :
    ∃ later, CycleSearch.Leaves byName search (roots.foldl (searchRoot byName) search)
      (roots.map ObjectTypeDefinition.name) later := by
  have visits := @visits_visitParents byName byName.keys.length
  induction roots generalizing search order with
  | nil => exact ⟨order, before, .refl search, nofun⟩
  | cons root rest ih =>
    rw [List.foldl_cons] at quiet ⊢
    have hush := (extends_searchRoots byName rest (searchRoot byName search root)).quiet quiet
    have step := extends_searchRoots byName [root] search
    have here : ∃ middle, CycleSearch.Leaves byName search (searchRoot byName search root)
        [root.name] middle := by
      unfold searchRoot at hush ⊢
      cases state : search.state.get? root.name with
      | none =>
        rw [state] at hush
        exact visits.leaves search order root.name before counted (known root List.mem_cons_self)
          state (List.length_filter_le _ _) hush
      | some value =>
        rcases before.states root.name value state with rfl | rfl
        · exact absurd state (closed root.name)
        · refine ⟨order, before, .refl search, fun name member => ?_⟩
          rw [List.mem_singleton.mp member]
          exact (before.left_ root.name).mp state
    obtain ⟨middle, left_⟩ := here
    obtain ⟨later, others⟩ := ih left_.searched (step.counted counted)
      (fun name opened => closed name ((left_.kept.opened name).mp opened))
      (fun other member => known other (List.mem_cons_of_mem _ member)) quiet
    refine ⟨later, others.searched, left_.kept.trans others.kept, fun name member => ?_⟩
    rcases List.mem_cons.mp member with rfl | member
    · have done := (left_.searched.left_ root.name).mpr (left_.done _ (List.mem_singleton.mpr rfl))
      exact (others.searched.left_ root.name).mp (others.kept.left_ root.name done)
    · exact others.done name member

end Search

variable {objectTypes : List ObjectTypeDefinition}

theorem mem_keys_declarations :
    name ∈ (declarations objectTypes).keys ↔ name ∈ objectTypes.map ObjectTypeDefinition.name := by
  rw [declarations, Dict.mem_keys_update, List.map_map]
  have names : (objectTypes.zipIdx.map (Prod.fst ∘ fun (entry : ObjectTypeDefinition × Nat) =>
      (entry.1.name, entry.1, entry.2))) = objectTypes.map ObjectTypeDefinition.name := by
    rw [← List.zipIdx_map_fst 0 objectTypes, List.map_map, List.zipIdx_map_fst]
    rfl
  rw [names]
  simp

variable {objectType : ObjectTypeDefinition}

theorem mem_of_declarations {index : Nat}
    (found : (declarations objectTypes).get? name = some (objectType, index)) :
    objectType ∈ objectTypes ∧ objectType.name = name := by
  rcases Dict.get?_update_cases found with nothing | listed
  · cases nothing
  · obtain ⟨⟨declared, place⟩, member, same⟩ := List.mem_map.mp listed
    cases same
    exact ⟨List.fst_mem_of_mem_zipIdx member, rfl⟩

/-- Without unknown parents, all parents are declared. -/
theorem parents_declared (quiet : validateParents objectTypes = []) (member : objectType ∈ objectTypes) :
    ∀ parent ∈ objectType.parentTypes, parent ∈ objectTypes.map ObjectTypeDefinition.name := by
  intro parent above
  obtain ⟨index, inBounds, rfl⟩ := List.mem_iff_getElem.mp member
  obtain ⟨place, inside, rfl⟩ := List.mem_iff_getElem.mp above
  unfold validateParents at quiet
  rw [List.flatMap_eq_nil_iff] at quiet
  have here := quiet (_, index) (List.mem_zipIdx_iff_getElem?.mpr (List.getElem?_eq_getElem inBounds))
  rw [List.flatMap_eq_nil_iff] at here
  have silent := here (_, place) (List.mem_zipIdx_iff_getElem?.mpr (List.getElem?_eq_getElem inside))
  by_contra undeclared
  simp only at silent
  rw [if_neg undeclared] at silent
  cases silent

/-- The object types of a draft without cycle diagnostics can be listed parents first. -/
theorem acyclic_of_quiet (quiet : validateParentCycles objectTypes = []) :
    ∃ order, ParentsFirst (draftParents (declarations objectTypes)) order ∧
      ∀ name, name ∈ order ↔ name ∈ objectTypes.map ObjectTypeDefinition.name := by
  have initial : CycleSearch.Searched (declarations objectTypes) ⟨.empty, [], [], []⟩ [] := by
    refine ⟨.nil, fun name => ?_, fun name state found => ?_, nofun⟩
    · simp
    · cases found
  have known : ∀ root ∈ objectTypes, root.name ∈ (declarations objectTypes).keys :=
    fun root member => mem_keys_declarations.mpr (List.mem_map_of_mem member)
  obtain ⟨order, all⟩ := searchRoots_leaves initial rfl (fun name opened => by cases opened)
    known quiet
  refine ⟨order, all.searched.sorted, fun name => ⟨fun member => ?_, all.done name⟩⟩
  exact mem_keys_declarations.mp (all.searched.known name member)

end Loushang.Schema
