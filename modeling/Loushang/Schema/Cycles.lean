import Loushang.Schema.Acyclic
import Mathlib.Data.List.Chain
import Mathlib.Logic.Relation

/-!
# Cycle diagnostics are exact

A type in state 1 is on the stack, and the stack is a chain of parents: what is reported is
a cycle of the last declarations, and without a cycle nothing is reported.
-/
namespace Loushang.Schema
open Loushang.Lib Loushang.Lib.Hierarchy

/-- The relation that the search follows. -/
def ParentOf (byName : Dict String (ObjectTypeDefinition × Nat)) (child parent : String) : Prop :=
  parent ∈ draftParents byName child

def Cyclic (edge : String → String → Prop) : Prop := ∃ name, Relation.TransGen edge name name

section Search
variable {byName : Dict String (ObjectTypeDefinition × Nat)}

/-- The stack is the chain of the open types, and diagnostics stand for cycles. -/
structure CycleSearch.OnPath (byName : Dict String (ObjectTypeDefinition × Nat))
    (search : CycleSearch) : Prop where
  opened : ∀ name, search.state.get? name = some 1 ↔ name ∈ search.stack
  states : ∀ name state, search.state.get? name = some state → state = 1 ∨ state = 2
  chain : search.stack.IsChain (ParentOf byName)
  sound : search.diagnostics ≠ [] → Cyclic (ParentOf byName)
  code : ∀ diagnostic ∈ search.diagnostics, diagnostic.code = "parent_type_cycle"

/-- Every type of a chain leads to its last one. -/
theorem reaches_last {edge : String → String → Prop} {stack : List String}
    (chain : stack.IsChain edge) {first last : String} (member : first ∈ stack)
    (final : stack.getLast? = some last) : Relation.ReflTransGen edge first last := by
  induction stack generalizing first with
  | nil => exact absurd member List.not_mem_nil
  | cons top rest ih =>
    cases rest with
    | nil =>
      rw [List.mem_singleton] at member
      rw [List.getLast?_singleton, Option.some.injEq] at final
      rw [member, final]
    | cons next rest =>
      rw [List.isChain_cons_cons] at chain
      rw [List.getLast?_cons_cons] at final
      rcases List.mem_cons.mp member with rfl | member
      · exact Relation.ReflTransGen.head chain.1 (ih chain.2 List.mem_cons_self final)
      · exact ih chain.2 member final

/-- What is asked of a visit below the top of the stack. -/
def FollowsPath (byName : Dict String (ObjectTypeDefinition × Nat))
    (visit : CycleSearch → String → CycleSearch) : Prop :=
  ∀ search name, search.OnPath byName → name ∈ byName.keys → search.state.get? name = none →
    (∀ top ∈ search.stack.getLast?, ParentOf byName top name) →
    (visit search name).OnPath byName ∧ (visit search name).stack = search.stack

variable {visit : CycleSearch → String → CycleSearch} {search : CycleSearch}

theorem CycleSearch.OnPath.consider (follows : FollowsPath byName visit) {top : String}
    {parent : String × Nat} (objectIndex : Nat) (before : search.OnPath byName)
    (onTop : search.stack.getLast? = some top) (edge : parent.1 ∈ byName.keys → ParentOf byName top parent.1) :
    (search.consider byName visit objectIndex parent).OnPath byName ∧
      (search.consider byName visit objectIndex parent).stack = search.stack := by
  unfold CycleSearch.consider
  by_cases declared : parent.1 ∈ byName.keys
  · rw [if_neg (not_not.mpr declared)]
    cases state : search.state.get? parent.1 with
    | none =>
      apply follows search parent.1 before declared state
      intro other present
      rw [onTop, Option.mem_some_iff] at present
      exact present ▸ edge declared
    | some value =>
      rcases before.states parent.1 value state with rfl | rfl
      · -- the parent is open, hence on the stack above the top
        have cyclic : Cyclic (ParentOf byName) :=
          ⟨parent.1, Relation.TransGen.tail'
            (reaches_last before.chain ((before.opened parent.1).mp state) onTop) (edge declared)⟩
        change (search.report objectIndex parent.2 parent.1).OnPath byName ∧ _ = _
        unfold CycleSearch.report
        dsimp only
        split
        · exact ⟨before, rfl⟩
        · refine ⟨⟨before.opened, before.states, before.chain, fun _ => cyclic, ?_⟩, rfl⟩
          intro diagnostic member
          rcases List.mem_append.mp member with old | new
          · exact before.code diagnostic old
          · rw [List.mem_singleton.mp new]
      · exact ⟨before, rfl⟩
  · rw [if_pos declared]
    exact ⟨before, rfl⟩

theorem CycleSearch.OnPath.foldl (follows : FollowsPath byName visit) {top : String}
    {above : List (String × Nat)} (objectIndex : Nat) (before : search.OnPath byName)
    (onTop : search.stack.getLast? = some top)
    (edges : ∀ parent ∈ above, parent.1 ∈ byName.keys → ParentOf byName top parent.1) :
    (above.foldl (CycleSearch.consider byName visit objectIndex) search).OnPath byName ∧
      (above.foldl (CycleSearch.consider byName visit objectIndex) search).stack = search.stack := by
  induction above generalizing search with
  | nil => exact ⟨before, rfl⟩
  | cons parent rest ih =>
    obtain ⟨here, sameStack⟩ := before.consider follows objectIndex onTop
      (edges parent List.mem_cons_self)
    rw [List.foldl_cons, ← sameStack]
    rw [← sameStack] at onTop
    exact ih here onTop fun other member => edges other (List.mem_cons_of_mem _ member)

theorem CycleSearch.OnPath.enter {name : String} (before : search.OnPath byName)
    (below : ∀ top ∈ search.stack.getLast?, ParentOf byName top name) :
    (search.enter name).OnPath byName := by
  refine ⟨fun other => ?_, fun other state => ?_, ?_, before.sound, before.code⟩
  · unfold CycleSearch.enter
    rw [Dict.get?_set, List.mem_append, List.mem_singleton]
    split
    · next same => simp [same]
    · next different => simp [before.opened, different]
  · unfold CycleSearch.enter
    rw [Dict.get?_set]
    split
    · rintro ⟨⟩
      exact Or.inl rfl
    · exact before.states other state
  · unfold CycleSearch.enter
    refine List.isChain_append.mpr ⟨before.chain, List.isChain_singleton _, ?_⟩
    intro top onTop first head
    rw [List.head?_cons, Option.mem_some_iff] at head
    exact head ▸ below top onTop

theorem CycleSearch.OnPath.leave {above : CycleSearch} {name : String} (before : search.OnPath byName)
    (fresh : search.state.get? name = none) (inside : above.OnPath byName)
    (sameStack : above.stack = search.stack ++ [name]) :
    (above.leave name).OnPath byName ∧ (above.leave name).stack = search.stack := by
  have popped : (above.leave name).stack = search.stack := by
    rw [CycleSearch.leave, sameStack, List.dropLast_concat]
  refine ⟨⟨fun other => ?_, fun other state => ?_, popped ▸ before.chain, inside.sound,
    inside.code⟩, popped⟩
  · rw [popped]
    unfold CycleSearch.leave
    rw [Dict.get?_set]
    split
    · next same => simp [same, ← before.opened, fresh]
    · next different =>
      rw [inside.opened, sameStack, List.mem_append, List.mem_singleton]
      simp [different]
  · unfold CycleSearch.leave
    rw [Dict.get?_set]
    split
    · rintro ⟨⟩
      exact Or.inr rfl
    · exact inside.states other state

theorem followsPath_visitParents (depth : Nat) : FollowsPath byName (visitParents byName depth) := by
  induction depth with
  | zero => exact fun search name before _ _ _ => ⟨before, rfl⟩
  | succ depth ih =>
    intro search name before known fresh below
    rw [visitParents]
    cases found : byName.get? name with
    | none => exact ⟨before, rfl⟩
    | some declaration =>
      obtain ⟨objectType, objectIndex⟩ := declaration
      have edges : ∀ parent ∈ objectType.parentTypes.zipIdx, parent.1 ∈ byName.keys →
          ParentOf byName name parent.1 := by
        intro parent member declared
        exact mem_draftParents.mpr
          ⟨objectType, objectIndex, found, List.fst_mem_of_mem_zipIdx member, declared⟩
      have onTop : (search.enter name).stack.getLast? = some name := List.getLast?_concat
      obtain ⟨inside, sameStack⟩ := (before.enter below).foldl ih objectIndex onTop edges
      exact before.leave fresh inside sameStack

theorem searchRoots_onPath {roots : List ObjectTypeDefinition} (before : search.OnPath byName)
    (empty : search.stack = []) (known : ∀ root ∈ roots, root.name ∈ byName.keys) :
    (roots.foldl (searchRoot byName) search).OnPath byName := by
  induction roots generalizing search with
  | nil => exact before
  | cons root rest ih =>
    have step : (searchRoot byName search root).OnPath byName ∧
        (searchRoot byName search root).stack = search.stack := by
      unfold searchRoot
      cases state : search.state.get? root.name with
      | none =>
        apply followsPath_visitParents byName.keys.length search root.name before
          (known root List.mem_cons_self) state
        rw [empty]
        exact fun top present => by cases present
      | some value =>
        rcases before.states root.name value state with rfl | rfl
        · exact ⟨before, rfl⟩
        · exact ⟨before, rfl⟩
    exact ih step.1 (step.2.trans empty) fun other member => known other (List.mem_cons_of_mem _ member)

end Search

/-- A chain of parents climbs in an order that has parents first. -/
theorem acyclic_of_parentsFirst {byName : Dict String (ObjectTypeDefinition × Nat)} {order : List String}
    (sorted : ParentsFirst (draftParents byName) order) (all : ∀ name ∈ byName.keys, name ∈ order) :
    ¬ Cyclic (ParentOf byName) := by
  rintro ⟨name, cycle⟩
  have climbs : ∀ {a b}, Relation.TransGen (ParentOf byName) a b → order.idxOf b < order.idxOf a := by
    intro a b path
    have listed : ∀ {child parent}, ParentOf byName child parent → child ∈ order := by
      intro child parent edge
      obtain ⟨objectType, index, found, _⟩ := mem_draftParents.mp edge
      exact all child (Dict.get?_isSome.mp (found ▸ rfl))
    induction path with
    | single edge => exact (sorted.parent_before (listed edge) edge).2
    | tail _ edge ih => exact Nat.lt_trans (sorted.parent_before (listed edge) edge).2 ih
  exact Nat.lt_irrefl _ (climbs cycle)

theorem searchRoots_onPath_empty (objectTypes : List ObjectTypeDefinition) :
    (objectTypes.foldl (searchRoot (declarations objectTypes)) ⟨.empty, [], [], []⟩).OnPath
      (declarations objectTypes) := by
  have initial : CycleSearch.OnPath (declarations objectTypes) ⟨.empty, [], [], []⟩ := by
    refine ⟨fun name => ?_, fun name state found => ?_, List.IsChain.nil, fun loud => absurd rfl loud,
      fun _ member => absurd member List.not_mem_nil⟩
    · simp
    · cases found
  exact searchRoots_onPath initial rfl fun root member =>
    mem_keys_declarations.mpr (List.mem_map_of_mem member)

variable {objectTypes : List ObjectTypeDefinition}

theorem cycle_code {diagnostic : SchemaDiagnostic} (member : diagnostic ∈ validateParentCycles objectTypes) :
    diagnostic.code = "parent_type_cycle" :=
  (searchRoots_onPath_empty objectTypes).code diagnostic member

/-- A cycle is reported exactly when the last declarations have one. -/
theorem validateParentCycles_iff :
    validateParentCycles objectTypes ≠ [] ↔ Cyclic (ParentOf (declarations objectTypes)) := by
  constructor
  · exact (searchRoots_onPath_empty objectTypes).sound
  · intro cyclic quiet
    obtain ⟨order, sorted, listed⟩ := acyclic_of_quiet quiet
    exact acyclic_of_parentsFirst sorted
      (fun name declared => (listed name).mpr (mem_keys_declarations.mp declared)) cyclic

end Loushang.Schema
