import Loushang.Branch.Extension
import Loushang.Lib.Run

/-!
# Graphs that share lists

A program's graph objects and prepared extensions over one heap of child lists. After
any sequence of constructions, queries, detached extensions and publications every
graph answers as one built from its records, and extends or refuses as that one would.
-/
namespace Loushang.Branch
open Loushang.Lib

section

variable {R : Type} (recordId : R → String) (parentId : R → Option String)

/-- Every query of the one graph answers as that query of the other. -/
structure SameAnswers (heap : Heap) (graph : BranchGraph R) (heap' : Heap) (graph' : BranchGraph R) :
    Prop where
  roots : graph.roots = graph'.roots
  leaves : graph.leaves heap = graph'.leaves heap'
  children : ∀ id, graph.childRecords heap id = graph'.childRecords heap' id
  path : ∀ id, (graph.path id).1 = (graph'.path id).1
  ancestors : ∀ id, (graph.ancestors id).1 = (graph'.ancestors id).1
  lowestCommonAncestor : ∀ leftId rightId,
    (graph.lowestCommonAncestor recordId leftId rightId).1 =
      (graph'.lowestCommonAncestor recordId leftId rightId).1

variable {recordId parentId}

section

variable {heap heap' : Heap} {graph graph' : BranchGraph R}

theorem path_same (left : Represents recordId parentId heap graph)
    (right : Represents recordId parentId heap' graph') (records : graph.records = graph'.records)
    (id : String) : (graph.path id).1 = (graph'.path id).1 := by
  obtain ⟨_, _, answer⟩ := left.path id
  obtain ⟨_, _, answer'⟩ := right.path id
  rw [records] at answer
  rcases answer with ⟨absent, answer⟩ | ⟨path, pathOf, answer⟩ <;>
    rcases answer' with ⟨absent', answer'⟩ | ⟨path', pathOf', answer'⟩
  · rw [answer, answer']
  · exact absurd pathOf'.choose_spec.1 absent
  · exact absurd pathOf.choose_spec.1 absent'
  · rw [answer, answer', pathOf.unique pathOf']

theorem byId_same (left : Represents recordId parentId heap graph)
    (right : Represents recordId parentId heap' graph') (records : graph.records = graph'.records) :
    graph.byId.get? = graph'.byId.get? := by
  funext id
  rw [get?_of_named left.listed.byId, get?_of_named right.listed.byId, records]

theorem read_same (left : Represents recordId parentId heap graph)
    (right : Represents recordId parentId heap' graph') (records : graph.records = graph'.records)
    (id : String) :
    (ChildLists.mk heap graph.children).read id = (ChildLists.mk heap' graph'.children).read id := by
  rw [left.reads, right.reads, records]

theorem lowestCommonAncestor_same (left : Represents recordId parentId heap graph)
    (right : Represents recordId parentId heap' graph') (records : graph.records = graph'.records)
    (leftId rightId : String) :
    (graph.lowestCommonAncestor recordId leftId rightId).1 =
      (graph'.lowestCommonAncestor recordId leftId rightId).1 := by
  obtain ⟨left', records₁, _⟩ := left.path leftId
  obtain ⟨right', records₂, _⟩ := right.path leftId
  have first := path_same left right records leftId
  have again : (graph.path leftId).2.records = (graph'.path leftId).2.records := by
    rw [records₁, records₂, records]
  have second := path_same left' right' again rightId
  obtain ⟨left'', records₃, _⟩ := left'.path rightId
  obtain ⟨right'', records₄, _⟩ := right'.path rightId
  have names := byId_same left'' right'' (by rw [records₃, records₄, again])
  unfold BranchGraph.lowestCommonAncestor
  generalize graph.path leftId = one at *
  generalize graph'.path leftId = one' at *
  obtain ⟨answer, after⟩ := one
  obtain ⟨answer', after'⟩ := one'
  obtain rfl : answer = answer' := first
  cases answer with
  | error fault => rfl
  | ok path =>
    simp only at *
    generalize after.path rightId = two at *
    generalize after'.path rightId = two' at *
    obtain ⟨answer, final⟩ := two
    obtain ⟨answer', final'⟩ := two'
    obtain rfl : answer = answer' := second
    cases answer with
    | error fault => rfl
    | ok path' =>
      simp only at *
      rw [names]

/-- Graphs that represent the same records answer alike. -/
theorem Represents.sameAnswers (left : Represents recordId parentId heap graph)
    (right : Represents recordId parentId heap' graph') (records : graph.records = graph'.records) :
    SameAnswers recordId heap graph heap' graph' where
  roots := by
    have parents : parentOf graph.parents = parentOf graph'.parents := by
      funext id
      rw [parentOf_of_linked left.listed.parents, parentOf_of_linked right.listed.parents, records]
    rw [BranchGraph.roots, BranchGraph.roots, left.listed.sourceOrder, right.listed.sourceOrder,
      byId_same left right records, parents, records]
  leaves := by
    rw [BranchGraph.leaves, BranchGraph.leaves, left.listed.sourceOrder, right.listed.sourceOrder,
      byId_same left right records, records]
    simp only [read_same left right records]
  children id := by
    rw [BranchGraph.childRecords, BranchGraph.childRecords, keys_of_named left.listed.byId,
      keys_of_named right.listed.byId, read_same left right records, byId_same left right records, records]
  path := path_same left right records
  ancestors id := by
    rw [BranchGraph.ancestors, BranchGraph.ancestors, path_same left right records]
  lowestCommonAncestor := lowestCommonAncestor_same left right records

end

/-! ## All graph objects of a program -/

/-- Strict graph objects and plans, by the order of their creation. -/
structure World (R : Type) where
  heap : Heap
  graphs : List (BranchGraph R)
  plans : List (PreparedBranchAppend R)

def World.empty : World R := ⟨[], [], []⟩

inductive Operation (R : Type) where
  | construct (records : List R)
  | path (graph : Nat) (id : String)
  | lowestCommonAncestor (graph : Nat) (leftId rightId : String)
  | withAppendedRecords (graph : Nat) (appended : List R)
  | prepareStrictAppend (graph : Nat) (appended : List R)
  | publishStrictAppend (graph plan : Nat)

/-- The graph object that now is `graph`. -/
def World.replace (world : World R) (index : Nat) (graph : BranchGraph R) : World R :=
  { world with graphs := world.graphs.set index graph }

variable (recordId parentId) in
/-- The fault an operation raises, and the objects after it. Objects that do not exist are
not operated on. -/
def World.step (world : World R) : Operation R → Option BranchFault × World R
  | .construct records =>
    match construct recordId parentId .strict world.heap records with
    | .error fault => (some fault, world)
    | .ok (heap, graph) => (none, { world with heap, graphs := world.graphs ++ [graph] })
  | .path index id =>
    match world.graphs[index]? with
    | none => (none, world)
    | some graph =>
      (match (graph.path id).1 with
        | .error fault => some fault
        | .ok _ => none, world.replace index (graph.path id).2)
  | .lowestCommonAncestor index leftId rightId =>
    match world.graphs[index]? with
    | none => (none, world)
    | some graph =>
      (match (graph.lowestCommonAncestor recordId leftId rightId).1 with
        | .error fault => some fault
        | .ok _ => none, world.replace index (graph.lowestCommonAncestor recordId leftId rightId).2)
  | .withAppendedRecords index appended =>
    match world.graphs[index]? with
    | none => (none, world)
    | some graph =>
      match withAppendedRecords recordId parentId world.heap index graph appended with
      | .error fault => (some fault, world)
      | .ok (heap, graph) => (none, { world with heap, graphs := world.graphs ++ [graph] })
  | .prepareStrictAppend index appended =>
    match world.graphs[index]? with
    | none => (none, world)
    | some graph =>
      match prepareStrictAppend recordId parentId index graph appended with
      | .error fault => (some fault, world)
      | .ok plan => (none, { world with plans := world.plans ++ [plan] })
  | .publishStrictAppend index planIndex =>
    match world.graphs[index]?, world.plans[planIndex]? with
    | some graph, some plan =>
      match publishStrictAppend world.heap index graph plan with
      | .error fault => (some fault, world)
      | .ok (heap, graph) => (none, World.replace { world with heap } index graph)
    | _, _ => (none, world)

variable (recordId parentId) in
def graphObjects : Machine (World R) (Operation R) (Option BranchFault) :=
  ⟨World.step recordId parentId⟩

variable (recordId parentId) in
/-- A plan for records its source still has in front. -/
structure PlanFits (world : World R) (plan : PreparedBranchAppend R) : Prop where
  names : plan.added.entries = named recordId plan.records
  links : plan.parents.entries = linked recordId parentId plan.records
  source : ∃ graph : BranchGraph R, world.graphs[plan.source]? = some graph ∧ plan.sourceCount ≤ graph.records.length ∧
    graphProblem recordId parentId (graph.records.take plan.sourceCount ++ plan.records) = none

variable (recordId parentId) in
structure WorldFits (world : World R) : Prop where
  graphs : ∀ graph ∈ world.graphs, Represents recordId parentId world.heap graph
  plans : ∀ plan ∈ world.plans, PlanFits recordId parentId world plan

/-- Every object that was there has grown, if it has changed at all. -/
structure Grown (world world' : World R) : Prop where
  heap : world.heap <+: world'.heap
  graphs : ∀ (index : Nat) (graph : BranchGraph R), world.graphs[index]? = some graph →
    ∃ graph' : BranchGraph R, world'.graphs[index]? = some graph' ∧ graph.records <+: graph'.records

theorem Grown.refl (world : World R) : Grown world world :=
  ⟨List.prefix_rfl, fun _ graph here => ⟨graph, here, List.prefix_rfl⟩⟩

variable {world world' : World R}

theorem Grown.trans {world'' : World R} (one : Grown world world') (two : Grown world' world'') :
    Grown world world'' where
  heap := one.heap.trans two.heap
  graphs index graph here := by
    obtain ⟨graph', there, more⟩ := one.graphs index graph here
    obtain ⟨graph'', there', more'⟩ := two.graphs index graph' there
    exact ⟨graph'', there', more.trans more'⟩

variable {plan : PreparedBranchAppend R}

theorem PlanFits.grown (grown : Grown world world') (fits : PlanFits recordId parentId world plan) :
    PlanFits recordId parentId world' plan where
  names := fits.names
  links := fits.links
  source := by
    obtain ⟨graph, here, counted, accepted⟩ := fits.source
    obtain ⟨graph', there, rest, more⟩ := grown.graphs _ graph here
    refine ⟨graph', there, ?_, ?_⟩
    · rw [← more, List.length_append]
      omega
    · rw [← more, List.take_append_of_le_length counted]
      exact accepted

variable {heap : Heap} {graph : BranchGraph R}

/-- A new graph object. -/
theorem WorldFits.push (fits : WorldFits recordId parentId world) (longer : world.heap <+: heap)
    (represents : Represents recordId parentId heap graph) :
    WorldFits recordId parentId { world with heap, graphs := world.graphs ++ [graph] } ∧
      Grown world { world with heap, graphs := world.graphs ++ [graph] } := by
  have grown : Grown world { world with heap, graphs := world.graphs ++ [graph] } := by
    refine ⟨longer, fun index old here => ⟨old, ?_, List.prefix_rfl⟩⟩
    obtain ⟨inside, _⟩ := List.getElem?_eq_some_iff.mp here
    exact (List.getElem?_append_left inside).trans here
  refine ⟨⟨fun other member => ?_, fun plan member => (fits.plans plan member).grown grown⟩, grown⟩
  rcases List.mem_append.mp member with member | only
  · exact (fits.graphs other member).frame longer
  · rw [List.mem_singleton.mp only]
    exact represents

/-- A graph object changes to one with more records. -/
theorem WorldFits.replace (fits : WorldFits recordId parentId world) {index : Nat} {graph' : BranchGraph R}
    (here : world.graphs[index]? = some graph) (longer : world.heap <+: heap)
    (represents : Represents recordId parentId heap graph') (more : graph.records <+: graph'.records) :
    WorldFits recordId parentId (World.replace { world with heap } index graph') ∧
      Grown world (World.replace { world with heap } index graph') := by
  have grown : Grown world (World.replace { world with heap } index graph') := by
    refine ⟨longer, fun other old there => ?_⟩
    obtain ⟨inside, _⟩ := List.getElem?_eq_some_iff.mp there
    simp only [World.replace, List.getElem?_set]
    by_cases same : index = other
    · subst same
      obtain rfl := Option.some.inj (here.symm.trans there)
      exact ⟨graph', by simp [inside], more⟩
    · exact ⟨old, by simp [same, there], List.prefix_rfl⟩
  refine ⟨⟨fun other member => ?_, fun plan member => (fits.plans plan member).grown grown⟩, grown⟩
  rcases List.mem_or_eq_of_mem_set member with member | rfl
  · exact (fits.graphs other member).frame longer
  · exact represents

/-- `path` twice. -/
theorem Represents.lowestCommonAncestor (represents : Represents recordId parentId heap graph)
    (leftId rightId : String) :
    Represents recordId parentId heap (graph.lowestCommonAncestor recordId leftId rightId).2 ∧
      (graph.lowestCommonAncestor recordId leftId rightId).2.records = graph.records := by
  obtain ⟨first, records, _⟩ := represents.path leftId
  obtain ⟨second, records', _⟩ := first.path rightId
  unfold BranchGraph.lowestCommonAncestor
  generalize graph.path leftId = one at *
  obtain ⟨answer, after⟩ := one
  cases answer with
  | error fault => exact ⟨first, records⟩
  | ok path =>
    simp only at *
    generalize after.path rightId = two at *
    obtain ⟨answer, final⟩ := two
    cases answer with
    | error fault => exact ⟨second, records'.trans records⟩
    | ok path' => exact ⟨second, records'.trans records⟩

/-- One operation. -/
theorem WorldFits.step {world : World R} (fits : WorldFits recordId parentId world)
    (operation : Operation R) :
    WorldFits recordId parentId (world.step recordId parentId operation).2 ∧
      Grown world (world.step recordId parentId operation).2 := by
  cases operation with
  | construct records =>
    have built := construct_strict recordId parentId world.heap records
    cases accepted : graphProblem recordId parentId records with
    | some problem =>
      rw [accepted] at built
      simp only at built
      simp only [World.step, built]
      exact ⟨fits, Grown.refl world⟩
    | none =>
      obtain ⟨heap, graph, done, longer, represents, _⟩ := construct_represents world.heap accepted
      simp only [World.step, done]
      exact fits.push longer represents
  | path index id =>
    simp only [World.step]
    cases here : world.graphs[index]? with
    | none => exact ⟨fits, Grown.refl world⟩
    | some graph =>
      obtain ⟨represents, records, _⟩ := (fits.graphs graph (List.mem_of_getElem? here)).path id
      exact fits.replace here List.prefix_rfl represents (records ▸ List.prefix_rfl)
  | lowestCommonAncestor index leftId rightId =>
    simp only [World.step]
    cases here : world.graphs[index]? with
    | none => exact ⟨fits, Grown.refl world⟩
    | some graph =>
      obtain ⟨represents, records⟩ :=
        (fits.graphs graph (List.mem_of_getElem? here)).lowestCommonAncestor leftId rightId
      exact fits.replace here List.prefix_rfl represents (records ▸ List.prefix_rfl)
  | withAppendedRecords index appended =>
    simp only [World.step]
    cases here : world.graphs[index]? with
    | none => exact ⟨fits, Grown.refl world⟩
    | some graph =>
      have extended := (fits.graphs graph (List.mem_of_getElem? here)).withAppendedRecords index appended
      cases accepted : graphProblem recordId parentId (graph.records ++ appended) with
      | some problem =>
        rw [accepted] at extended
        simp only at extended
        simp only [extended]
        exact ⟨fits, Grown.refl world⟩
      | none =>
        rw [accepted] at extended
        obtain ⟨heap, graph', done, longer, represents, _⟩ := extended
        simp only [done]
        exact fits.push longer represents
  | prepareStrictAppend index appended =>
    simp only [World.step]
    cases here : world.graphs[index]? with
    | none => exact ⟨fits, Grown.refl world⟩
    | some graph =>
      have prepared := prepare_strict (fits.graphs graph (List.mem_of_getElem? here)).listed index appended
      cases accepted : graphProblem recordId parentId (graph.records ++ appended) with
      | some problem =>
        rw [accepted] at prepared
        simp only at prepared
        simp only [prepared]
        exact ⟨fits, Grown.refl world⟩
      | none =>
        rw [accepted] at prepared
        obtain ⟨added, parents, names, links, done⟩ := prepared
        simp only [done]
        refine ⟨⟨fits.graphs, fun plan member => ?_⟩, List.prefix_rfl,
          fun _ old there => ⟨old, there, List.prefix_rfl⟩⟩
        rcases List.mem_append.mp member with member | only
        · exact ⟨(fits.plans plan member).names, (fits.plans plan member).links,
            (fits.plans plan member).source⟩
        · rw [List.mem_singleton.mp only]
          refine ⟨names, links, graph, here, Nat.le_refl _, ?_⟩
          rw [List.take_length]
          exact accepted
  | publishStrictAppend index planIndex =>
    simp only [World.step]
    cases here : world.graphs[index]? with
    | none => exact ⟨fits, Grown.refl world⟩
    | some graph =>
      cases there : world.plans[planIndex]? with
      | none => exact ⟨fits, Grown.refl world⟩
      | some plan =>
        simp only
        by_cases stale : plan.source ≠ index ∨ graph.records.length ≠ plan.sourceCount
        · rw [publishStrictAppend, if_pos stale]
          exact ⟨fits, Grown.refl world⟩
        · rw [not_or, not_not, not_not] at stale
          obtain ⟨rfl, counted⟩ := stale
          have planFits := fits.plans plan (List.mem_of_getElem? there)
          obtain ⟨source, found, _, accepted⟩ := planFits.source
          obtain rfl := Option.some.inj (here.symm.trans found)
          rw [← counted, List.take_length] at accepted
          obtain ⟨heap, graph', done, longer, represents, records⟩ :=
            (fits.graphs graph (List.mem_of_getElem? here)).publishStrictAppend rfl counted accepted
              planFits.names planFits.links
          simp only [done]
          exact fits.replace here longer represents (records ▸ List.prefix_append _ _)

/-- Any number of operations. -/
theorem WorldFits.final (fits : WorldFits recordId parentId world) (operations : List (Operation R)) :
    WorldFits recordId parentId ((graphObjects recordId parentId).final world operations) ∧
      Grown world ((graphObjects recordId parentId).final world operations) := by
  have start : WorldFits recordId parentId world ∧ Grown world world := ⟨fits, Grown.refl world⟩
  refine @Machine.final_of_invariant _ _ _ (graphObjects recordId parentId)
    (fun state => WorldFits recordId parentId state ∧ Grown world state) ?_ _ start operations
  rintro state operation ⟨fits', grown⟩
  obtain ⟨fits'', grown'⟩ := fits'.step operation
  exact ⟨fits'', grown.trans grown'⟩

theorem WorldFits.empty : WorldFits recordId parentId (World.empty : World R) where
  graphs _ member := absurd member List.not_mem_nil
  plans _ member := absurd member List.not_mem_nil

/-- A prepared extension, published after any operations that left the source as long. -/
theorem WorldFits.publishLater (fits : WorldFits recordId parentId world) {index : Nat}
    (here : world.graphs[index]? = some graph) {appended : List R}
    (prepared : prepareStrictAppend recordId parentId index graph appended = .ok plan)
    (accepted : graphProblem recordId parentId (graph.records ++ appended) = none)
    (later : List (Operation R)) {source : BranchGraph R} (there : ((graphObjects recordId parentId).final
      (world.step recordId parentId (.prepareStrictAppend index appended)).2 later).graphs[index]? =
        some source) (counted : source.records.length = graph.records.length) :
    ∃ heap published, publishStrictAppend ((graphObjects recordId parentId).final
        (world.step recordId parentId (.prepareStrictAppend index appended)).2 later).heap index source
          plan = .ok (heap, published) ∧
      Represents recordId parentId heap published ∧ published.records = graph.records ++ appended := by
  obtain ⟨fits', grown⟩ := fits.step (.prepareStrictAppend index appended)
  obtain ⟨fits'', grown'⟩ := fits'.final later
  obtain ⟨source', found, same⟩ := (grown.trans grown').graphs index graph here
  obtain rfl := Option.some.inj (there.symm.trans found)
  have records : source.records = graph.records := (same.eq_of_length counted.symm).symm
  have listed := (fits.graphs graph (List.mem_of_getElem? here)).listed
  have built := prepare_strict listed index appended
  rw [accepted] at built
  obtain ⟨added, parents, names, links, done⟩ := built
  cases prepared.symm.trans done
  have accepted' : graphProblem recordId parentId (source.records ++ appended) = none := by
    rw [records]
    exact accepted
  obtain ⟨heap, published, done', _, represents, records'⟩ :=
    @Represents.publishStrictAppend R recordId parentId _ source
      (fits''.graphs source (List.mem_of_getElem? there)) index
      ⟨index, graph.records.length, appended, added, parents⟩ rfl counted accepted' names links
  refine ⟨heap, published, done', represents, ?_⟩
  rw [records', records]

variable (recordId parentId) in
/-- Whatever was done before, every graph object answers as the graph built from its
records, and each of the two extensions refuses with the fault of building the longer
graph or answers as that graph, a prepared one also after further operations. -/
theorem graphs_answer_as_rebuilt (operations : List (Operation R)) (index : Nat)
    (graph : BranchGraph R) :
    let world := (graphObjects recordId parentId).final World.empty operations
    world.graphs[index]? = some graph →
      (∃ heap fresh, construct recordId parentId .strict world.heap graph.records = .ok (heap, fresh) ∧
        SameAnswers recordId world.heap graph heap fresh) ∧
      ∀ appended,
        match construct recordId parentId .strict world.heap (graph.records ++ appended) with
        | .error fault =>
          world.step recordId parentId (.withAppendedRecords index appended) = (some fault, world) ∧
          world.step recordId parentId (.prepareStrictAppend index appended) = (some fault, world)
        | .ok (heap, fresh) =>
          (∃ heap' extended,
            withAppendedRecords recordId parentId world.heap index graph appended =
              .ok (heap', extended) ∧
            extended.records = graph.records ++ appended ∧
            SameAnswers recordId heap' extended heap fresh) ∧
          ∃ plan, prepareStrictAppend recordId parentId index graph appended = .ok plan ∧
            ∀ later source,
              let world' := (graphObjects recordId parentId).final
                (world.step recordId parentId (.prepareStrictAppend index appended)).2 later
              world'.graphs[index]? = some source →
              source.records.length = graph.records.length →
              ∃ heap' published,
                publishStrictAppend world'.heap index source plan = .ok (heap', published) ∧
                published.records = graph.records ++ appended ∧
                SameAnswers recordId heap' published heap fresh := by
  intro world here
  have fits : WorldFits recordId parentId world := (WorldFits.empty.final operations).1
  have represents := fits.graphs graph (List.mem_of_getElem? here)
  constructor
  · obtain ⟨heap, fresh, built, _, rebuilt, records⟩ :=
      construct_represents world.heap represents.listed.accepted
    exact ⟨heap, fresh, built, represents.sameAnswers rebuilt records.symm⟩
  · intro appended
    have extended := represents.withAppendedRecords index appended
    have prepared := prepare_strict represents.listed index appended
    cases accepted : graphProblem recordId parentId (graph.records ++ appended) with
    | some problem =>
      have refused := construct_strict recordId parentId world.heap
        (graph.records ++ appended)
      rw [accepted] at extended prepared refused
      simp only at extended prepared refused
      rw [refused]
      simp only [World.step, here, extended, prepared, and_self]
    | none =>
      obtain ⟨heap, fresh, built, _, rebuilt, records⟩ := construct_represents world.heap accepted
      rw [accepted] at extended prepared
      obtain ⟨heap', graph', done, _, represents', records'⟩ := extended
      obtain ⟨added, parents, _, _, planned⟩ := prepared
      rw [built]
      refine ⟨⟨heap', graph', done, records', represents'.sameAnswers rebuilt (records'.trans records.symm)⟩,
        _, planned, ?_⟩
      intro later source world' there counted
      obtain ⟨heap'', published, done', represents'', records''⟩ :=
        fits.publishLater here planned accepted later there counted
      exact ⟨heap'', published, done', records'',
        represents''.sameAnswers rebuilt (records''.trans records.symm)⟩

end

/-- A snapshot, a query of the older graph and a publication into it. -/
def forkOperations : List (Operation (String × Option String)) :=
  [.construct [("a", none), ("b", some "a")], .path 0 "b", .withAppendedRecords 0 [("c", some "a")],
    .prepareStrictAppend 0 [("d", some "b")], .publishStrictAppend 0 0]

/-- The snapshot keeps its answers while its source changes. -/
theorem graphs_answer_as_rebuilt_fork :
    ∃ graph, ((graphObjects Prod.fst Prod.snd).final World.empty forkOperations).graphs[1]? = some graph ∧
      ∃ heap fresh, construct Prod.fst Prod.snd .strict
          ((graphObjects Prod.fst Prod.snd).final World.empty forkOperations).heap graph.records =
            .ok (heap, fresh) ∧
        SameAnswers Prod.fst ((graphObjects Prod.fst Prod.snd).final World.empty forkOperations).heap graph
          heap fresh := by
  have inside : 1 < ((graphObjects Prod.fst Prod.snd).final World.empty forkOperations).graphs.length := by
    decide
  have here := List.getElem?_eq_getElem inside
  exact ⟨_, here, (graphs_answer_as_rebuilt Prod.fst Prod.snd forkOperations 1 _ here).1⟩

end Loushang.Branch
