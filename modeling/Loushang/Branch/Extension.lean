import Loushang.Branch.ChildLists

/-!
# What a graph answers

A graph that lists its records, reads their children and caches a right path answers
every query as its records say, so two such graphs over the same records agree.
-/
namespace Loushang.Branch
open Loushang.Lib

section

variable {R : Type} (recordId : R → String) (parentId : R → Option String)

/-- The path to a record, by the records alone. -/
def PathOf (records : List R) (id : String) (path : List R) : Prop :=
  ∃ line, id ∈ ids recordId records ∧ Lineage (linkOf recordId parentId records) id line ∧
    path = line.filterMap (find recordId records)

structure Represents (heap : Heap) (graph : BranchGraph R) : Prop where
  listed : Listed recordId parentId graph
  bound : ∀ id ref, graph.children.get? id = some ref → ref < heap.length
  reads : ∀ id, (ChildLists.mk heap graph.children).read id =
    linksTo (linked recordId parentId graph.records) id
  cache : ∀ id path, graph.pathCache = some (id, path) → PathOf recordId parentId graph.records id path

variable {recordId parentId}

theorem PathOf.unique {records : List R} {id : String} {path path' : List R}
    (one : PathOf recordId parentId records id path) (other : PathOf recordId parentId records id path') :
    path = path' := by
  obtain ⟨line, _, lineage, rfl⟩ := one
  obtain ⟨line', _, lineage', rfl⟩ := other
  rw [lineage.unique lineage']

/-- A path is not changed by appended records. -/
theorem PathOf.append {front : List R} (sound : Sound recordId parentId front) (back : List R)
    {id : String} {path : List R} (pathOf : PathOf recordId parentId front id path) :
    PathOf recordId parentId (front ++ back) id path := by
  obtain ⟨line, member, lineage, rfl⟩ := pathOf
  have inside := lineage.subset sound.closing member
  refine ⟨line, ?_, lineage.congr fun b here => linkOf_append_left back (inside here), ?_⟩
  · rw [ids_append]
    exact List.mem_append_left _ member
  · exact List.filterMap_congr fun b here => (find_append_left recordId back (inside here)).symm

variable {graph : BranchGraph R}

/-- Older lists do not change, so a graph is read as before. -/
theorem Represents.frame {heap heap' : Heap} (represents : Represents recordId parentId heap graph)
    (longer : heap <+: heap') : Represents recordId parentId heap' graph where
  listed := represents.listed
  bound id ref here := Nat.lt_of_lt_of_le (represents.bound id ref here) longer.length_le
  reads id := by
    rw [← represents.reads id]
    unfold ChildLists.read
    cases here : graph.children.get? id with
    | none => rfl
    | some ref =>
      obtain ⟨rest, rfl⟩ := longer
      simp [List.getElem?_append_left (represents.bound id ref here)]
  cache := represents.cache

/-! ## Paths -/

/-- Climbing ends at the cached path or at the root, and both give the line. -/
theorem climb_lineage {parent : String → Option String} {record : String → Option R}
    {cached : Option (String × List R)}
    (right : ∀ id front, cached = some (id, front) →
      ∃ line, Lineage parent id line ∧ front = line.filterMap record)
    {current : String} {line : List String} (lineage : Lineage parent current line)
    {fuel : Nat} (enough : line.length ≤ fuel) {passed : List String}
    (new : ∀ id ∈ line, id ∉ passed) :
    ∃ rest, (climb parent cached fuel passed (some current)).2 = passed ++ rest ∧
      (climb parent cached fuel passed (some current)).1 ++ rest.reverse.filterMap record =
        line.filterMap record := by
  have hit : ∀ {a : String} {line : List String} {front : List R}, Lineage parent a line →
      cached = some (a, front) → front = line.filterMap record := by
    intro a line front lineage held
    obtain ⟨line', lineage', rfl⟩ := right a front held
    rw [lineage'.unique lineage]
  induction lineage generalizing fuel passed with
  | @root a top =>
    cases fuel with
    | zero => simp at enough
    | succ fuel =>
      have here := new a List.mem_cons_self
      cases held : cached with
      | none =>
        refine ⟨[a], ?_⟩
        simp [climb, here, top]
      | some entry =>
        obtain ⟨id, front⟩ := entry
        by_cases same : a = id
        · subst same
          refine ⟨[], ?_⟩
          simp [climb, here, hit (.root top) held]
        · refine ⟨[a], ?_⟩
          simp [climb, here, same, top]
  | @child a b line link above ih =>
    cases fuel with
    | zero => simp at enough
    | succ fuel =>
      have here := new a (by simp)
      have distinct := (Lineage.child link above).nodup
      have later := @ih fuel (by simpa using enough) (passed ++ [a]) (by
        intro id member
        rw [List.mem_append, List.mem_singleton]
        rintro (before | rfl)
        · exact new id (List.mem_append_left _ member) before
        · exact (List.nodup_append.mp distinct).2.2 id member id List.mem_cons_self rfl)
      obtain ⟨rest, ends, joined⟩ := later
      have through : climb parent cached (fuel + 1) passed (some a) =
          climb parent cached fuel (passed ++ [a]) (some b) →
          ∃ rest, (climb parent cached (fuel + 1) passed (some a)).2 = passed ++ rest ∧
            (climb parent cached (fuel + 1) passed (some a)).1 ++ rest.reverse.filterMap record =
              (line ++ [a]).filterMap record := by
        intro step
        refine ⟨a :: rest, ?_, ?_⟩
        · rw [step, ends, List.append_assoc]
          rfl
        · rw [step, List.reverse_cons, List.filterMap_append, ← List.append_assoc, joined,
            List.filterMap_append]
      cases held : cached with
      | none =>
        rw [held] at through
        exact through (by simp [climb, here, link])
      | some entry =>
        obtain ⟨id, front⟩ := entry
        by_cases same : a = id
        · subst same
          refine ⟨[], ?_⟩
          simp [climb, here, hit (.child link above) held]
        · rw [held] at through
          exact through (by simp [climb, here, same, link])

/-- `path` answers by the records, and what it caches is right. -/
theorem Represents.path {heap : Heap} (represents : Represents recordId parentId heap graph) (id : String) :
    Represents recordId parentId heap (graph.path id).2 ∧ (graph.path id).2.records = graph.records ∧
      ((id ∉ ids recordId graph.records ∧ (graph.path id).1 = .error (recordNotFound id)) ∨
        ∃ path, PathOf recordId parentId graph.records id path ∧ (graph.path id).1 = .ok path) := by
  have sound := sound_of_graphProblem represents.listed.accepted
  unfold BranchGraph.path
  rw [keys_of_named represents.listed.byId]
  by_cases member : id ∈ ids recordId graph.records
  · rw [if_neg (not_not.mpr member)]
    cases cached : graph.pathCache.filter fun cached => cached.1 = id with
    | some entry =>
      obtain ⟨held, same⟩ := Option.filter_eq_some_iff.mp cached
      obtain rfl := of_decide_eq_true same
      exact ⟨represents, rfl, Or.inr ⟨entry.2, represents.cache entry.1 entry.2 held, rfl⟩⟩
    | none =>
      obtain ⟨line, lineage⟩ := sound.lineage member
      have parents : parentOf graph.parents = linkOf recordId parentId graph.records :=
        funext (parentOf_of_linked represents.listed.parents)
      have records : graph.byId.get? = find recordId graph.records :=
        funext (get?_of_named represents.listed.byId)
      have short : line.length ≤ graph.sourceOrder.length + 1 := by
        rw [represents.listed.sourceOrder]
        have := (List.subperm_of_subset lineage.nodup (lineage.subset sound.closing member)).length_le
        omega
      have right : ∀ id front, graph.pathCache = some (id, front) →
          ∃ line, Lineage (parentOf graph.parents) id line ∧
            front = line.filterMap graph.byId.get? := by
        intro id front held
        obtain ⟨line, _, lineage, same⟩ := represents.cache id front held
        rw [parents, records]
        exact ⟨line, lineage, same⟩
      obtain ⟨rest, ends, joined⟩ := climb_lineage right (parents ▸ lineage) short
        (fun id _ => List.not_mem_nil)
      have pathOf : PathOf recordId parentId graph.records id
          ((climb (parentOf graph.parents) graph.pathCache (graph.sourceOrder.length + 1) []
            (some id)).1 ++
            (climb (parentOf graph.parents) graph.pathCache (graph.sourceOrder.length + 1) []
              (some id)).2.reverse.filterMap graph.byId.get?) := by
        refine ⟨line, member, lineage, ?_⟩
        rw [ends, List.nil_append, joined, records]
      refine ⟨⟨represents.listed.withCache _, represents.bound, represents.reads, ?_⟩, rfl,
        Or.inr ⟨_, pathOf, rfl⟩⟩
      rintro _ _ ⟨⟩
      exact pathOf
  · rw [if_pos member]
    exact ⟨represents, rfl, Or.inl ⟨member, rfl⟩⟩

end

/-!
## Construction and extension keep graphs right

Each of the three ways to get a strict graph (construction, a detached extension,
publication of a prepared one) leaves a graph that represents its records, on a heap
where every older graph is read as before.
-/

section

variable {R : Type} {recordId : R → String} {parentId : R → Option String}

theorem linksTo_append (front back : List (String × Option String)) (parent : String) :
    linksTo (front ++ back) parent = linksTo front parent ++ linksTo back parent := by
  simp [linksTo]

@[simp] theorem linked_append (front back : List R) :
    linked recordId parentId (front ++ back) =
      linked recordId parentId front ++ linked recordId parentId back :=
  List.map_append

@[simp] theorem named_append (front back : List R) :
    named recordId (front ++ back) = named recordId front ++ named recordId back :=
  List.map_append

variable {records : List R}

/-- Only ids of the records have children. -/
theorem linksTo_eq_nil (sound : Sound recordId parentId records) {parent : String}
    (absent : parent ∉ ids recordId records) : linksTo (linked recordId parentId records) parent = [] := by
  rw [linksTo, List.map_eq_nil_iff, List.filter_eq_nil_iff]
  intro link member
  obtain ⟨record, here, rfl⟩ := List.mem_map.mp member
  rw [decide_eq_true_eq]
  intro target
  exact absent (sound.links record here parent target).1

theorem linked_of_ids (nodup : (ids recordId records).Nodup) :
    (ids recordId records).map (fun id => (id, linkOf recordId parentId records id)) =
      linked recordId parentId records := by
  rw [ids, linked, List.map_map]
  refine List.map_congr_left fun record member => ?_
  simp [linkOf, find_of_mem recordId nodup member]

/-! ## Construction -/

theorem buildChildren_reads (heap : Heap) (sound : Sound recordId parentId records)
    {parents : Dict String (Option String)} (entries : parents.entries = linked recordId parentId records) :
    Owning heap (buildChildren heap (ids recordId records) parents) ∧
      ∀ id, (buildChildren heap (ids recordId records) parents).read id =
        linksTo (linked recordId parentId records) id := by
  have start : Owning heap ⟨heap, .empty⟩ := Owning.start (by simp)
  obtain ⟨owning, mine, _, empty⟩ := start.freshAll (ids recordId records)
  have links : ∀ link ∈ linked recordId parentId records, ∀ parent, link.2 = some parent →
      Mine heap (freshAll ⟨heap, .empty⟩ (ids recordId records)) parent := by
    intro link member parent target
    obtain ⟨record, here, rfl⟩ := List.mem_map.mp member
    exact mine parent (sound.links record here parent target).1
  have attached := owning.attachOwn (linked recordId parentId records) links
  have same : buildChildren heap (ids recordId records) parents =
      (linked recordId parentId records).foldl attachOwn
        (freshAll ⟨heap, .empty⟩ (ids recordId records)) := by
    rw [← linked_of_ids sound.nodup, buildChildren,
      show parentOf parents = linkOf recordId parentId records from
        funext (parentOf_of_linked entries)]
    rfl
  rw [same]
  refine ⟨attached.1, fun id => ?_⟩
  have nothing : (freshAll ⟨heap, .empty⟩ (ids recordId records)).read id = [] := by
    rw [empty id]
    split <;> rfl
  rw [attached.2 id, nothing, List.nil_append]

/-- A strict graph over sound records. -/
theorem construct_represents (heap : Heap) (accepted : graphProblem recordId parentId records = none) :
    ∃ heap' graph, construct recordId parentId .strict heap records = .ok (heap', graph) ∧
      heap <+: heap' ∧ Represents recordId parentId heap' graph ∧ graph.records = records := by
  have built := construct_strict recordId parentId heap records
  rw [accepted] at built
  obtain ⟨byId, parents, names, links, built⟩ := built
  obtain ⟨owning, reads⟩ := buildChildren_reads heap (sound_of_graphProblem accepted) links
  refine ⟨_, _, built, owning.frame, ⟨?_, owning.bound, reads, ?_⟩, rfl⟩
  · exact ⟨rfl, rfl, names, rfl, links, accepted⟩
  · rintro _ _ ⟨⟩

/-! ## Extension -/

/-- The graph after either extension, once its lists read right. -/
theorem Represents.extend {heap : Heap} {graph : BranchGraph R}
    (represents : Represents recordId parentId heap graph) {appended : List R}
    (accepted : graphProblem recordId parentId (graph.records ++ appended) = none)
    {added : Dict String R} {parents : Dict String (Option String)}
    (names : added.entries = named recordId appended)
    (links : parents.entries = linked recordId parentId appended) {lists : ChildLists}
    (owning : Owning heap lists)
    (reads : ∀ id, lists.read id = (freshAll ⟨heap, graph.children⟩ added.keys).read id ++
      linksTo parents.entries id) :
    Represents recordId parentId lists.heap { graph with
      records := graph.records ++ appended
      sourceOrder := graph.sourceOrder ++ added.keys
      byId := graph.byId.update added.entries
      parents := graph.parents.update parents.entries
      children := lists.refs } := by
  have sound := sound_of_graphProblem represents.listed.accepted
  have nodup := (sound_of_graphProblem accepted).nodup
  rw [ids_append] at nodup
  obtain ⟨_, distinct, apart⟩ := List.nodup_append.mp nodup
  refine ⟨⟨represents.listed.mode, represents.listed.diagnostics, ?_, ?_, ?_, accepted⟩, owning.bound,
    fun id => ?_, ?_⟩
  · rw [Dict.entries_update_of_disjoint added.nodup, represents.listed.byId, names, named_append]
    intro key member
    rw [keys_of_named represents.listed.byId]
    change key ∈ added.keys at member
    rw [keys_of_named names] at member
    exact fun before => apart key before key member rfl
  · rw [represents.listed.sourceOrder, keys_of_named names, ids_append]
  · rw [Dict.entries_update_of_disjoint parents.nodup, represents.listed.parents, links, linked_append]
    intro key member
    rw [keys_of_linked represents.listed.parents]
    change key ∈ parents.keys at member
    rw [keys_of_linked links] at member
    exact fun before => apart key before key member rfl
  · have before : (freshAll ⟨heap, graph.children⟩ added.keys).read id =
        linksTo (linked recordId parentId graph.records) id := by
      rw [((Owning.start represents.bound).freshAll added.keys).2.2.2 id, represents.reads id]
      split
      · next new =>
        rw [keys_of_named names] at new
        exact (linksTo_eq_nil sound fun old => apart id old id new rfl).symm
      · rfl
    have after := reads id
    rw [before, links, ← linksTo_append, ← linked_append] at after
    exact after
  · intro id path cached
    exact (represents.cache id path cached).append sound appended

/-- A detached extension fails with the problem of all records, or represents them. -/
theorem Represents.withAppendedRecords {heap : Heap} {graph : BranchGraph R}
    (represents : Represents recordId parentId heap graph) (source : Nat) (appended : List R) :
    match graphProblem recordId parentId (graph.records ++ appended) with
    | some problem =>
      withAppendedRecords recordId parentId heap source graph appended = .error (.graph problem)
    | none => ∃ heap' graph',
        withAppendedRecords recordId parentId heap source graph appended = .ok (heap', graph') ∧
        heap <+: heap' ∧ Represents recordId parentId heap' graph' ∧
        graph'.records = graph.records ++ appended := by
  have prepared := prepare_strict represents.listed source appended
  unfold Branch.withAppendedRecords
  rw [if_neg (not_not.mpr represents.listed.mode)]
  cases problem : graphProblem recordId parentId (graph.records ++ appended) with
  | some problem' =>
    rw [problem] at prepared
    rw [prepared]
  | none =>
    rw [problem] at prepared
    obtain ⟨added, parents, names, links, done⟩ := prepared
    rw [done]
    obtain ⟨owning, mine, _, _⟩ := (Owning.start represents.bound).freshAll added.keys
    have attached := @Owning.attachDetached R _ _ owning added [] (by simpa using mine) parents.entries
    exact ⟨_, _, rfl, attached.1.frame, represents.extend problem names links attached.1 attached.2, rfl⟩

/-- Publication of a plan for this graph's records. -/
theorem Represents.publishStrictAppend {heap : Heap} {graph : BranchGraph R}
    (represents : Represents recordId parentId heap graph) {self : Nat} {plan : PreparedBranchAppend R}
    (mine : plan.source = self) (count : graph.records.length = plan.sourceCount)
    (accepted : graphProblem recordId parentId (graph.records ++ plan.records) = none)
    (names : plan.added.entries = named recordId plan.records)
    (links : plan.parents.entries = linked recordId parentId plan.records) :
    ∃ heap' graph', publishStrictAppend heap self graph plan = .ok (heap', graph') ∧
      heap <+: heap' ∧ Represents recordId parentId heap' graph' ∧
      graph'.records = graph.records ++ plan.records := by
  unfold Branch.publishStrictAppend
  rw [if_neg (by simp [mine, count])]
  obtain ⟨owning, _⟩ := (Owning.start represents.bound).freshAll plan.added.keys
  have attached := owning.attachPublished plan.parents.entries
  exact ⟨_, _, rfl, attached.1.frame, represents.extend accepted names links attached.1 attached.2, rfl⟩

end

end Loushang.Branch
