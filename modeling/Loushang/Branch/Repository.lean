import Loushang.Branch.Snapshots
import Loushang.Lib.ParentCycles

/-!
# What a conversation repository reads off its graph

`branch_delta` of `conversation/repository.py`: the records on the way to one record that
another record's path does not share.
-/
namespace Loushang.Branch
open Loushang.Lib

section

variable {R : Type} (recordId : R → String) (parentId : R → Option String)

structure BranchDelta (R : Type) where
  fromId : String
  targetId : String
  commonAncestorId : Option String
  divergentRecords : List R

/-- `branch_delta`; nothing where `next` would find no position. -/
def BranchGraph.branchDelta (graph : BranchGraph R) (fromId targetId : String) :
    Except BranchFault (Option (BranchDelta R)) × BranchGraph R :=
  match graph.lowestCommonAncestor recordId fromId targetId with
  | (.error fault, graph) => (.error fault, graph)
  | (.ok ancestor, graph) =>
    let ancestorId := ancestor.map recordId
    match graph.path fromId with
    | (.error fault, graph) => (.error fault, graph)
    | (.ok path, graph) =>
      match ancestorId with
      | none => (.ok (some ⟨fromId, targetId, none, path⟩), graph)
      | some id =>
        (.ok ((path.findIdx? fun record => recordId record = id).map fun position =>
          ⟨fromId, targetId, some id, path.drop (position + 1)⟩), graph)

/-- The longest common front of two lists decides `lowest_common_ancestor`. -/
theorem lastCommon_zip (common : Option String) (left right : List String) :
    ∃ front, front <+: left ∧ front <+: right ∧
      (∀ other, other <+: left → other <+: right → other <+: front) ∧
      lastCommon common (left.zip right) = front.getLast?.or common := by
  induction left generalizing common right with
  | nil => exact ⟨[], List.prefix_rfl, List.nil_prefix, fun _ part _ => part, rfl⟩
  | cons a left ih =>
    cases right with
    | nil => exact ⟨[], List.nil_prefix, List.prefix_rfl, fun _ _ part => part, rfl⟩
    | cons b right =>
      rw [List.zip_cons_cons, lastCommon]
      by_cases same : a = b
      · subst same
        obtain ⟨front, part, part', longest, last⟩ := ih (some a) right
        rw [if_neg (not_not.mpr rfl), last]
        refine ⟨a :: front, (List.prefix_cons_inj a).mpr part, (List.prefix_cons_inj a).mpr part', ?_, ?_⟩
        · rintro (_ | ⟨c, other⟩) here here'
          · exact List.nil_prefix
          · obtain ⟨rfl, below⟩ := List.cons_prefix_cons.mp here
            exact (List.prefix_cons_inj c).mpr (longest other below (List.cons_prefix_cons.mp here').2)
        · rw [List.getLast?_cons]
          cases front.getLast? <;> rfl
      · rw [if_pos same]
        refine ⟨[], List.nil_prefix, List.nil_prefix, ?_, rfl⟩
        rintro (_ | ⟨c, other⟩) here here'
        · exact List.nil_prefix
        · have first := (List.cons_prefix_cons.mp here).1
          exact absurd (first.symm.trans (List.cons_prefix_cons.mp here').1) same

variable {recordId parentId}
variable {heap : Heap} {graph : BranchGraph R} {id : String}

/-- The ids of a path are the line of its record. -/
theorem PathOf.lineage {records : List R} {path : List R} (sound : Sound recordId parentId records)
    (pathOf : PathOf recordId parentId records id path) :
    Lineage (linkOf recordId parentId records) id (path.map recordId) := by
  obtain ⟨line, member, lineage, rfl⟩ := pathOf
  have inside := lineage.subset sound.closing member
  have names : ∀ a ∈ line, (find recordId records a).map recordId = some a := by
    intro a here
    obtain ⟨record, found⟩ := Option.ne_none_iff_exists'.mp (mt (find_eq_none recordId).mp (not_not.mpr (inside here)))
    rw [found, Option.map_some, (recordId_of_find recordId found).1]
  rw [List.map_filterMap, List.filterMap_congr names, List.filterMap_some]
  exact lineage

theorem Represents.path_of_mem (represents : Represents recordId parentId heap graph)
    (member : id ∈ ids recordId graph.records) :
    Represents recordId parentId heap (graph.path id).2 ∧ (graph.path id).2.records = graph.records ∧
      ∃ path, (graph.path id).1 = .ok path ∧ PathOf recordId parentId graph.records id path := by
  obtain ⟨represents', same, ⟨absent, _⟩ | ⟨path, pathOf, answer⟩⟩ := represents.path id
  · exact absurd member absent
  · exact ⟨represents', same, path, answer, pathOf⟩

/-- The position of the last shared record, and what follows it. -/
theorem drop_shared {path : List R} {front : List String} (nodup : (path.map recordId).Nodup)
    (part : front <+: path.map recordId) {last : String} (ends : front.getLast? = some last) :
    ((path.findIdx? fun record => recordId record = last).map fun position => path.drop (position + 1)) =
      some (path.drop front.length) := by
  obtain ⟨before, rfl⟩ := List.getLast?_eq_some_iff.mp ends
  obtain ⟨after, split⟩ := part
  obtain ⟨shared, divergent, rfl, names, _⟩ := List.map_eq_append_iff.mp split.symm
  obtain ⟨early, final, rfl, earlier, only⟩ := List.map_eq_append_iff.mp names
  obtain ⟨record, rfl, rfl⟩ := List.map_eq_singleton_iff.mp only
  have absent : early.findIdx? (fun other => recordId other = recordId record) = none := by
    rw [List.findIdx?_eq_none_iff]
    intro other member
    rw [List.map_append, List.map_append, List.append_assoc, List.nodup_append] at nodup
    exact decide_eq_false (nodup.2.2 _ (List.mem_map_of_mem member) _ List.mem_cons_self)
  rw [List.append_assoc, List.findIdx?_append, absent]
  simp [← earlier, List.findIdx?_cons]

variable (recordId parentId) in
/-- Whatever was done before, `branch_delta` splits the path to the first record where the
path to the second leaves it: the front is what lies above both, the last of it is below
all of these, and the rest diverges. -/
theorem branchDelta_diverges (operations : List (Operation R)) (index : Nat) (graph : BranchGraph R) :
    let world := (graphObjects recordId parentId).final World.empty operations
    let up := Above (linkOf recordId parentId graph.records)
    world.graphs[index]? = some graph → ∀ fromId ∈ ids recordId graph.records,
      ∀ targetId ∈ ids recordId graph.records,
        ∃ delta shared, (graph.branchDelta recordId fromId targetId).1 = .ok (some delta) ∧
          (graph.path fromId).1 = .ok (shared ++ delta.divergentRecords) ∧
          (∀ id, id ∈ ids recordId shared ↔ up fromId id ∧ up targetId id) ∧
          delta.commonAncestorId = (ids recordId shared).getLast? ∧
          ∀ common, delta.commonAncestorId = some common → ∀ id ∈ ids recordId shared, up common id := by
  intro world up here fromId member targetId member'
  have fits : WorldFits recordId parentId world := (WorldFits.empty.final operations).1
  have represents := fits.graphs graph (List.mem_of_getElem? here)
  have sound := sound_of_graphProblem represents.listed.accepted
  obtain ⟨represents', same, path, found, pathOf⟩ := represents.path_of_mem member
  obtain ⟨represents'', same', path', found', pathOf'⟩ := represents'.path_of_mem (same ▸ member')
  obtain ⟨_, _, again, found'', pathOf''⟩ := represents''.path_of_mem (same' ▸ same ▸ member)
  have names : ((graph.path fromId).2.path targetId).2.byId.get? = find recordId graph.records := by
    funext id
    rw [get?_of_named represents''.listed.byId, same', same]
  rw [same', same] at pathOf''
  rw [same] at pathOf'
  obtain rfl := pathOf''.unique pathOf
  have line := pathOf.lineage sound
  have line' := pathOf'.lineage sound
  obtain ⟨front, part, part', longest, last⟩ := lastCommon_zip none (again.map recordId) (path'.map recordId)
  rw [Option.or_none] at last
  have shared : ids recordId (again.take front.length) = front := by
    rw [ids, List.map_take]
    exact (List.prefix_iff_eq_take.mp part).symm
  have answer : (graph.branchDelta recordId fromId targetId).1 =
      .ok (some ⟨fromId, targetId, front.getLast?, again.drop front.length⟩) := by
    unfold BranchGraph.branchDelta BranchGraph.lowestCommonAncestor
    generalize graph.path fromId = first at *
    obtain ⟨_, after⟩ := first
    obtain rfl := found
    simp only at *
    generalize after.path targetId = second at *
    obtain ⟨_, final⟩ := second
    obtain rfl := found'
    simp only at *
    rw [last, names]
    generalize final.path fromId = third at *
    obtain ⟨_, _⟩ := third
    obtain rfl := found''
    cases ends : front.getLast? with
    | none =>
      rw [List.getLast?_eq_none_iff.mp ends]
      rfl
    | some common =>
      have inside := line.subset sound.closing member (part.subset (List.mem_of_getLast? ends))
      obtain ⟨record, held⟩ := Option.ne_none_iff_exists'.mp
        (mt (find_eq_none recordId).mp (not_not.mpr inside))
      simp only [Option.bind_some, held, Option.map_some, (recordId_of_find recordId held).1]
      obtain ⟨position, index, rest⟩ := Option.map_eq_some_iff.mp (drop_shared line.nodup part ends)
      rw [index, Option.map_some, rest]
  refine ⟨_, again.take front.length, answer, ?_, ?_, ?_, ?_⟩
  · rw [List.take_append_drop]
    exact found
  · intro id
    rw [shared]
    exact (line.mem_front line' part part' longest).trans (and_congr line.mem_iff line'.mem_iff)
  · rw [shared]
  · intro common ends id inside
    rw [shared] at inside
    exact (line.of_prefix part ends).mem_iff.mp inside

end

/-- The record the snapshot has beside the one it forked from. -/
theorem branchDelta_diverges_fork :
    ∃ graph, ((graphObjects Prod.fst Prod.snd).final World.empty forkOperations).graphs[1]? = some graph ∧
      ∃ delta, (graph.branchDelta Prod.fst "b" "c").1 = .ok (some delta) ∧
        delta.commonAncestorId = some "a" := by
  have here := List.getElem?_eq_getElem
    (show 1 < ((graphObjects Prod.fst Prod.snd).final World.empty forkOperations).graphs.length by decide)
  obtain ⟨delta, shared, answer, _⟩ :=
    branchDelta_diverges Prod.fst Prod.snd forkOperations 1 _ here "b" (by decide) "c" (by decide)
  refine ⟨_, here, delta, answer, ?_⟩
  cases answer
  rfl

end Loushang.Branch
