import Loushang.Branch.Extension

/-!
# The conversation repository

`conversation/repository.py` in its strict mode: a branch graph with a selected leaf. A repository
object owns one graph object, so one number identifies both. The header is left out.
-/
namespace Loushang.UnitOfWork
open Loushang.Lib Loushang.Branch

structure Repository (R : Type) where
  object : Nat
  records : List R
  graph : BranchGraph R
  leafId : Option String

/-- `PreparedRepositoryAppend`. -/
structure PreparedRepositoryAppend (R : Type) where
  source : Nat
  graph : PreparedBranchAppend R
  selectedLeafId : Option String
  lastRecordId : Option String

def conversationRecordNotFound (id : String) : BranchFault := .value ("Conversation record " ++ id ++ " not found")

section

variable {R : Type} (recordId : R → String) (parentId : R → Option String)

/-- The leaf after records were appended: the last of them, if there are any. -/
def lastId (appended : List R) (leafId : Option String) : Option String :=
  (appended.getLast?.map recordId).or leafId

/-- The path to a leaf, by the records alone; no leaf has no path. -/
def PathTo (records : List R) : Option String → List R → Prop
  | none, path => path = []
  | some id, path => PathOf recordId parentId records id path

namespace Repository

/-- `_resolve_initial_leaf`. -/
def resolveInitialLeaf (graph : BranchGraph R) (records : List R) :
    Option String → Except BranchFault (Option String)
  | some id => if (graph.byId.get? id).isNone then .error (conversationRecordNotFound id) else .ok (some id)
  | none =>
    match records.getLast? with
    | none => .ok none
    | some last => .ok (if (graph.byId.get? (recordId last)).isSome then some (recordId last) else none)

/-- `create`. -/
def create (heap : Heap) (object : Nat) (records : List R) (leafId : Option String) :
    Except BranchFault (Heap × Repository R) :=
  match construct recordId parentId .strict heap records with
  | .error fault => .error fault
  | .ok (heap, graph) =>
    match resolveInitialLeaf recordId graph records leafId with
    | .error fault => .error fault
    | .ok leaf => .ok (heap, ⟨object, records, graph, leaf⟩)

/-- `with_appended_records`: a new repository object. -/
def withAppendedRecords (heap : Heap) (object : Nat) (repository : Repository R) (appended : List R) :
    Except BranchFault (Heap × Repository R) :=
  match Branch.withAppendedRecords recordId parentId heap repository.object repository.graph appended with
  | .error fault => .error fault
  | .ok (heap, graph) =>
    .ok (heap, ⟨object, repository.records ++ appended, graph, lastId recordId appended repository.leafId⟩)

/-- `prepare_incremental_append`. -/
def prepareIncrementalAppend (repository : Repository R) (appended : List R) :
    Except BranchFault (PreparedRepositoryAppend R) :=
  match prepareStrictAppend recordId parentId repository.object repository.graph appended with
  | .error fault => .error fault
  | .ok graph =>
    .ok ⟨repository.object, graph, repository.leafId, lastId recordId graph.records repository.leafId⟩

/-- `publish_incremental_append`. -/
def publishIncrementalAppend (heap : Heap) (repository : Repository R) (plan : PreparedRepositoryAppend R) :
    Except BranchFault (Heap × Repository R) :=
  if plan.source ≠ repository.object ∨ repository.leafId ≠ plan.selectedLeafId then
    .error (.runtime "conversation selection changed before publication")
  else
    match publishStrictAppend heap repository.object repository.graph plan.graph with
    | .error fault => .error fault
    | .ok (heap, graph) =>
      .ok (heap, { repository with
        records := repository.records ++ plan.graph.records
        graph
        leafId := plan.lastRecordId })

variable (repository : Repository R)

def get (id : String) : Option R := repository.graph.byId.get? id

/-- `branch`. -/
def branch (id : String) : Except BranchFault (Repository R) :=
  if (repository.get id).isNone then .error (conversationRecordNotFound id)
  else .ok { repository with leafId := some id }

/-- `reset_branch`. -/
def resetBranch : Repository R := { repository with leafId := none }

/-- `records_to`; the graph remembers the path. -/
def recordsTo (id : String) : Except BranchFault (List R) × Repository R :=
  ((repository.graph.path id).1, { repository with graph := (repository.graph.path id).2 })

/-- `active_records`. -/
def activeRecords : Except BranchFault (List R) × Repository R :=
  match repository.leafId with
  | none => (.ok [], repository)
  | some id => repository.recordsTo id

/-! ## A repository over its records -/

/-- The graph answers for the records, and the leaf is one of them. -/
structure Fits (heap : Heap) : Prop where
  represents : Represents recordId parentId heap repository.graph
  records : repository.graph.records = repository.records
  leaf : ∀ id, repository.leafId = some id → id ∈ ids recordId repository.records

/-- The path of the selected leaf, by the records alone. -/
def Selects (path : List R) : Prop := PathTo recordId parentId repository.records repository.leafId path

variable {recordId parentId} {repository} {heap : Heap}

theorem lastId_mem {appended records : List R} {leafId : Option String}
    (leaf : ∀ id, leafId = some id → id ∈ ids recordId records) (id : String)
    (last : lastId recordId appended leafId = some id) : id ∈ ids recordId (records ++ appended) := by
  rw [ids_append, List.mem_append]
  unfold lastId at last
  cases final : appended.getLast? with
  | none =>
    rw [final] at last
    exact Or.inl (leaf id last)
  | some record =>
    rw [final] at last
    obtain rfl : recordId record = id := by simpa using last
    exact Or.inr (List.mem_map_of_mem (List.mem_of_getLast? final))

theorem Fits.sound (fits : repository.Fits recordId parentId heap) :
    Sound recordId parentId repository.records :=
  fits.records ▸ sound_of_graphProblem fits.represents.listed.accepted

theorem Fits.get (fits : repository.Fits recordId parentId heap) (id : String) :
    repository.get id = find recordId repository.records id := by
  rw [Repository.get, get?_of_named fits.represents.listed.byId, fits.records]

/-- A repository is made of records a strict graph accepts. -/
theorem create_fits {object : Nat} {records : List R} {leafId : Option String} {made : Heap × Repository R}
    (created : create recordId parentId heap object records leafId = .ok made) :
    made.2.Fits recordId parentId made.1 ∧ made.2.records = records ∧ made.2.object = object := by
  unfold create at created
  cases problem : graphProblem recordId parentId records with
  | some found =>
    have refused := construct_strict recordId parentId heap records
    rw [problem] at refused
    rw [refused] at created
    cases created
  | none =>
    obtain ⟨heap', graph, built, _, represents, same⟩ := construct_represents heap problem
    rw [built] at created
    dsimp only at created
    cases resolved : resolveInitialLeaf recordId graph records leafId with
    | error fault =>
      rw [resolved] at created
      cases created
    | ok leaf =>
      rw [resolved] at created
      cases created
      refine ⟨⟨represents, same, ?_⟩, rfl, rfl⟩
      rintro id rfl
      have held : ∀ wanted, (graph.byId.get? wanted).isSome → wanted ∈ ids recordId records := by
        intro wanted present
        rw [Dict.get?_isSome, keys_of_named represents.listed.byId, same] at present
        exact present
      unfold resolveInitialLeaf at resolved
      cases leafId with
      | some wanted =>
        dsimp only at resolved
        split at resolved
        · cases resolved
        · next present =>
          cases resolved
          exact held id (by simpa [Option.isSome_iff_ne_none, Option.isNone_iff_eq_none] using present)
      | none =>
        dsimp only at resolved
        split at resolved
        · cases resolved
        · next last final =>
          split at resolved
          · next present =>
            cases resolved
            exact held _ present
          · cases resolved

/-- A detached append fails with the problem of all records, or gives a repository over them. -/
theorem Fits.withAppendedRecords (fits : repository.Fits recordId parentId heap) (object : Nat)
    (appended : List R) :
    match graphProblem recordId parentId (repository.records ++ appended) with
    | some problem =>
      repository.withAppendedRecords recordId parentId heap object appended = .error (.graph problem)
    | none => ∃ heap' candidate,
        repository.withAppendedRecords recordId parentId heap object appended = .ok (heap', candidate) ∧
        heap <+: heap' ∧ candidate.Fits recordId parentId heap' ∧ candidate.object = object ∧
        candidate.records = repository.records ++ appended ∧
        candidate.leafId = lastId recordId appended repository.leafId := by
  have extended := fits.represents.withAppendedRecords repository.object appended
  rw [fits.records] at extended
  unfold Repository.withAppendedRecords
  cases problem : graphProblem recordId parentId (repository.records ++ appended) with
  | some found =>
    rw [problem] at extended
    rw [extended]
  | none =>
    rw [problem] at extended
    obtain ⟨heap', graph, done, longer, represents, same⟩ := extended
    rw [done]
    exact ⟨heap', _, rfl, longer, ⟨represents, same, fun id => lastId_mem fits.leaf id⟩, rfl, rfl, rfl⟩

/-- A prepared append that is published at once gives the same repository over all records. -/
theorem Fits.publish (fits : repository.Fits recordId parentId heap) (appended : List R) :
    match graphProblem recordId parentId (repository.records ++ appended) with
    | some problem => repository.prepareIncrementalAppend recordId parentId appended = .error (.graph problem)
    | none => ∃ plan heap' grown,
        repository.prepareIncrementalAppend recordId parentId appended = .ok plan ∧
        repository.publishIncrementalAppend heap plan = .ok (heap', grown) ∧
        heap <+: heap' ∧ grown.Fits recordId parentId heap' ∧ grown.object = repository.object ∧
        grown.records = repository.records ++ appended ∧
        grown.leafId = lastId recordId appended repository.leafId := by
  have prepared := prepare_strict fits.represents.listed repository.object appended
  rw [fits.records] at prepared
  unfold Repository.prepareIncrementalAppend
  cases problem : graphProblem recordId parentId (repository.records ++ appended) with
  | some found =>
    rw [problem] at prepared
    rw [prepared]
  | none =>
    rw [problem] at prepared
    obtain ⟨added, parents, names, links, done⟩ := prepared
    rw [done]
    have accepted : graphProblem recordId parentId (repository.graph.records ++ appended) = none := by
      rw [fits.records]
      exact problem
    let plan : PreparedBranchAppend R := ⟨repository.object, repository.records.length, appended, added, parents⟩
    have count : repository.graph.records.length = plan.sourceCount := by rw [fits.records]
    have named_ : plan.added.entries = named recordId plan.records := names
    obtain ⟨heap', graph, published, longer, represents, same⟩ :=
      fits.represents.publishStrictAppend rfl count accepted named_ links
    refine ⟨_, heap', ⟨repository.object, repository.records ++ appended, graph,
      lastId recordId appended repository.leafId⟩, rfl, ?_, longer,
      ⟨represents, ?_, fun id => lastId_mem fits.leaf id⟩, rfl, rfl, rfl⟩
    · unfold publishIncrementalAppend
      rw [if_neg (by simp)]
      rw [published]
    · rw [same, fits.records]

/-- The active path, which changes nothing but what the graph remembers. -/
theorem Fits.activeRecords (fits : repository.Fits recordId parentId heap) :
    ∃ path graph, repository.activeRecords = (.ok path, { repository with graph }) ∧
      repository.Selects recordId parentId path ∧
      Repository.Fits recordId parentId { repository with graph } heap := by
  obtain ⟨object, records, graph, leafId⟩ := repository
  cases leafId with
  | none => exact ⟨[], graph, rfl, rfl, fits⟩
  | some id =>
    obtain ⟨represents, same, answer⟩ := fits.represents.path id
    rw [fits.records] at same answer
    rcases answer with ⟨missing, _⟩ | ⟨path, pathOf, answered⟩
    · exact absurd (fits.leaf id rfl) missing
    · refine ⟨path, (graph.path id).2, ?_, pathOf, represents, same, fits.leaf⟩
      simp [Repository.activeRecords, recordsTo, answered]

theorem Fits.branch {selected : Repository R} (fits : repository.Fits recordId parentId heap) {id : String}
    (branched : repository.branch id = .ok selected) :
    selected.Fits recordId parentId heap ∧ selected.records = repository.records ∧
      selected.object = repository.object := by
  unfold Repository.branch at branched
  split at branched
  · cases branched
  · next known =>
    cases branched
    refine ⟨⟨fits.represents, fits.records, ?_⟩, rfl, rfl⟩
    rintro _ ⟨⟩
    by_contra missing
    rw [fits.get, (find_eq_none recordId).mpr missing] at known
    exact known rfl

theorem Fits.resetBranch (fits : repository.Fits recordId parentId heap) :
    repository.resetBranch.Fits recordId parentId heap :=
  ⟨fits.represents, fits.records, nofun⟩

end Repository

/-! ## Paths -/

variable {recordId parentId} {records path : List R} {leafId : Option String}

theorem PathTo.unique {path' : List R} (one : PathTo recordId parentId records leafId path)
    (other : PathTo recordId parentId records leafId path') : path = path' := by
  cases leafId with
  | none => exact one.trans other.symm
  | some id => exact PathOf.unique one other

theorem PathTo.append (sound : Sound recordId parentId records) (more : List R)
    (pathTo : PathTo recordId parentId records leafId path) :
    PathTo recordId parentId (records ++ more) leafId path := by
  cases leafId with
  | none => exact pathTo
  | some id => exact PathOf.append sound more pathTo

/-- The records of a line of ids that are all known. -/
theorem ids_filterMap_find {line : List String} (known : ∀ id ∈ line, id ∈ ids recordId records) :
    ids recordId (line.filterMap (find recordId records)) = line := by
  induction line with
  | nil => rfl
  | cons id rest ih =>
    obtain ⟨here, later⟩ := List.forall_mem_cons.mp known
    cases found : find recordId records id with
    | none => exact absurd here ((find_eq_none recordId).mp found)
    | some record =>
      rw [List.filterMap_cons_some found]
      change recordId record :: ids recordId (rest.filterMap (find recordId records)) = id :: rest
      rw [ih later, (recordId_of_find recordId found).1]

/-- The ids along a path are distinct. -/
theorem PathTo.nodup (sound : Sound recordId parentId records)
    (pathTo : PathTo recordId parentId records leafId path) : (path.map recordId).Nodup := by
  cases leafId with
  | none =>
    obtain rfl : path = [] := pathTo
    exact List.nodup_nil
  | some id =>
    obtain ⟨line, member, lineage, rfl⟩ := pathTo
    have same := ids_filterMap_find (lineage.subset sound.closing member)
    rw [ids] at same
    rw [same]
    exact lineage.nodup

theorem PathTo.subset (pathTo : PathTo recordId parentId records leafId path) : path ⊆ records := by
  cases leafId with
  | none =>
    obtain rfl : path = [] := pathTo
    exact List.nil_subset _
  | some id =>
    obtain ⟨line, _, _, rfl⟩ := pathTo
    intro record member
    obtain ⟨wanted, _, found⟩ := List.mem_filterMap.mp member
    exact (recordId_of_find recordId found).2

end

end Loushang.UnitOfWork
