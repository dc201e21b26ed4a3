import Loushang.Lib.Dict
import Loushang.Lib.ParentWalk
import Mathlib.Data.List.Sort

/-!
# Branch graphs

`conversation/branch.py`. Lists of child ids are objects: a graph holds references into
a heap of lists, snapshots share references, and only a list append mutates a list. The
other dictionaries are copied whole wherever the source changes them, so they are values.
Record ids are strings. A subscript reads a key the graph holds; an absent one would be a
`KeyError` and reads as no parent, no children and no record here.
-/
namespace Loushang.Branch
open Loushang.Lib

inductive BranchMode where
  | strict
  | compatible
  deriving DecidableEq

/-- A `BranchGraphError`, or the diagnostic a compatible graph records instead. -/
structure BranchProblem where
  code : String
  message : String
  recordId : String

inductive BranchFault where
  | graph (problem : BranchProblem)
  | value (message : String)
  | runtime (message : String)

def invalidRecordId (recordId : String) : BranchProblem :=
  ⟨"invalid_branch_record_id", "Branch record id must be a non-empty string.", recordId⟩

def duplicateRecordId (recordId : String) : BranchProblem :=
  ⟨"duplicate_branch_record_id", "Duplicate branch record id: " ++ recordId, recordId⟩

def selfParent (recordId : String) : BranchProblem :=
  ⟨"self_parent_branch_record", "Branch record " ++ recordId ++ " refers to itself as parent.", recordId⟩

def danglingParent (recordId parent : String) : BranchProblem :=
  ⟨"dangling_branch_parent",
    "Branch record " ++ recordId ++ " refers to missing parent " ++ parent ++ ".", recordId⟩

def parentCycle (cutId : String) : BranchProblem :=
  ⟨"branch_parent_cycle", "Branch parent cycle detected at " ++ cutId ++ ".", cutId⟩

/-- `_problem`: raised by a strict graph, recorded by a compatible one. -/
def reportProblem (mode : BranchMode) (diagnostics : List BranchProblem) (problem : BranchProblem) :
    Except BranchFault (List BranchProblem) :=
  match mode with
  | .strict => .error (.graph problem)
  | .compatible => .ok (diagnostics ++ [problem])

/-! ## Lists of child ids -/

abbrev Heap := List (List String)

/-- The list objects, and which of them each id of one graph refers to. -/
structure ChildLists where
  heap : Heap
  refs : Dict String Nat

/-- `children[id] = [...]`: a new list object. -/
def ChildLists.fresh (lists : ChildLists) (id : String) (content : List String) : ChildLists :=
  ⟨lists.heap ++ [content], lists.refs.set id lists.heap.length⟩

/-- `children[parent].append(id)`: in place. -/
def ChildLists.push (lists : ChildLists) (parent id : String) : ChildLists :=
  match lists.refs.get? parent with
  | none => lists
  | some ref => { lists with heap := lists.heap.modify ref fun content => content ++ [id] }

def ChildLists.read (lists : ChildLists) (id : String) : List String :=
  ((lists.refs.get? id).bind fun ref => lists.heap[ref]?).getD []

structure BranchGraph (R : Type) where
  mode : BranchMode
  records : List R
  diagnostics : List BranchProblem
  byId : Dict String R
  sourceOrder : List String
  parents : Dict String (Option String)
  children : Dict String Nat
  pathCache : Option (String × List R)

section

variable {R : Type} (recordId : R → String) (parentId : R → Option String)

/-! ## Construction -/

structure Lookup (R : Type) where
  byId : Dict String R
  positions : Dict String Nat
  diagnostics : List BranchProblem

/-- The loop of `_build_lookup`. -/
def buildLookup (mode : BranchMode) : Nat → List R → Lookup R → Except BranchFault (Lookup R)
  | _, [], lookup => .ok lookup
  | position, record :: rest, lookup =>
    let id := recordId record
    if id = "" then
      match reportProblem mode lookup.diagnostics (invalidRecordId id) with
      | .error fault => .error fault
      | .ok diagnostics => buildLookup mode (position + 1) rest { lookup with diagnostics }
    else
      match (if id ∈ lookup.byId.keys then
          reportProblem mode lookup.diagnostics (duplicateRecordId id)
        else .ok lookup.diagnostics) with
      | .error fault => .error fault
      | .ok diagnostics =>
        buildLookup mode (position + 1) rest
          ⟨lookup.byId.set id record, lookup.positions.set id position, diagnostics⟩

/-- `sorted(positions, key=positions.__getitem__)`. -/
def Lookup.sourceOrder (lookup : Lookup R) : List String :=
  (lookup.positions.entries.insertionSort fun a b => a.2 ≤ b.2).map Prod.fst

/-- The first loop of `_normalize_parents`. -/
def normalizeLinks (mode : BranchMode) (byId : Dict String R) :
    List String → Dict String (Option String) × List BranchProblem →
      Except BranchFault (Dict String (Option String) × List BranchProblem)
  | [], state => .ok state
  | id :: rest, (parents, diagnostics) =>
    match (byId.get? id).bind parentId with
    | none => normalizeLinks mode byId rest (parents.set id none, diagnostics)
    | some parent =>
      if parent = id then
        match reportProblem mode diagnostics (selfParent id) with
        | .error fault => .error fault
        | .ok diagnostics => normalizeLinks mode byId rest (parents.set id none, diagnostics)
      else if parent ∉ byId.keys then
        match reportProblem mode diagnostics (danglingParent id parent) with
        | .error fault => .error fault
        | .ok diagnostics => normalizeLinks mode byId rest (parents.set id none, diagnostics)
      else normalizeLinks mode byId rest (parents.set id (some parent), diagnostics)

/-- A dictionary of parents as a function. -/
def parentOf (parents : Dict String (Option String)) (id : String) : Option String :=
  (parents.get? id).join

/-- The cycle loop of `_normalize_parents`; every pass cuts one link. -/
def cutCycles (mode : BranchMode) (sourceOrder : List String) :
    Nat → Dict String (Option String) × List BranchProblem →
      Except BranchFault (Dict String (Option String) × List BranchProblem)
  | 0, state => .ok state
  | passes + 1, (parents, diagnostics) =>
    match findCycle sourceOrder (parentOf parents) with
    | none => .ok (parents, diagnostics)
    | some cycle =>
      match reportProblem mode diagnostics (parentCycle (cycle.headD "")) with
      | .error fault => .error fault
      | .ok diagnostics =>
        cutCycles mode sourceOrder passes (parents.set (cycle.headD "") none, diagnostics)

/-- One link of `_build_children`. -/
def attachOwn (lists : ChildLists) (link : String × Option String) : ChildLists :=
  match link.2 with
  | none => lists
  | some parent => lists.push parent link.1

/-- `_build_children`. -/
def buildChildren (heap : Heap) (sourceOrder : List String) (parents : Dict String (Option String)) :
    ChildLists :=
  let lists := sourceOrder.foldl (fun lists id => lists.fresh id []) ⟨heap, .empty⟩
  (sourceOrder.map fun id => (id, parentOf parents id)).foldl attachOwn lists

/-- `BranchGraph(records, ...)`. -/
def construct (mode : BranchMode) (heap : Heap) (records : List R) :
    Except BranchFault (Heap × BranchGraph R) :=
  match buildLookup recordId mode 0 records ⟨.empty, .empty, []⟩ with
  | .error fault => .error fault
  | .ok lookup =>
    match normalizeLinks parentId mode lookup.byId lookup.sourceOrder (.empty, lookup.diagnostics) with
    | .error fault => .error fault
    | .ok links =>
      match cutCycles mode lookup.sourceOrder (lookup.sourceOrder.length + 1) links with
      | .error fault => .error fault
      | .ok (parents, diagnostics) =>
        let lists := buildChildren heap lookup.sourceOrder parents
        .ok (lists.heap, ⟨mode, records, diagnostics, lookup.byId, lookup.sourceOrder, parents,
          lists.refs, none⟩)

/-! ## Strict extension -/

/-- The first loop of `prepare_strict_append`. -/
def prepareIds (byId : Dict String R) : List R → Dict String R → Except BranchFault (Dict String R)
  | [], added => .ok added
  | record :: rest, added =>
    let id := recordId record
    if id = "" then .error (.graph (invalidRecordId id))
    else if id ∈ byId.keys ∨ id ∈ added.keys then .error (.graph (duplicateRecordId id))
    else prepareIds byId rest (added.set id record)

/-- Its second loop, over `added.items()`. -/
def prepareLinks (byId added : Dict String R) :
    List (String × R) → Dict String (Option String) → Except BranchFault (Dict String (Option String))
  | [], parents => .ok parents
  | (id, record) :: rest, parents =>
    match parentId record with
    | none => prepareLinks byId added rest (parents.set id none)
    | some parent =>
      if parent = id then .error (.graph (selfParent id))
      else if parent ∉ byId.keys ∧ parent ∉ added.keys then .error (.graph (danglingParent id parent))
      else prepareLinks byId added rest (parents.set id (some parent))

/-- `source` is the identity of the graph object. -/
structure PreparedBranchAppend (R : Type) where
  source : Nat
  sourceCount : Nat
  records : List R
  added : Dict String R
  parents : Dict String (Option String)

/-- `prepare_strict_append`. -/
def prepareStrictAppend (source : Nat) (graph : BranchGraph R) (appended : List R) :
    Except BranchFault (PreparedBranchAppend R) :=
  if graph.mode ≠ .strict then .error (.value "incremental append requires a strict branch graph")
  else
    match prepareIds recordId graph.byId appended .empty with
    | .error fault => .error fault
    | .ok added =>
      match prepareLinks parentId graph.byId added added.entries .empty with
      | .error fault => .error fault
      | .ok parents =>
        match findCycle added.keys fun id => (parentOf parents id).filter (· ∈ added.keys) with
        | some cycle => .error (.graph (parentCycle (cycle.headD "")))
        | none => .ok ⟨source, graph.records.length, appended, added, parents⟩

/-- One link of `with_appended_records`: a shared list is copied before its first append. -/
def attachDetached (added : Dict String R) (state : ChildLists × List String)
    (link : String × Option String) : ChildLists × List String :=
  match link.2 with
  | none => state
  | some parent =>
    if parent ∉ added.keys ∧ parent ∉ state.2 then
      ((state.1.fresh parent (state.1.read parent)).push parent link.1, parent :: state.2)
    else (state.1.push parent link.1, state.2)

/-- `with_appended_records`. -/
def withAppendedRecords (heap : Heap) (source : Nat) (graph : BranchGraph R) (appended : List R) :
    Except BranchFault (Heap × BranchGraph R) :=
  if graph.mode ≠ .strict then
    construct recordId parentId graph.mode heap (graph.records ++ appended)
  else
    match prepareStrictAppend recordId parentId source graph appended with
    | .error fault => .error fault
    | .ok plan =>
      let lists := plan.added.keys.foldl (fun lists id => lists.fresh id []) ⟨heap, graph.children⟩
      let lists := (plan.parents.entries.foldl (attachDetached plan.added) (lists, [])).1
      .ok (lists.heap, { graph with
        records := graph.records ++ appended
        sourceOrder := graph.sourceOrder ++ plan.added.keys
        byId := graph.byId.update plan.added.entries
        parents := graph.parents.update plan.parents.entries
        children := lists.refs })

/-- One link of `publish_strict_append`: the changed list is replaced. -/
def attachPublished (lists : ChildLists) (link : String × Option String) : ChildLists :=
  match link.2 with
  | none => lists
  | some parent => lists.fresh parent (lists.read parent ++ [link.1])

/-- `publish_strict_append` on the graph object `self`. -/
def publishStrictAppend (heap : Heap) (self : Nat) (graph : BranchGraph R)
    (plan : PreparedBranchAppend R) : Except BranchFault (Heap × BranchGraph R) :=
  if plan.source ≠ self ∨ graph.records.length ≠ plan.sourceCount then
    .error (.runtime "branch append source changed before publication")
  else
    let lists := plan.added.keys.foldl (fun lists id => lists.fresh id []) ⟨heap, graph.children⟩
    let lists := plan.parents.entries.foldl attachPublished lists
    .ok (lists.heap, { graph with
      records := graph.records ++ plan.records
      sourceOrder := graph.sourceOrder ++ plan.added.keys
      byId := graph.byId.update plan.added.entries
      parents := graph.parents.update plan.parents.entries
      children := lists.refs })

/-! ## Queries -/

def BranchGraph.roots (graph : BranchGraph R) : List R :=
  (graph.sourceOrder.filter fun id => parentOf graph.parents id = none).filterMap graph.byId.get?

def BranchGraph.leaves (heap : Heap) (graph : BranchGraph R) : List R :=
  (graph.sourceOrder.filter fun id => (ChildLists.mk heap graph.children).read id = []).filterMap
    graph.byId.get?

/-- `_require_record`'s `ValueError`. -/
def recordNotFound (id : String) : BranchFault := .value ("Branch record " ++ id ++ " not found")

def BranchGraph.childRecords (heap : Heap) (graph : BranchGraph R) (id : String) :
    Except BranchFault (List R) :=
  if id ∉ graph.byId.keys then .error (recordNotFound id)
  else .ok (((ChildLists.mk heap graph.children).read id).filterMap graph.byId.get?)

/-- The loop of `path`: the cached path it runs into, and the ids passed before. -/
def climb (parent : String → Option String) (cached : Option (String × List R)) :
    Nat → List String → Option String → List R × List String
  | _, ids, none => ([], ids)
  | 0, ids, some _ => ([], ids)
  | fuel + 1, ids, some current =>
    if current ∈ ids then ([], ids)
    else
      match cached with
      | none => climb parent cached fuel (ids ++ [current]) (parent current)
      | some (id, front) =>
        if current = id then (front, ids)
        else climb parent cached fuel (ids ++ [current]) (parent current)

/-- `path`, which also replaces the cached path. -/
def BranchGraph.path (graph : BranchGraph R) (id : String) :
    Except BranchFault (List R) × BranchGraph R :=
  if id ∉ graph.byId.keys then (.error (recordNotFound id), graph)
  else
    match graph.pathCache.filter fun cached => cached.1 = id with
    | some cached => (.ok cached.2, graph)
    | none =>
      let climbed := climb (parentOf graph.parents) graph.pathCache (graph.sourceOrder.length + 1) []
        (some id)
      let result := climbed.1 ++ climbed.2.reverse.filterMap graph.byId.get?
      (.ok result, { graph with pathCache := some (id, result) })

def BranchGraph.ancestors (graph : BranchGraph R) (id : String) :
    Except BranchFault (List R) × BranchGraph R :=
  ((graph.path id).1.map List.dropLast, (graph.path id).2)

/-- The loop of `lowest_common_ancestor` over both paths. -/
def lastCommon : Option String → List (String × String) → Option String
  | common, [] => common
  | common, (left, right) :: rest => if left ≠ right then common else lastCommon (some left) rest

def BranchGraph.lowestCommonAncestor (graph : BranchGraph R) (leftId rightId : String) :
    Except BranchFault (Option R) × BranchGraph R :=
  match graph.path leftId with
  | (.error fault, graph) => (.error fault, graph)
  | (.ok left, graph) =>
    match graph.path rightId with
    | (.error fault, graph) => (.error fault, graph)
    | (.ok right, graph) =>
      (.ok ((lastCommon none ((left.map recordId).zip (right.map recordId))).bind graph.byId.get?),
        graph)

end

end Loushang.Branch
