import Loushang.Branch.Records

/-!
# Construction and extension report the first problem

Both end in an error exactly when the records have a problem, and the error is that
problem; otherwise the dictionaries list the records in order.
-/
namespace Loushang.Branch
open Loushang.Lib

section

variable {R : Type} (recordId : R → String) (parentId : R → Option String)

def named (records : List R) : List (String × R) := records.map fun record => (recordId record, record)

def linked (records : List R) : List (String × Option String) :=
  records.map fun record => (recordId record, parentId record)

variable {recordId parentId}

variable {dict : Dict String R} {records : List R}

theorem keys_of_named (entries : dict.entries = named recordId records) :
    dict.keys = ids recordId records := by
  rw [Dict.keys, entries]
  simp [named, ids]

theorem keys_of_linked {dict : Dict String (Option String)}
    (entries : dict.entries = linked recordId parentId records) : dict.keys = ids recordId records := by
  rw [Dict.keys, entries]
  simp [linked, ids]

theorem get?_of_named (entries : dict.entries = named recordId records) (id : String) :
    dict.get? id = find recordId records id := by
  rw [Dict.get?, entries, named, List.find?_map, Option.map_map]
  exact Option.map_id'

theorem parentOf_of_linked {dict : Dict String (Option String)}
    (entries : dict.entries = linked recordId parentId records) (id : String) :
    parentOf dict id = linkOf recordId parentId records id := by
  have there : dict.get? id = (find recordId records id).map parentId := by
    rw [Dict.get?, entries, linked, List.find?_map, Option.map_map]
    rfl
  rw [parentOf, there, linkOf]
  cases find recordId records id <;> rfl

variable {record : R}

theorem named_set (entries : dict.entries = named recordId records)
    (new : recordId record ∉ ids recordId records) :
    (dict.set (recordId record) record).entries = named recordId (records ++ [record]) := by
  rw [Dict.entries_set_of_not_mem (by rwa [keys_of_named entries]), entries]
  simp [named]

theorem linked_set {dict : Dict String (Option String)}
    (entries : dict.entries = linked recordId parentId records) (new : recordId record ∉ ids recordId records) :
    (dict.set (recordId record) (parentId record)).entries =
      linked recordId parentId (records ++ [record]) := by
  rw [Dict.entries_set_of_not_mem (by rwa [keys_of_linked entries]), entries]
  simp [linked]

/-! ## Construction -/

variable (recordId) in
/-- The state of `_build_lookup` after these records. -/
structure LookedUp (lookup : Lookup R) (records : List R) : Prop where
  byId : lookup.byId.entries = named recordId records
  positions : lookup.positions.entries = (ids recordId records).zipIdx

variable {lookup : Lookup R}

theorem LookedUp.push (state : LookedUp recordId lookup records)
    (new : recordId record ∉ ids recordId records) (diagnostics : List BranchProblem) :
    LookedUp recordId ⟨lookup.byId.set (recordId record) record,
      lookup.positions.set (recordId record) records.length, diagnostics⟩ (records ++ [record]) where
  byId := named_set state.byId new
  positions := by
    have absent : recordId record ∉ lookup.positions.keys := by
      rw [Dict.keys, state.positions, List.zipIdx_map_fst]
      exact new
    rw [Dict.entries_set_of_not_mem absent, state.positions]
    simp [ids, List.zipIdx_append]

theorem zipIdx_sorted {α : Type} (list : List α) (start : Nat) :
    (list.zipIdx start).Pairwise fun a b => a.2 ≤ b.2 := by
  induction list generalizing start with
  | nil => exact List.Pairwise.nil
  | cons a rest ih =>
    rw [List.zipIdx_cons, List.pairwise_cons]
    refine ⟨fun b member => ?_, ih (start + 1)⟩
    exact Nat.le_of_succ_le (List.le_snd_of_mem_zipIdx member)

theorem LookedUp.sourceOrder (state : LookedUp recordId lookup records) :
    lookup.sourceOrder = ids recordId records := by
  rw [Lookup.sourceOrder, state.positions, (zipIdx_sorted _ 0).insertionSort_eq, List.zipIdx_map_fst]

variable {done : List R}

/-- A strict lookup stops at the first bad id, or lists all records. -/
theorem buildLookup_strict (state : LookedUp recordId lookup done) (rest : List R) :
    match idProblem recordId (ids recordId done) rest with
    | some problem => buildLookup recordId .strict done.length rest lookup = .error (.graph problem)
    | none => ∃ lookup', buildLookup recordId .strict done.length rest lookup = .ok lookup' ∧
        LookedUp recordId lookup' (done ++ rest) ∧ lookup'.diagnostics = lookup.diagnostics := by
  induction rest generalizing lookup done with
  | nil => exact ⟨lookup, rfl, by simpa using state, rfl⟩
  | cons record rest ih =>
    rw [idProblem, buildLookup, keys_of_named state.byId]
    by_cases empty : recordId record = ""
    · simp [empty, reportProblem]
    · by_cases known : recordId record ∈ ids recordId done
      · simp [empty, known, reportProblem]
      · have later := ih (state.push known lookup.diagnostics)
        simp only [empty, known, if_false, List.length_append, List.length_singleton, ids_append,
          List.append_assoc, List.singleton_append] at later ⊢
        exact later

variable {byId : Dict String R} {parents : Dict String (Option String)}

/-- The dictionary of parents after these records. -/
theorem normalizeLinks_strict {all : List R} (named' : byId.entries = named recordId all)
    (nodup : (ids recordId all).Nodup) (state : parents.entries = linked recordId parentId done)
    {rest : List R} (split : all = done ++ rest) (diagnostics : List BranchProblem) :
    match linkProblem recordId parentId (ids recordId all) rest with
    | some problem =>
      normalizeLinks parentId .strict byId (ids recordId rest) (parents, diagnostics) =
        .error (.graph problem)
    | none => ∃ parents',
        normalizeLinks parentId .strict byId (ids recordId rest) (parents, diagnostics) =
          .ok (parents', diagnostics) ∧ parents'.entries = linked recordId parentId all := by
  induction rest generalizing parents done with
  | nil => exact ⟨parents, rfl, by simpa [split] using state⟩
  | cons record rest ih =>
    have found : byId.get? (recordId record) = some record := by
      rw [get?_of_named named']
      exact find_of_mem recordId nodup (by simp [split])
    have new : recordId record ∉ ids recordId done := by
      rw [split, ids_append] at nodup
      intro member
      exact (List.nodup_append.mp nodup).2.2 _ member _ List.mem_cons_self rfl
    have later := ih (linked_set state new) (by simp [split])
    have order : ids recordId (record :: rest) = recordId record :: ids recordId rest := rfl
    rw [linkProblem, order, normalizeLinks, found, Option.bind_some, keys_of_named named']
    cases link : parentId record with
    | none =>
      rw [link] at later
      exact later
    | some parent =>
      rw [link] at later
      by_cases self : parent = recordId record
      · simp [self, reportProblem]
      · by_cases known : parent ∈ ids recordId all
        · simp only [self, known, if_false, not_true_eq_false]
          exact later
        · simp [self, known, reportProblem]

variable (recordId parentId) in
/-- Construction raises the first problem, or lists the records and their links. -/
theorem construct_strict (heap : Heap) (records : List R) :
    match graphProblem recordId parentId records with
    | some problem => construct recordId parentId .strict heap records = .error (.graph problem)
    | none => ∃ byId parents, byId.entries = named recordId records ∧
        parents.entries = linked recordId parentId records ∧
        construct recordId parentId .strict heap records =
          .ok ((buildChildren heap (ids recordId records) parents).heap,
            ⟨.strict, records, [], byId, ids recordId records, parents,
              (buildChildren heap (ids recordId records) parents).refs, none⟩) := by
  have start : LookedUp recordId (⟨.empty, .empty, []⟩ : Lookup R) [] := ⟨rfl, rfl⟩
  have looked := buildLookup_strict start records
  rw [graphProblem]
  unfold construct
  rw [show ids recordId ([] : List R) = [] from rfl, List.length_nil, List.nil_append] at looked
  cases idsFine : idProblem recordId [] records with
  | some problem =>
    rw [idsFine] at looked
    rw [looked]
    rfl
  | none =>
    rw [idsFine] at looked
    obtain ⟨lookup, done, state, quiet⟩ := looked
    rw [done]
    have nodup : (ids recordId records).Nodup := by
      simpa using nodup_of_idProblem recordId List.nodup_nil idsFine
    have emptyLinks : (Dict.empty : Dict String (Option String)).entries =
        linked recordId parentId ([] : List R) := rfl
    have normalized := normalizeLinks_strict state.byId nodup emptyLinks (List.nil_append records).symm
      lookup.diagnostics
    simp only [state.sourceOrder, Option.none_or]
    cases linksFine : linkProblem recordId parentId (ids recordId records) records with
    | some problem =>
      rw [linksFine] at normalized
      rw [normalized]
      rfl
    | none =>
      rw [linksFine] at normalized
      obtain ⟨parents, links, entries⟩ := normalized
      rw [links]
      have same : parentOf parents = linkOf recordId parentId records :=
        funext (parentOf_of_linked entries)
      simp only [cutCycles, Option.none_or, cycleProblem, same]
      cases findCycle (ids recordId records) (linkOf recordId parentId records) with
      | some cycle => rfl
      | none => exact ⟨lookup.byId, parents, state.byId, entries, by rw [quiet]⟩

/-! ## Strict extension -/

variable {added : Dict String R}

theorem prepareIds_strict (known : byId.keys = ids recordId records)
    (state : added.entries = named recordId done) (rest : List R) :
    match idProblem recordId (ids recordId records ++ ids recordId done) rest with
    | some problem => prepareIds recordId byId rest added = .error (.graph problem)
    | none => ∃ added', prepareIds recordId byId rest added = .ok added' ∧
        added'.entries = named recordId (done ++ rest) := by
  induction rest generalizing added done with
  | nil => exact ⟨added, rfl, by simpa using state⟩
  | cons record rest ih =>
    rw [idProblem, prepareIds, known, keys_of_named state]
    by_cases empty : recordId record = ""
    · simp [empty]
    · by_cases present : recordId record ∈ ids recordId records ++ ids recordId done
      · simp [empty, List.mem_append.mp present]
      · have absent := mt List.mem_append.mpr present
        have later := ih (named_set state (not_or.mp absent).2)
        simp only [empty, present, absent, if_false, ids_append, List.append_assoc,
          List.singleton_append] at later ⊢
        exact later

theorem prepareLinks_strict {known : List String} (keys : ∀ id, id ∈ known ↔ id ∈ byId.keys ∨ id ∈ added.keys)
    (state : parents.entries = linked recordId parentId done) {rest : List R}
    (nodup : (ids recordId (done ++ rest)).Nodup) :
    match linkProblem recordId parentId known rest with
    | some problem =>
      prepareLinks parentId byId added (named recordId rest) parents = .error (.graph problem)
    | none => ∃ parents', prepareLinks parentId byId added (named recordId rest) parents = .ok parents' ∧
        parents'.entries = linked recordId parentId (done ++ rest) := by
  induction rest generalizing parents done with
  | nil => exact ⟨parents, rfl, by simpa using state⟩
  | cons record rest ih =>
    have new : recordId record ∉ ids recordId done := by
      rw [ids_append] at nodup
      intro member
      exact (List.nodup_append.mp nodup).2.2 _ member _ List.mem_cons_self rfl
    have later := ih (linked_set state new) (by simpa using nodup)
    rw [List.append_assoc, List.singleton_append] at later
    have order : named recordId (record :: rest) = (recordId record, record) :: named recordId rest := rfl
    rw [linkProblem, order, prepareLinks]
    cases link : parentId record with
    | none =>
      rw [link] at later
      exact later
    | some parent =>
      rw [link] at later
      by_cases self : parent = recordId record
      · simp [self]
      · by_cases present : parent ∈ known
        · have somewhere : ¬ (parent ∉ byId.keys ∧ parent ∉ added.keys) := by
            have := (keys parent).mp present
            tauto
          simp only [self, present, somewhere, if_false, not_true_eq_false]
          exact later
        · have nowhere : parent ∉ byId.keys ∧ parent ∉ added.keys := by
            have := mt (keys parent).mpr present
            tauto
          simp [self, present, nowhere]

variable (recordId parentId) in
/-- The dictionaries of a strict graph list its records in order. -/
structure Listed (graph : BranchGraph R) : Prop where
  mode : graph.mode = .strict
  diagnostics : graph.diagnostics = []
  byId : graph.byId.entries = named recordId graph.records
  sourceOrder : graph.sourceOrder = ids recordId graph.records
  parents : graph.parents.entries = linked recordId parentId graph.records
  accepted : graphProblem recordId parentId graph.records = none

variable {graph : BranchGraph R}

theorem Listed.withCache (listed : Listed recordId parentId graph) (cached : Option (String × List R)) :
    Listed recordId parentId { graph with pathCache := cached } :=
  ⟨listed.mode, listed.diagnostics, listed.byId, listed.sourceOrder, listed.parents, listed.accepted⟩

/-- An extension raises the problem construction over all records would raise. -/
theorem prepare_strict (listed : Listed recordId parentId graph) (source : Nat) (appended : List R) :
    match graphProblem recordId parentId (graph.records ++ appended) with
    | some problem =>
      prepareStrictAppend recordId parentId source graph appended = .error (.graph problem)
    | none => ∃ added parents, added.entries = named recordId appended ∧
        parents.entries = linked recordId parentId appended ∧
        prepareStrictAppend recordId parentId source graph appended =
          .ok ⟨source, graph.records.length, appended, added, parents⟩ := by
  have emptyNames : (Dict.empty : Dict String R).entries = named recordId ([] : List R) := rfl
  have emptyLinks : (Dict.empty : Dict String (Option String)).entries =
      linked recordId parentId ([] : List R) := rfl
  have prepared := prepareIds_strict (keys_of_named listed.byId) emptyNames appended
  rw [show ids recordId ([] : List R) = [] from rfl, List.append_nil, List.nil_append] at prepared
  rw [graphProblem_append listed.accepted]
  unfold prepareStrictAppend
  rw [if_neg (not_not.mpr listed.mode)]
  cases idsFine : idProblem recordId (ids recordId graph.records) appended with
  | some problem =>
    rw [idsFine] at prepared
    rw [prepared]
    rfl
  | none =>
    rw [idsFine] at prepared
    obtain ⟨added, done, entries⟩ := prepared
    rw [done]
    have nodup := nodup_of_idProblem recordId (sound_of_graphProblem listed.accepted).nodup idsFine
    have keys : ∀ id, id ∈ ids recordId graph.records ++ ids recordId appended ↔
        id ∈ graph.byId.keys ∨ id ∈ added.keys := by
      intro id
      rw [keys_of_named listed.byId, keys_of_named entries, List.mem_append]
    have linksPrepared := prepareLinks_strict keys emptyLinks (List.nodup_append.mp nodup).2.1
    simp only [entries, Option.none_or]
    cases linksFine : linkProblem recordId parentId
        (ids recordId graph.records ++ ids recordId appended) appended with
    | some problem =>
      rw [linksFine] at linksPrepared
      rw [linksPrepared]
      rfl
    | none =>
      rw [linksFine] at linksPrepared
      obtain ⟨parents, links, linkEntries⟩ := linksPrepared
      rw [links]
      rw [List.nil_append] at linkEntries
      simp only [keys_of_named entries, parentOf_of_linked linkEntries, Option.none_or, cycleProblem]
      cases findCycle (ids recordId appended) fun id =>
          (linkOf recordId parentId appended id).filter (· ∈ ids recordId appended) with
      | some cycle => rfl
      | none => exact ⟨added, parents, entries, linkEntries, rfl⟩

end

end Loushang.Branch
