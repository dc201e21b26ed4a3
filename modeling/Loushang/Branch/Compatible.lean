import Loushang.Branch.Records
import Loushang.Lib.ParentCycles

/-!
# Compatible graphs

A compatible graph takes any records: it keeps the last record of each id, drops links to the record
itself and to missing ones, and cuts cycles until the search finds none.
-/
namespace Loushang.Branch
open Loushang.Lib

section

variable {R : Type} (recordId : R → String) (parentId : R → Option String)

/-- The record that an id stands for. -/
def lastRecord (records : List R) (id : String) : Option R := records.reverse.find? fun record => recordId record = id

/-- The ids of a compatible graph. -/
def Kept (records : List R) (id : String) : Prop := id ≠ "" ∧ id ∈ ids recordId records

instance (records : List R) (id : String) : Decidable (Kept recordId records id) :=
  inferInstanceAs (Decidable (_ ∧ _))

/-- The link of a kept id, unless it leads to itself or to no kept id. -/
def keptLink (records : List R) (id : String) : Option String :=
  if Kept recordId records id then
    ((lastRecord recordId records id).bind parentId).filter fun parent => parent ≠ id ∧ Kept recordId records parent
  else none

variable {recordId parentId}

theorem lastRecord_append (records : List R) (record : R) (id : String) :
    lastRecord recordId (records ++ [record]) id =
      if recordId record = id then some record else lastRecord recordId records id := by
  unfold lastRecord
  rw [List.reverse_append, List.reverse_singleton, List.singleton_append, List.find?_cons]
  by_cases same : recordId record = id
  · simp [same]
  · simp [same]

theorem kept_append (records : List R) (record : R) (id : String) :
    Kept recordId (records ++ [record]) id ↔ id ≠ "" ∧ (id ∈ ids recordId records ∨ id = recordId record) := by
  unfold Kept ids
  rw [List.map_append, List.mem_append, List.map_singleton, List.mem_singleton]

variable {records : List R}

theorem keptLink_eq_some {id parent : String} (link : keptLink recordId parentId records id = some parent) :
    Kept recordId records id ∧ Kept recordId records parent := by
  unfold keptLink at link
  split at link
  · next kept =>
    have fits := (Option.filter_eq_some_iff.mp link).2
    rw [decide_eq_true_eq] at fits
    exact ⟨kept, fits.2⟩
  · cases link

/-! ## Lookup -/

variable (recordId) in
/-- The state of `_build_lookup` after these records. -/
structure Looked (lookup : Lookup R) (records : List R) : Prop where
  known : ∀ id, id ∈ lookup.byId.keys ↔ Kept recordId records id
  placed : ∀ id, id ∈ lookup.positions.keys ↔ Kept recordId records id
  latest : ∀ id, id ≠ "" → lookup.byId.get? id = lastRecord recordId records id
  diagnostics : lookup.diagnostics.filter (fun problem => problem.code = "branch_parent_cycle") = []

theorem reported {diagnostics : List BranchProblem} {problem : BranchProblem}
    (none : diagnostics.filter (fun problem => problem.code = "branch_parent_cycle") = [])
    (other : problem.code ≠ "branch_parent_cycle") :
    (diagnostics ++ [problem]).filter (fun problem => problem.code = "branch_parent_cycle") = [] := by
  rw [List.filter_append, none, List.nil_append]
  exact List.filter_cons_of_neg (by simpa using other)

variable {lookup : Lookup R}

theorem Looked.skip (looked : Looked recordId lookup records) {record : R} (empty : recordId record = "")
    (diagnostics : List BranchProblem)
    (none : diagnostics.filter (fun problem => problem.code = "branch_parent_cycle") = []) :
    Looked recordId { lookup with diagnostics } (records ++ [record]) := by
  have same : ∀ id, Kept recordId (records ++ [record]) id ↔ Kept recordId records id := by
    intro id
    rw [kept_append, empty]
    constructor
    · rintro ⟨named, member | rfl⟩
      · exact ⟨named, member⟩
      · exact absurd rfl named
    · rintro ⟨named, member⟩
      exact ⟨named, .inl member⟩
  refine ⟨fun id => ?_, fun id => ?_, fun id named => ?_, none⟩
  · rw [same]
    exact looked.known id
  · rw [same]
    exact looked.placed id
  · rw [lastRecord_append, empty, if_neg (Ne.symm named)]
    exact looked.latest id named

theorem Looked.push (looked : Looked recordId lookup records) {record : R} (named : recordId record ≠ "")
    (position : Nat) (diagnostics : List BranchProblem)
    (none : diagnostics.filter (fun problem => problem.code = "branch_parent_cycle") = []) :
    Looked recordId ⟨lookup.byId.set (recordId record) record, lookup.positions.set (recordId record) position,
      diagnostics⟩ (records ++ [record]) := by
  have grown : ∀ id, id = recordId record ∨ Kept recordId records id ↔ Kept recordId (records ++ [record]) id := by
    intro id
    rw [kept_append]
    constructor
    · rintro (rfl | ⟨named', member⟩)
      · exact ⟨named, .inr rfl⟩
      · exact ⟨named', .inl member⟩
    · rintro ⟨named', member | rfl⟩
      · exact .inr ⟨named', member⟩
      · exact .inl rfl
  refine ⟨fun id => ?_, fun id => ?_, fun id named' => ?_, none⟩
  · rw [Dict.mem_keys_set, looked.known]
    exact grown id
  · rw [Dict.mem_keys_set, looked.placed]
    exact grown id
  · rw [Dict.get?_set, lastRecord_append]
    by_cases same : id = recordId record
    · rw [if_pos same, if_pos same.symm]
    · rw [if_neg same, if_neg (Ne.symm same)]
      exact looked.latest id named'

/-- A compatible lookup takes every record. -/
theorem buildLookup_compatible {done : List R} (looked : Looked recordId lookup done) (position : Nat)
    (rest : List R) :
    ∃ lookup', buildLookup recordId .compatible position rest lookup = .ok lookup' ∧
      Looked recordId lookup' (done ++ rest) := by
  induction rest generalizing lookup done position with
  | nil => exact ⟨lookup, rfl, by rwa [List.append_nil]⟩
  | cons record rest ih =>
    rw [buildLookup]
    by_cases empty : recordId record = ""
    · obtain ⟨lookup', built, looked'⟩ := ih (looked.skip empty (lookup.diagnostics ++ [invalidRecordId ""])
        (reported looked.diagnostics (by decide))) (position + 1)
      refine ⟨lookup', ?_, by simpa using looked'⟩
      simpa [empty, reportProblem] using built
    · by_cases known : recordId record ∈ lookup.byId.keys
      · obtain ⟨lookup', built, looked'⟩ := ih (looked.push empty position
          (lookup.diagnostics ++ [duplicateRecordId (recordId record)])
          (reported looked.diagnostics (by show "duplicate_branch_record_id" ≠ _; decide))) (position + 1)
        refine ⟨lookup', ?_, by simpa using looked'⟩
        simpa [empty, known, reportProblem] using built
      · obtain ⟨lookup', built, looked'⟩ := ih (looked.push empty position lookup.diagnostics looked.diagnostics)
          (position + 1)
        refine ⟨lookup', ?_, by simpa using looked'⟩
        simpa [empty, known, reportProblem] using built

theorem Looked.sourceOrder (looked : Looked recordId lookup records) :
    lookup.sourceOrder.Nodup ∧ ∀ id, id ∈ lookup.sourceOrder ↔ Kept recordId records id := by
  have sorted : lookup.sourceOrder.Perm lookup.positions.keys := (List.perm_insertionSort _ _).map _
  exact ⟨sorted.nodup_iff.mpr lookup.positions.nodup, fun id => sorted.mem_iff.trans (looked.placed id)⟩

/-! ## Links -/

/-- The first loop of `_normalize_parents` gives every kept id its link. -/
theorem normalizeLinks_compatible {byId : Dict String R} {records : List R}
    (known : ∀ id, id ∈ byId.keys ↔ Kept recordId records id)
    (latest : ∀ id, id ≠ "" → byId.get? id = lastRecord recordId records id) {order : List String}
    (kept : ∀ id ∈ order, Kept recordId records id) (parents : Dict String (Option String))
    {diagnostics : List BranchProblem}
    (none : diagnostics.filter (fun problem => problem.code = "branch_parent_cycle") = []) :
    ∃ parents' diagnostics', normalizeLinks parentId .compatible byId order (parents, diagnostics) =
        .ok (parents', diagnostics') ∧
      (∀ id, parentOf parents' id = if id ∈ order then keptLink recordId parentId records id else parentOf parents id) ∧
      diagnostics'.filter (fun problem => problem.code = "branch_parent_cycle") = [] := by
  induction order generalizing parents diagnostics with
  | nil => exact ⟨parents, diagnostics, rfl, fun id => by simp, none⟩
  | cons id rest ih =>
    have isKept := kept id List.mem_cons_self
    have later := @ih fun other member => kept other (List.mem_cons_of_mem _ member)
    -- the entry of the first id is its link, and later entries leave it
    have finish : ∀ (link : Option String) (diagnostics : List BranchProblem), keptLink recordId parentId records id = link →
        diagnostics.filter (fun problem => problem.code = "branch_parent_cycle") = [] →
        ∃ parents' diagnostics', normalizeLinks parentId .compatible byId rest (parents.set id link, diagnostics) =
            .ok (parents', diagnostics') ∧
          (∀ other, parentOf parents' other = if other ∈ id :: rest then keptLink recordId parentId records other
            else parentOf parents other) ∧
          diagnostics'.filter (fun problem => problem.code = "branch_parent_cycle") = [] := by
      intro link diagnostics isLink none
      obtain ⟨parents', diagnostics', built, links, none'⟩ := later (parents.set id link) none
      refine ⟨parents', diagnostics', built, fun other => ?_, none'⟩
      rw [links other]
      by_cases inRest : other ∈ rest
      · rw [if_pos inRest, if_pos (List.mem_cons_of_mem _ inRest)]
      · rw [if_neg inRest]
        unfold parentOf
        rw [Dict.get?_set]
        by_cases same : other = id
        · rw [if_pos same, if_pos (List.mem_cons.mpr (.inl same)), same, isLink]
          rfl
        · rw [if_neg same, if_neg fun member => (List.mem_cons.mp member).elim same inRest]
    have isLink : keptLink recordId parentId records id = ((byId.get? id).bind parentId).filter fun parent =>
        parent ≠ id ∧ Kept recordId records parent := by
      unfold keptLink
      rw [if_pos isKept, latest id isKept.1]
    rw [normalizeLinks]
    cases found : (byId.get? id).bind parentId with
    | none =>
      refine finish .none diagnostics ?_ none
      rw [isLink, found]
      rfl
    | some parent =>
      rw [found] at isLink
      dsimp only [reportProblem]
      split
      · next same =>
        refine finish .none _ ?_ (reported none (by show "self_parent_branch_record" ≠ _; decide))
        rw [isLink]
        exact Option.filter_some_neg (by simp [same])
      · next differs =>
        split
        · next missing =>
          refine finish .none _ ?_ (reported none (by show "dangling_branch_parent" ≠ _; decide))
          rw [isLink]
          exact Option.filter_some_neg (decide_eq_false fun fits => missing ((known parent).mpr fits.2))
        · next present =>
          refine finish (some parent) diagnostics ?_ none
          rw [isLink]
          refine Option.filter_some_pos ?_
          rw [decide_eq_true_eq]
          exact ⟨differs, (known parent).mp (Decidable.not_not.mp present)⟩

/-! ## Cycles -/

/-- The cycle loop of `_normalize_parents` ends within its passes, and cuts each cycle once. -/
theorem cutCycles_compatible {order : List String} {link : String → Option String}
    (linked : ∀ id parent, link id = some parent → id ∈ order) {passes : Nat}
    {parents : Dict String (Option String)} {diagnostics : List BranchProblem} {cut : List String}
    (links : parentOf parents = cutAt link cut) (cuts : Cuts link cut)
    (told : diagnostics.filter (fun problem => problem.code = "branch_parent_cycle") = cut.map parentCycle)
    (enough : linkCount order (parentOf parents) < passes) :
    ∃ parents' diagnostics' cut', cutCycles .compatible order passes (parents, diagnostics) =
        .ok (parents', diagnostics') ∧ parentOf parents' = cutAt link cut' ∧ Cuts link cut' ∧
      diagnostics'.filter (fun problem => problem.code = "branch_parent_cycle") = cut'.map parentCycle ∧
      findCycle order (parentOf parents') = none := by
  induction passes generalizing parents diagnostics cut with
  | zero => omega
  | succ passes ih =>
    rw [cutCycles]
    cases found : findCycle order (parentOf parents) with
    | none => exact ⟨parents, diagnostics, cut, rfl, links, cuts, told, found⟩
    | some cycle =>
      obtain ⟨c, rest, rfl, onCycle⟩ := findCycle_onCycle found
      have after : parentOf (parents.set c none) = fun id => if id = c then none else parentOf parents id := by
        funext id
        unfold parentOf
        rw [Dict.get?_set]
        split
        · rfl
        · rfl
      have isLinked : parentOf parents c ≠ none := by
        obtain ⟨next, link, -⟩ := onCycle
        rw [link]
        simp
      have inOrder : c ∈ order := by
        obtain ⟨next, link, -⟩ := onCycle
        rw [links] at link
        exact linked c next (cutAt_eq_some.mp link).2
      refine @ih (parents.set c none) (diagnostics ++ [parentCycle c]) (cut ++ [c]) ?_ ?_ ?_ ?_
      · rw [after, links]
        funext id
        exact (cutAt_append cut id c).symm
      · rw [links] at onCycle
        exact cuts.push onCycle
      · rw [List.filter_append, told, List.map_append]
        rfl
      · rw [after]
        have fewer := linkCount_cut inOrder isLinked
        omega

/-- A compatible graph over any records is a forest: the search ends with no cycle left, every kept id
has its line of ancestors down from a root, links are kept but for those that led to the record itself or
to no kept id, and one on each cycle, which has one diagnostic. -/
theorem compatible_forest (heap : Heap) (records : List R) :
    ∃ (heap' : Heap) (graph : BranchGraph R) (cut : List String),
      construct recordId parentId .compatible heap records = .ok (heap', graph) ∧
      graph.sourceOrder.Nodup ∧ (∀ id, id ∈ graph.sourceOrder ↔ Kept recordId records id) ∧
      (∀ id, id ≠ "" → graph.byId.get? id = lastRecord recordId records id) ∧
      findCycle graph.sourceOrder (parentOf graph.parents) = none ∧
      (∀ id ∈ graph.sourceOrder, ∃ line, Lineage (parentOf graph.parents) id line ∧ line.Nodup ∧
        line ⊆ graph.sourceOrder) ∧
      (∀ id, parentOf graph.parents id = if id ∈ cut then none else keptLink recordId parentId records id) ∧
      graph.diagnostics.filter (fun problem => problem.code = "branch_parent_cycle") = cut.map parentCycle ∧
      cut.Nodup ∧ (∀ id ∈ cut, OnCycle (keptLink recordId parentId records) id) ∧
      ∀ id, OnCycle (keptLink recordId parentId records) id →
        ∃ c, (c ∈ cut ∧ Above (keptLink recordId parentId records) id c) ∧
          ∀ d, d ∈ cut ∧ Above (keptLink recordId parentId records) id d → d = c := by
  have start : Looked recordId (⟨.empty, .empty, []⟩ : Lookup R) [] :=
    ⟨fun id => by simp [Kept, ids], fun id => by simp [Kept, ids], fun id _ => rfl, rfl⟩
  obtain ⟨lookup, built, looked⟩ := buildLookup_compatible start 0 records
  rw [List.nil_append] at looked
  obtain ⟨nodup, members⟩ := looked.sourceOrder
  obtain ⟨parents, diagnostics, normalized, links, none⟩ := normalizeLinks_compatible looked.known looked.latest
    (fun id member => (members id).mp member) .empty looked.diagnostics
  have linked : ∀ id parent, keptLink recordId parentId records id = some parent → id ∈ lookup.sourceOrder :=
    fun id parent link => (members id).mpr (keptLink_eq_some link).1
  have uncut : parentOf parents = cutAt (keptLink recordId parentId records) [] := by
    funext id
    rw [links id]
    unfold cutAt
    rw [if_neg List.not_mem_nil]
    split
    · rfl
    · next missing =>
      cases link : keptLink recordId parentId records id with
      | none => rfl
      | some parent => exact absurd (linked id parent link) missing
  obtain ⟨parents', diagnostics', cut, ended, links', cuts, told, acyclic⟩ := cutCycles_compatible linked uncut cuts_nil none
    (Nat.lt_succ_of_le List.countP_le_length :
      linkCount lookup.sourceOrder (parentOf parents) < lookup.sourceOrder.length + 1)
  have closing : Closing (parentOf parents') lookup.sourceOrder := by
    intro id _ parent link
    rw [links'] at link
    exact (members parent).mpr (keptLink_eq_some (cutAt_eq_some.mp link).2).2
  let lists := buildChildren heap lookup.sourceOrder parents'
  refine ⟨lists.heap, ⟨.compatible, records, diagnostics', lookup.byId, lookup.sourceOrder, parents', lists.refs, .none⟩,
    cut, ?_, nodup, members, looked.latest, acyclic, fun id member => ?_, fun id => ?_, told, cuts.nodup,
    cuts.onCycle, fun id cycle => cuts.complete (fun other left => ?_) cycle⟩
  · unfold construct
    rw [built]
    dsimp only
    rw [normalized]
    dsimp only
    rw [ended]
  · obtain ⟨line, lineage⟩ := lineage_of_findCycle closing acyclic member
    exact ⟨line, lineage, lineage.nodup, lineage.subset closing member⟩
  · rw [links']
    rfl
  · rw [← links'] at left
    have inOrder : other ∈ lookup.sourceOrder := by
      obtain ⟨next, link, -⟩ := left
      rw [links'] at link
      exact linked other next (cutAt_eq_some.mp link).2
    obtain ⟨line, lineage⟩ := lineage_of_findCycle closing acyclic inOrder
    exact lineage.not_onCycle left

end

end Loushang.Branch
