import Loushang.Branch.Graph

/-!
# What makes records a strict graph

The first problem of a record list, and that construction and strict extension both
report exactly that one: extension by looking at the new records alone.
-/
namespace Loushang.Branch
open Loushang.Lib

section

variable {R : Type} (recordId : R → String) (parentId : R → Option String)

def ids (records : List R) : List String := records.map recordId

/-- The record with this id. -/
def find (records : List R) (id : String) : Option R := records.find? fun record => recordId record = id

/-- The parent link of the record with this id. -/
def linkOf (records : List R) (id : String) : Option String := (find recordId records id).bind parentId

/-- The first id that is empty or known. -/
def idProblem : List String → List R → Option BranchProblem
  | _, [] => none
  | known, record :: rest =>
    if recordId record = "" then some (invalidRecordId (recordId record))
    else if recordId record ∈ known then some (duplicateRecordId (recordId record))
    else idProblem (known ++ [recordId record]) rest

/-- The first link to the record itself or to no record. -/
def linkProblem (known : List String) : List R → Option BranchProblem
  | [] => none
  | record :: rest =>
    match parentId record with
    | none => linkProblem known rest
    | some parent =>
      if parent = recordId record then some (selfParent (recordId record))
      else if parent ∉ known then some (danglingParent (recordId record) parent)
      else linkProblem known rest

def cycleProblem (order : List String) (parent : String → Option String) : Option BranchProblem :=
  (findCycle order parent).map fun cycle => parentCycle (cycle.headD "")

/-- The problem a strict graph of these records is refused for. -/
def graphProblem (records : List R) : Option BranchProblem :=
  (idProblem recordId [] records).or <|
    (linkProblem recordId parentId (ids recordId records) records).or <|
      cycleProblem (ids recordId records) (linkOf recordId parentId records)

/-! ## Ids -/

@[simp] theorem ids_append (front back : List R) :
    ids recordId (front ++ back) = ids recordId front ++ ids recordId back :=
  List.map_append

variable {records : List R} {id : String}

theorem find_eq_none : find recordId records id = none ↔ id ∉ ids recordId records := by
  simp [find, ids]

variable {front : List R}

theorem find_append_left (back : List R) (member : id ∈ ids recordId front) :
    find recordId (front ++ back) id = find recordId front id := by
  unfold find
  rw [List.find?_append]
  cases found : front.find? fun record => recordId record = id with
  | none => exact absurd member ((find_eq_none recordId).mp found)
  | some record => rfl

theorem find_append_right (back : List R) (absent : id ∉ ids recordId front) :
    find recordId (front ++ back) id = find recordId back id := by
  unfold find
  have nothing : (front.find? fun record => recordId record = id) = none :=
    (find_eq_none recordId).mpr absent
  rw [List.find?_append, nothing]
  rfl

theorem find_of_mem (nodup : (ids recordId records).Nodup) {record : R} (member : record ∈ records) :
    find recordId records (recordId record) = some record := by
  cases found : find recordId records (recordId record) with
  | none => exact absurd (List.mem_map_of_mem member) ((find_eq_none recordId).mp found)
  | some other =>
    have same := List.find?_some found
    rw [decide_eq_true_eq] at same
    rw [List.inj_on_of_nodup_map nodup (List.mem_of_find?_eq_some found) member same]

theorem recordId_of_find {record : R} (found : find recordId records id = some record) :
    recordId record = id ∧ record ∈ records := by
  have same := List.find?_some found
  rw [decide_eq_true_eq] at same
  exact ⟨same, List.mem_of_find?_eq_some found⟩

theorem idProblem_append (known : List String) (front back : List R) :
    idProblem recordId known (front ++ back) =
      (idProblem recordId known front).or (idProblem recordId (known ++ ids recordId front) back) := by
  induction front generalizing known with
  | nil => simp [idProblem, ids]
  | cons record rest ih =>
    rw [List.cons_append, idProblem, idProblem, ih]
    split
    · rfl
    · split
      · rfl
      · rw [List.append_assoc]
        rfl

variable {known : List String}

theorem nodup_of_idProblem (nodup : known.Nodup) (fine : idProblem recordId known records = none) :
    (known ++ ids recordId records).Nodup := by
  induction records generalizing known with
  | nil => simpa [ids] using nodup
  | cons record rest ih =>
    rw [idProblem] at fine
    split at fine
    · cases fine
    · split at fine
      · cases fine
      · next new =>
        have longer : (known ++ [recordId record]).Nodup :=
          List.nodup_append.mpr ⟨nodup, List.nodup_singleton _, by
            rintro a member b only rfl
            exact new (List.mem_singleton.mp only ▸ member)⟩
        have all := ih longer fine
        rwa [List.append_assoc] at all

/-! ## Links -/

theorem linkProblem_append (known : List String) (front back : List R) :
    linkProblem recordId parentId known (front ++ back) =
      (linkProblem recordId parentId known front).or (linkProblem recordId parentId known back) := by
  induction front with
  | nil => rfl
  | cons record rest ih =>
    rw [List.cons_append, linkProblem, linkProblem, ih]
    cases parentId record with
    | none => rfl
    | some parent =>
      simp only
      split
      · rfl
      · split <;> rfl

/-- Every parent is known, and is another record. -/
theorem links_of_linkProblem {known : List String} {records : List R}
    (fine : linkProblem recordId parentId known records = none) {record : R}
    (member : record ∈ records) {parent : String} (link : parentId record = some parent) :
    parent ∈ known ∧ parent ≠ recordId record := by
  induction records with
  | nil => cases member
  | cons head rest ih =>
    rw [linkProblem] at fine
    rcases List.mem_cons.mp member with rfl | member
    · rw [link] at fine
      simp only at fine
      split at fine
      · cases fine
      · next other =>
        split at fine
        · cases fine
        · next present => exact ⟨not_not.mp present, other⟩
    · refine ih ?_ member
      cases headLink : parentId head with
      | none =>
        rw [headLink] at fine
        exact fine
      | some other =>
        rw [headLink] at fine
        simp only at fine
        split at fine
        · cases fine
        · split at fine
          · cases fine
          · exact fine

/-- More known ids do not make a link wrong. -/
theorem linkProblem_mono {known' : List String} (more : known ⊆ known')
    (fine : linkProblem recordId parentId known records = none) :
    linkProblem recordId parentId known' records = none := by
  induction records with
  | nil => rfl
  | cons record rest ih =>
    have parents := fun parent => @links_of_linkProblem R recordId parentId known (record :: rest) fine
      record List.mem_cons_self parent
    rw [linkProblem] at fine ⊢
    cases link : parentId record with
    | none =>
      rw [link] at fine
      exact ih fine
    | some parent =>
      obtain ⟨present, other⟩ := parents parent link
      rw [link] at fine
      simp only [other, if_false, present, not_true_eq_false, more present] at fine ⊢
      exact ih fine

/-! ## Sound records -/

/-- What an accepted strict graph knows about its records. -/
structure Sound (records : List R) : Prop where
  nodup : (ids recordId records).Nodup
  links : ∀ record ∈ records, ∀ parent, parentId record = some parent →
    parent ∈ ids recordId records ∧ parent ≠ recordId record
  acyclic : findCycle (ids recordId records) (linkOf recordId parentId records) = none

variable {recordId parentId}

theorem graphProblem_eq_none :
    graphProblem recordId parentId records = none ↔
      idProblem recordId [] records = none ∧
      linkProblem recordId parentId (ids recordId records) records = none ∧
      findCycle (ids recordId records) (linkOf recordId parentId records) = none := by
  simp [graphProblem, cycleProblem]

theorem sound_of_graphProblem (accepted : graphProblem recordId parentId records = none) :
    Sound recordId parentId records := by
  obtain ⟨idsFine, linksFine, acyclic⟩ := graphProblem_eq_none.mp accepted
  refine ⟨?_, ?_, acyclic⟩
  · simpa using nodup_of_idProblem recordId List.nodup_nil idsFine
  · intro record member parent link
    exact links_of_linkProblem recordId parentId linksFine member link

theorem Sound.link_mem (sound : Sound recordId parentId records) {parent : String}
    (link : linkOf recordId parentId records id = some parent) : parent ∈ ids recordId records := by
  obtain ⟨record, found, here⟩ := Option.bind_eq_some_iff.mp link
  exact (sound.links record (recordId_of_find recordId found).2 parent here).1

theorem Sound.closing (sound : Sound recordId parentId records) :
    Closing (linkOf recordId parentId records) (ids recordId records) :=
  fun _ _ _ link => sound.link_mem link

theorem Sound.lineage (sound : Sound recordId parentId records) (member : id ∈ ids recordId records) :
    ∃ line, Lineage (linkOf recordId parentId records) id line :=
  lineage_of_findCycle sound.closing sound.acyclic member

theorem linkOf_append_left (back : List R) (member : id ∈ ids recordId front) :
    linkOf recordId parentId (front ++ back) id = linkOf recordId parentId front id := by
  rw [linkOf, linkOf, find_append_left recordId back member]

/-- The links between appended records, as the extension sees them. -/
theorem within_linkOf {back : List R} (apart : ∀ id ∈ ids recordId back, id ∉ ids recordId front)
    (member : id ∈ ids recordId back) :
    within (ids recordId back) (linkOf recordId parentId (front ++ back)) id =
      (linkOf recordId parentId back id).filter (· ∈ ids recordId back) := by
  rw [within, linkOf, linkOf, find_append_right recordId back (apart id member)]

/-- A sound front leaves the problem of the whole to the new records. -/
theorem graphProblem_append {back : List R} (accepted : graphProblem recordId parentId front = none) :
    graphProblem recordId parentId (front ++ back) =
      (idProblem recordId (ids recordId front) back).or
        ((linkProblem recordId parentId (ids recordId front ++ ids recordId back) back).or
          (cycleProblem (ids recordId back) fun id =>
            (linkOf recordId parentId back id).filter (· ∈ ids recordId back))) := by
  obtain ⟨idsFine, linksFine, acyclic⟩ := graphProblem_eq_none.mp accepted
  have sound := sound_of_graphProblem accepted
  rw [graphProblem, idProblem_append, idsFine, Option.none_or, List.nil_append, ids_append]
  cases idsBack : idProblem recordId (ids recordId front) back with
  | some problem => rfl
  | none =>
    have nodup := nodup_of_idProblem recordId sound.nodup idsBack
    have apart : ∀ id ∈ ids recordId back, id ∉ ids recordId front := by
      intro id member present
      exact (List.nodup_append.mp nodup).2.2 id present id member rfl
    rw [Option.none_or, Option.none_or, linkProblem_append,
      linkProblem_mono recordId parentId (List.subset_append_left _ _) linksFine, Option.none_or]
    cases linksBack : linkProblem recordId parentId (ids recordId front ++ ids recordId back) back with
    | some problem => rfl
    | none =>
      rw [Option.none_or, Option.none_or, cycleProblem, cycleProblem]
      have frontSame : ∀ id ∈ ids recordId front,
          linkOf recordId parentId (front ++ back) id = linkOf recordId parentId front id :=
        fun id member => linkOf_append_left back member
      have closingFront : Closing (linkOf recordId parentId (front ++ back)) (ids recordId front) := by
        intro id member parent link
        rw [frontSame id member] at link
        exact sound.link_mem link
      have frontAcyclic : findCycle (ids recordId front) (linkOf recordId parentId (front ++ back)) =
          none := by
        rw [findCycle_congr sound.closing frontSame]
        exact acyclic
      have closingBack : ∀ id ∈ ids recordId back, ∀ parent,
          linkOf recordId parentId (front ++ back) id = some parent →
            parent ∈ ids recordId front ++ ids recordId back := by
        intro id member parent link
        rw [linkOf, find_append_right recordId back (apart id member)] at link
        obtain ⟨record, found, here⟩ := Option.bind_eq_some_iff.mp link
        exact (links_of_linkProblem recordId parentId linksBack
          (recordId_of_find recordId found).2 here).1
      rw [findCycle_append closingFront frontAcyclic closingBack apart,
        ← findCycle_congr closing_within (fun id member => (within_linkOf apart member).symm)]

end

end Loushang.Branch
