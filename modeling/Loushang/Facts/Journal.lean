import Loushang.Facts.Model

/-!
# The journal as a list of committed batches

What a store holds is a function of the batches committed to it, in order: numbered
facts, an index and a table of ranges. Journal validation accepts every such store,
because a fresh commit makes the checks validation makes.
-/
namespace Loushang.Facts
open Loushang.Lib

/-- Facts under consecutive sequences. -/
def numbered (start : Nat) (facts : List FactRecord) : List StoredFact :=
  (facts.zipIdx start).map fun numbered => ⟨numbered.2, numbered.1⟩

theorem numbered_cons (start : Nat) (fact : FactRecord) (rest : List FactRecord) :
    numbered start (fact :: rest) = ⟨start, fact⟩ :: numbered (start + 1) rest := by
  simp [numbered, List.zipIdx_cons]

theorem numbered_append (start : Nat) (front back : List FactRecord) :
    numbered start (front ++ back) = numbered start front ++ numbered (start + front.length) back := by
  simp [numbered, List.zipIdx_append]

@[simp] theorem length_numbered (start : Nat) (facts : List FactRecord) :
    (numbered start facts).length = facts.length := by
  simp [numbered]

@[simp] theorem map_fact_numbered (start : Nat) (facts : List FactRecord) :
    (numbered start facts).map StoredFact.fact = facts := by
  rw [numbered, List.map_map]
  exact List.zipIdx_map_fst start facts

theorem map_sequence_numbered (start : Nat) (facts : List FactRecord) :
    (numbered start facts).map StoredFact.sequence = List.range' start facts.length := by
  rw [numbered, List.map_map]
  exact List.zipIdx_map_snd start facts

/-! ## Identities -/

variable {facts : List FactRecord}

/-- At most one identity: any two facts have the same. -/
theorem identities_length_le :
    (identities facts).length ≤ 1 ↔
      ∀ fact ∈ facts, ∀ other ∈ facts, fact.schemaIdentity = other.schemaIdentity := by
  unfold identities
  constructor
  · intro short fact member other member'
    have one := List.mem_dedup.mpr (List.mem_map_of_mem (f := FactRecord.schemaIdentity) member)
    have two := List.mem_dedup.mpr (List.mem_map_of_mem (f := FactRecord.schemaIdentity) member')
    match listed : (facts.map FactRecord.schemaIdentity).dedup with
    | [] => simp [listed] at one
    | [only] =>
      rw [listed, List.mem_singleton] at one two
      rw [one, two]
    | _ :: _ :: _ => simp [listed] at short
  · intro same
    match listed : (facts.map FactRecord.schemaIdentity).dedup with
    | [] => simp
    | [only] => simp
    | one :: two :: rest =>
      have distinct := List.nodup_dedup (facts.map FactRecord.schemaIdentity)
      have inside : ∀ identity ∈ one :: two :: rest, ∃ fact ∈ facts, fact.schemaIdentity = identity := by
        intro identity member
        rw [← listed, List.mem_dedup] at member
        exact List.mem_map.mp member
      obtain ⟨fact, member, rfl⟩ := inside one (by simp)
      obtain ⟨other, member', rfl⟩ := inside two (by simp)
      rw [listed, same fact member other member'] at distinct
      simp at distinct

/-! ## The fact loop -/

theorem validateEntries_append (expected : Nat) (front back : List StoredFact) (lineage : Lineage) :
    validateEntries expected (front ++ back) lineage =
      match validateEntries expected front lineage with
      | .error error => .error error
      | .ok lineage' => validateEntries (expected + front.length) back lineage' := by
  induction front generalizing expected lineage with
  | nil => rfl
  | cons entry rest ih =>
    rw [List.cons_append, validateEntries, validateEntries]
    have shift : expected + (entry :: rest).length = expected + 1 + rest.length := by
      simp only [List.length_cons]
      omega
    split
    · rfl
    · split
      · rfl
      · cases entry.fact.predecessorId with
        | none =>
          rw [ih, shift]
        | some predecessorId =>
          simp only
          cases lineage.known.get? predecessorId with
          | none => rfl
          | some predecessor =>
            simp only
            cases validateFactLineage predecessor.fact entry.fact with
            | error error => rfl
            | ok _ =>
              simp only
              split
              · rfl
              · rw [ih, shift]

/-- What the loop has checked of its first fact. -/
structure Admitted (expected : Nat) (entry : StoredFact) (lineage : Lineage) : Prop where
  sequence : entry.sequence = expected
  new : entry.fact.factId ∉ lineage.known.keys
  predecessor : ∀ predecessorId, entry.fact.predecessorId = some predecessorId →
    predecessorId ∉ lineage.successors.keys ∧ ∃ predecessor,
      lineage.known.get? predecessorId = some predecessor ∧
        validateFactLineage predecessor.fact entry.fact = .ok ()

variable {expected : Nat} {lineage lineage' : Lineage}

theorem validateEntries_cons {entry : StoredFact} {rest : List StoredFact} :
    validateEntries expected (entry :: rest) lineage = .ok lineage' ↔
      Admitted expected entry lineage ∧
        validateEntries (expected + 1) rest (lineage.note entry) = .ok lineage' := by
  rw [validateEntries]
  constructor
  · intro success
    split at success
    · cases success
    · next inOrder =>
      split at success
      · cases success
      · next new =>
        cases link : entry.fact.predecessorId with
        | none =>
          rw [link] at success
          exact ⟨⟨not_not.mp inOrder, new, by simp [link]⟩, success⟩
        | some predecessorId =>
          rw [link] at success
          simp only at success
          split at success
          · cases success
          · next predecessor known =>
            split at success
            · cases success
            · next fine =>
              split at success
              · cases success
              · next only =>
                refine ⟨⟨not_not.mp inOrder, new, ?_⟩, success⟩
                rw [link]
                rintro _ ⟨⟩
                exact ⟨only, predecessor, known, fine⟩
  · rintro ⟨⟨inOrder, new, checked⟩, success⟩
    rw [if_neg (not_not.mpr inOrder), if_neg new]
    cases link : entry.fact.predecessorId with
    | none => exact success
    | some predecessorId =>
      obtain ⟨only, predecessor, known, fine⟩ := checked predecessorId link
      simp only [known, fine, only, if_false]
      exact success

variable {entries : List StoredFact}

/-- The dictionaries after a successful loop. -/
theorem validateEntries_lineage (success : validateEntries expected entries lineage = .ok lineage') :
    lineage' = entries.foldl Lineage.note lineage := by
  induction entries generalizing expected lineage with
  | nil =>
    cases success
    rfl
  | cons entry rest ih => exact ih (validateEntries_cons.mp success).2

/-- Every fact id is new when its fact is reached. -/
theorem validateEntries_ids (success : validateEntries expected entries lineage = .ok lineage') :
    (entries.map fun entry => entry.fact.factId).Nodup ∧
      ∀ entry ∈ entries, entry.fact.factId ∉ lineage.known.keys := by
  induction entries generalizing expected lineage with
  | nil => simp
  | cons entry rest ih =>
    obtain ⟨admitted, later⟩ := validateEntries_cons.mp success
    obtain ⟨distinct, unknown⟩ := ih later
    have apart : ∀ other ∈ rest, other.fact.factId ≠ entry.fact.factId ∧
        other.fact.factId ∉ lineage.known.keys := by
      intro other member
      have absent := unknown other member
      rw [Lineage.note, Dict.mem_keys_set] at absent
      exact not_or.mp absent
    constructor
    · rw [List.map_cons, List.nodup_cons]
      refine ⟨fun member => ?_, distinct⟩
      obtain ⟨other, member', same⟩ := List.mem_map.mp member
      exact (apart other member').1 same
    · exact List.forall_mem_cons.mpr ⟨admitted.new, fun other member => (apart other member).2⟩

/-- Preparation checks what validation checks, and numbers the facts. -/
theorem prepareEntries_valid {sequence : Nat} (success : prepareEntries sequence facts lineage = .ok entries) :
    entries = numbered sequence facts ∧
      ∃ lineage', validateEntries sequence entries lineage = .ok lineage' := by
  induction facts generalizing sequence lineage entries with
  | nil =>
    cases success
    exact ⟨rfl, lineage, rfl⟩
  | cons fact rest ih =>
    have later : ∀ {entries : List StoredFact},
        (prepareEntries (sequence + 1) rest (lineage.note ⟨sequence, fact⟩)).map
            (StoredFact.mk sequence fact :: ·) = .ok entries →
        ∃ rest', entries = ⟨sequence, fact⟩ :: rest' ∧ rest' = numbered (sequence + 1) rest ∧
          ∃ lineage', validateEntries (sequence + 1) rest' (lineage.note ⟨sequence, fact⟩) =
            .ok lineage' := by
      intro entries success
      cases prepared : prepareEntries (sequence + 1) rest (lineage.note ⟨sequence, fact⟩) with
      | error error =>
        rw [prepared] at success
        cases success
      | ok rest' =>
        rw [prepared] at success
        cases success
        exact ⟨rest', rfl, ih prepared⟩
    rw [prepareEntries] at success
    split at success
    · cases success
    · next new =>
      cases link : fact.predecessorId with
      | none =>
        rw [link] at success
        obtain ⟨rest', rfl, rfl, lineage', valid⟩ := later success
        refine ⟨(numbered_cons sequence fact rest).symm, lineage', ?_⟩
        exact validateEntries_cons.mpr ⟨⟨rfl, new, by simp [link]⟩, valid⟩
      | some predecessorId =>
        rw [link] at success
        simp only at success
        split at success
        · cases success
        · next predecessor known =>
          split at success
          · cases success
          · next lineageFine =>
            split at success
            · cases success
            · next only =>
              obtain ⟨rest', rfl, rfl, lineage', valid⟩ := later success
              refine ⟨(numbered_cons sequence fact rest).symm, lineage', ?_⟩
              refine validateEntries_cons.mpr ⟨⟨rfl, new, ?_⟩, valid⟩
              simp only [link]
              rintro _ ⟨⟩
              exact ⟨only, predecessor, known, lineageFine⟩

/-! ## The batch table -/

section

variable (contentDigest : FactBatch → String)

/-- The table entry of a batch committed at this sequence. -/
def commitEntry (start : Nat) (batch : FactBatch) : String × CommittedFactBatch :=
  (batch.batchId, ⟨contentDigest batch,
    ⟨batch.batchId, start, start + batch.facts.length - 1, batch.facts.length, false⟩⟩)

def commitEntries : Nat → List FactBatch → List (String × CommittedFactBatch)
  | _, [] => []
  | start, batch :: rest =>
    commitEntry contentDigest start batch :: commitEntries (start + batch.facts.length) rest

def allFacts (history : List FactBatch) : List FactRecord := history.flatMap FactBatch.facts

theorem commitEntries_append (start : Nat) (front back : List FactBatch) :
    commitEntries contentDigest start (front ++ back) =
      commitEntries contentDigest start front ++
        commitEntries contentDigest (start + (allFacts front).length) back := by
  induction front generalizing start with
  | nil => rfl
  | cons batch rest ih =>
    rw [List.cons_append, commitEntries, ih, commitEntries, List.cons_append]
    simp [allFacts, Nat.add_assoc]

theorem FactBatch.length_pos (batch : FactBatch) : 0 < batch.facts.length :=
  List.length_pos_of_ne_nil batch.nonempty

variable {start : Nat} {history : List FactBatch}

/-- Where each table entry comes from. -/
theorem mem_commitEntries {entry : String × CommittedFactBatch}
    (member : entry ∈ commitEntries contentDigest start history) :
    ∃ front batch back, history = front ++ batch :: back ∧
      entry = commitEntry contentDigest (start + (allFacts front).length) batch := by
  induction history generalizing start with
  | nil => cases member
  | cons batch rest ih =>
    rcases List.mem_cons.mp member with rfl | member
    · exact ⟨[], batch, rest, rfl, rfl⟩
    · obtain ⟨front, other, back, rfl, rfl⟩ := ih member
      refine ⟨batch :: front, other, back, rfl, ?_⟩
      simp [allFacts, Nat.add_assoc]

/-- Ranges follow each other. -/
theorem commitEntries_ordered (start : Nat) (history : List FactBatch) :
    (commitEntries contentDigest start history).Pairwise fun a b =>
      a.2.commit.lastSequence < b.2.commit.firstSequence := by
  induction history generalizing start with
  | nil => exact List.Pairwise.nil
  | cons batch rest ih =>
    rw [commitEntries, List.pairwise_cons]
    refine ⟨fun entry member => ?_, ih _⟩
    obtain ⟨front, other, back, _, rfl⟩ := mem_commitEntries contentDigest member
    have positive := batch.length_pos
    simp only [commitEntry]
    omega

theorem commitEntries_sorted (start : Nat) (history : List FactBatch) :
    (commitEntries contentDigest start history).Pairwise fun a b =>
      a.2.commit.firstSequence ≤ b.2.commit.firstSequence := by
  have ordered := commitEntries_ordered contentDigest start history
  refine List.Pairwise.imp_of_mem ?_ ordered
  intro a b member _ before
  obtain ⟨front, batch, back, _, rfl⟩ := mem_commitEntries contentDigest member
  simp only [commitEntry] at before ⊢
  omega

/-! ## Validation accepts a history -/

variable {facts : List FactRecord}

theorem get?_entriesBySequence {entry : StoredFact} (member : entry ∈ numbered 1 facts) :
    (entriesBySequence (numbered 1 facts)).get? entry.sequence = some entry := by
  have keys : ((numbered 1 facts).map fun entry => (entry.sequence, entry)).map Prod.fst =
      List.range' 1 facts.length := by
    rw [List.map_map, ← map_sequence_numbered]
    rfl
  apply Dict.get?_of_mem
  rw [entriesBySequence, Dict.entries_update_of_disjoint]
  · exact List.mem_map_of_mem member
  · rw [keys]
    exact List.nodup_range'
  · simp

theorem mapM_numbered {bySequence : Dict Nat StoredFact}
    (listed : ∀ entry ∈ numbered start facts, bySequence.get? entry.sequence = some entry) :
    (List.range' start facts.length).mapM bySequence.get? = some (numbered start facts) := by
  induction facts generalizing start with
  | nil => rfl
  | cons fact rest ih =>
    rw [numbered_cons] at listed ⊢
    have here := listed _ List.mem_cons_self
    have later := ih fun entry member => listed entry (List.mem_cons_of_mem _ member)
    rw [List.length_cons, List.range'_succ, List.mapM_cons, here, later]
    rfl

variable {all : List FactRecord}

theorem validateCommitted_entry {batch : FactBatch}
    (inside : ∀ entry ∈ numbered start batch.facts, entry ∈ numbered 1 all) :
    validateCommitted contentDigest (entriesBySequence (numbered 1 all))
      (commitEntry contentDigest start batch).1 (commitEntry contentDigest start batch).2 = .ok () := by
  have positive := batch.length_pos
  have range : sequenceRange start (start + batch.facts.length - 1) =
      List.range' start batch.facts.length := by
    rw [sequenceRange]
    congr 1
    omega
  have looked := mapM_numbered fun entry member => get?_entriesBySequence (inside entry member)
  unfold validateCommitted commitEntry
  simp only [ne_eq, not_true_eq_false, Bool.false_eq_true, or_self, if_false]
  rw [if_neg (by omega), if_neg (by omega), range, looked]
  simp only [map_fact_numbered, FactBatch.create_eq, not_true_eq_false, if_false]

theorem validateBatches_history {before : List FactRecord} (history : List FactBatch)
    (split : all = before ++ allFacts history) (covered : List Nat) :
    validateBatches contentDigest (entriesBySequence (numbered 1 all))
        (commitEntries contentDigest (1 + before.length) history) covered =
      .ok (covered ++ List.range' (1 + before.length) (allFacts history).length) := by
  induction history generalizing before covered with
  | nil => simp [commitEntries, validateBatches, allFacts]
  | cons batch rest ih =>
    have inside : ∀ entry ∈ numbered (1 + before.length) batch.facts, entry ∈ numbered 1 all := by
      intro entry member
      rw [split, numbered_append, show allFacts (batch :: rest) = batch.facts ++ allFacts rest from rfl,
        numbered_append]
      exact List.mem_append_right _ (List.mem_append_left _ member)
    have split' : all = (before ++ batch.facts) ++ allFacts rest := by
      rw [split, List.append_assoc]
      rfl
    have later := ih split'
      (covered ++ sequenceRange (1 + before.length) (1 + before.length + batch.facts.length - 1))
    have range : sequenceRange (1 + before.length) (1 + before.length + batch.facts.length - 1) =
        List.range' (1 + before.length) batch.facts.length := by
      rw [sequenceRange]
      congr 1
      omega
    rw [commitEntries]
    unfold validateBatches
    have fine := validateCommitted_entry contentDigest inside
    simp only [commitEntry] at fine ⊢
    rw [fine]
    rw [List.length_append, ← Nat.add_assoc] at later
    rw [later, range, List.append_assoc, List.range'_append_1,
      show allFacts (batch :: rest) = batch.facts ++ allFacts rest from rfl, List.length_append]

/-- What a store holds after these commits. -/
structure Holds (store : MemoryFactStore) (history : List FactBatch) : Prop where
  facts : store.facts = numbered 1 (allFacts history)
  byId : store.byId = Dict.empty.update (store.facts.map fun entry => (entry.fact.factId, entry))
  batches : store.batches.entries = commitEntries contentDigest 1 history
  lineage : ∃ lineage, validateEntries 1 store.facts .empty = .ok lineage
  identity : (identities (allFacts history)).length ≤ 1

theorem Holds.valid {store : MemoryFactStore} (holds : Holds contentDigest store history) :
    validateFactJournal contentDigest store.facts store.batches = .ok () := by
  obtain ⟨lineage, entriesFine⟩ := holds.lineage
  have batchesFine := validateBatches_history contentDigest history
    (List.nil_append (allFacts history)).symm []
  unfold validateFactJournal
  rw [entriesFine, holds.batches, (commitEntries_sorted contentDigest 1 history).insertionSort_eq,
    holds.facts, map_fact_numbered, if_neg (Nat.not_lt.mpr holds.identity)]
  rw [List.length_nil, Nat.add_zero, List.nil_append] at batchesFine
  simp only [batchesFine]
  rw [if_neg]
  simp [sequenceRange]

theorem Holds.empty : Holds contentDigest .empty [] :=
  ⟨rfl, rfl, rfl, ⟨.empty, rfl⟩, Nat.zero_le 1⟩

end

end Loushang.Facts
