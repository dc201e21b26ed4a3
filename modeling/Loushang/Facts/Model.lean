import Loushang.Lib.Json
import Loushang.Lib.Text
import Mathlib.Algebra.Order.Ring.Rat
import Mathlib.Data.List.Dedup
import Loushang.Lib.Dict
import Loushang.Lib.Run
import Mathlib.Data.List.Sort

/-!
# Facts and fact batches

`facts/model.py`, `facts/ports.py` and `schema/identity.py`. What `__post_init__` checks
is a field, so a value of the type has passed it. A finite float is a rational number;
documents and digests are not built here.
-/
namespace Loushang.Facts
open Loushang.Lib

abbrev Uuid := BitVec 128

instance : LawfulBEq Uuid := inferInstance

/-- `str(uuid)`. -/
def Uuid.text (id : Uuid) : String :=
  let digit (place : Nat) : Char := Nat.digitChar (id.toNat / 16 ^ place % 16)
  let group (first count : Nat) : List Char :=
    ((List.range count).map fun offset => digit (first - offset))
  String.ofList (group 31 8 ++ '-' :: group 23 4 ++ '-' :: group 19 4 ++ '-' :: group 15 4 ++
    '-' :: group 11 12)

structure SchemaIdentity where
  packageId : PyStr
  ns : PyStr
  version : PyStr
  deriving DecidableEq

inductive AssertionKind where
  | asserted
  | derived
  | inferred
  deriving DecidableEq

inductive FactAssertion where
  | object (objectTypeId : PyStr)
  | property (propertyId : PyStr) (value : Json)
  | link (linkTypeId : PyStr) (targetId : Uuid) (properties : List (String × Json))
  deriving DecidableEq

def FactAssertion.category : FactAssertion → String
  | .object _ => "object"
  | .property _ _ => "property"
  | .link _ _ _ => "link"

/-- `FactRecord.predicate`. -/
def FactAssertion.predicate : FactAssertion → PyStr
  | .object _ => "$type"
  | .property propertyId _ => propertyId
  | .link linkTypeId _ _ => linkTypeId

/-- The id an assertion requires to be a text. -/
def FactAssertion.semanticId : FactAssertion → PyStr
  | .object objectTypeId => objectTypeId
  | .property propertyId _ => propertyId
  | .link linkTypeId _ _ => linkTypeId

/-- `_require_text`. -/
def isText (value : PyStr) : Bool := !value.isBlank

structure FactRecord where
  factId : Uuid
  subjectId : Uuid
  schemaIdentity : SchemaIdentity
  assertion : FactAssertion
  assertionKind : AssertionKind
  sourceRef : PyStr
  sourceRecordRef : PyStr
  validFrom : ℚ
  recordedAt : ℚ
  validTo : Option ℚ
  evidenceRefs : List PyStr
  methodologyRef : Option PyStr
  confidence : Option ℚ
  authorRef : Option PyStr
  agentRef : Option PyStr
  supersedes : Option Uuid
  corrects : Option Uuid
  texts : ([assertion.semanticId, sourceRef, sourceRecordRef] ++ evidenceRefs ++ methodologyRef.toList ++
    authorRef.toList ++ agentRef.toList).all isText = true
  interval : validTo.all (fun until_ => validFrom < until_) = true
  certainty : confidence.all (fun level => 0 ≤ level && level ≤ 1) = true
  oneEdge : supersedes = none ∨ corrects = none
  notSelf : supersedes.or corrects ≠ some factId
  deriving DecidableEq

def FactRecord.predecessorId (fact : FactRecord) : Option Uuid := fact.supersedes.or fact.corrects

/-- `lineage_coordinate[:4]`. -/
def FactRecord.assertionCoordinate (fact : FactRecord) : Uuid × String × PyStr × AssertionKind :=
  (fact.subjectId, fact.assertion.category, fact.assertion.predicate, fact.assertionKind)

/-- `lineage_coordinate[4:]`. -/
def FactRecord.sourceCoordinate (fact : FactRecord) : PyStr × PyStr :=
  (fact.sourceRef, fact.sourceRecordRef)

def FactRecord.isValidAt (fact : FactRecord) (timestamp : ℚ) : Bool :=
  decide (fact.validFrom ≤ timestamp) && fact.validTo.all fun until_ => timestamp < until_

/-- The kinds of `FactValidationError`, and `ValueError`. -/
inductive FactError where
  | validation (message : String)
  | batchConflict (message : String)
  | watermarkConflict (expected actual : Int)
  | value (message : String)
  deriving DecidableEq

/-- The distinct schema identities of these facts. -/
def identities (facts : List FactRecord) : List SchemaIdentity :=
  (facts.map FactRecord.schemaIdentity).dedup

structure FactBatch where
  batchId : String
  facts : List FactRecord
  text : isText batchId = true
  nonempty : facts ≠ []
  oneIdentity : (identities facts).length = 1
  distinct : (facts.map FactRecord.factId).Nodup

/-- `FactBatch(batch_id, facts)`. -/
def FactBatch.create (batchId : String) (facts : List FactRecord) : Except FactError FactBatch :=
  if text : isText batchId = true then
    if nonempty : facts ≠ [] then
      if oneIdentity : (identities facts).length = 1 then
        if distinct : (facts.map FactRecord.factId).Nodup then
          .ok ⟨batchId, facts, text, nonempty, oneIdentity, distinct⟩
        else .error (.validation "FactBatch contains a duplicate fact_id")
      else .error (.validation "FactBatch facts must share one complete schema identity")
    else .error (.validation "a FactBatch must contain at least one fact")
  else .error (.validation "batch_id must be a non-empty string")

def FactBatch.schemaIdentity (batch : FactBatch) : SchemaIdentity :=
  (batch.facts.head batch.nonempty).schemaIdentity

theorem FactBatch.create_eq (batch : FactBatch) :
    FactBatch.create batch.batchId batch.facts = .ok batch := by
  unfold FactBatch.create
  rw [dif_pos batch.text, dif_pos batch.nonempty, dif_pos batch.oneIdentity, dif_pos batch.distinct]

/-- All facts of a batch have its identity. -/
theorem FactBatch.schemaIdentity_eq (batch : FactBatch) {fact : FactRecord} (member : fact ∈ batch.facts) :
    fact.schemaIdentity = batch.schemaIdentity := by
  obtain ⟨only, single⟩ := List.length_eq_one_iff.mp batch.oneIdentity
  have all : ∀ fact ∈ batch.facts, fact.schemaIdentity = only := by
    intro fact member
    have listed : fact.schemaIdentity ∈ identities batch.facts :=
      List.mem_dedup.mpr (List.mem_map_of_mem member)
    rwa [single, List.mem_singleton] at listed
  rw [all fact member, FactBatch.schemaIdentity, all _ (List.head_mem batch.nonempty)]

structure StoredFact where
  sequence : Nat
  fact : FactRecord
  deriving DecidableEq

structure FactCommit where
  batchId : String
  firstSequence : Nat
  lastSequence : Nat
  factCount : Nat
  replayed : Bool
  deriving DecidableEq

structure FactSelection where
  facts : List StoredFact
  factWatermark : Nat
  validAt : ℚ
  recordedAt : ℚ
  ascending : (facts.map StoredFact.sequence).Pairwise (· < ·)
  bounded : ∀ item ∈ facts, item.sequence ≤ factWatermark

/-!
## Committing and selecting facts

`facts/commit.py` and `MemoryFactStore` of `storage/memory.py`. The content digest is a
function of a batch. Sequences are natural numbers: the stores only make positive ones.
-/

structure CommittedFactBatch where
  digest : String
  commit : FactCommit
  deriving DecidableEq

structure PreparedFactCommit where
  batch : FactBatch
  digest : String
  entries : List StoredFact
  commit : FactCommit

def validateFactLineage (predecessor successor : FactRecord) : Except FactError Unit :=
  if predecessor.schemaIdentity ≠ successor.schemaIdentity then
    .error (.validation "fact lineage must preserve its schema identity")
  else if predecessor.assertionCoordinate ≠ successor.assertionCoordinate then
    .error (.validation "fact lineage must preserve its assertion coordinate")
  else if predecessor.sourceCoordinate ≠ successor.sourceCoordinate then
    .error (.validation "fact lineage must preserve its source lineage")
  else if successor.recordedAt < predecessor.recordedAt then
    .error (.validation "fact lineage successor recorded_at cannot precede its predecessor")
  else .ok ()

/-- The dictionaries `known` and `successors`. -/
structure Lineage where
  known : Dict Uuid StoredFact
  successors : Dict Uuid Uuid

def Lineage.empty : Lineage := ⟨.empty, .empty⟩

/-- One more fact in both dictionaries. -/
def Lineage.note (lineage : Lineage) (entry : StoredFact) : Lineage where
  known := lineage.known.set entry.fact.factId entry
  successors :=
    match entry.fact.predecessorId with
    | none => lineage.successors
    | some predecessorId => lineage.successors.set predecessorId entry.fact.factId

/-- The loop of `validate_fact_journal` over the facts. -/
def validateEntries : Nat → List StoredFact → Lineage → Except FactError Lineage
  | _, [], lineage => .ok lineage
  | expectedSequence, entry :: rest, lineage =>
    if entry.sequence ≠ expectedSequence then
      .error (.validation "stored fact sequence is not contiguous")
    else if entry.fact.factId ∈ lineage.known.keys then
      .error (.validation "stored ontology fact_id is duplicated")
    else
      match entry.fact.predecessorId with
      | none => validateEntries (expectedSequence + 1) rest (lineage.note entry)
      | some predecessorId =>
        match lineage.known.get? predecessorId with
        | none => .error (.validation "stored fact lineage is not append-only")
        | some predecessor =>
          match validateFactLineage predecessor.fact entry.fact with
          | .error error => .error error
          | .ok () =>
            if predecessorId ∈ lineage.successors.keys then
              .error (.validation "stored fact has multiple successors")
            else validateEntries (expectedSequence + 1) rest (lineage.note entry)

/-- `entries_by_sequence`. -/
def entriesBySequence (entries : List StoredFact) : Dict Nat StoredFact :=
  Dict.empty.update (entries.map fun entry => (entry.sequence, entry))

/-- `range(first, last + 1)`. -/
def sequenceRange (first last : Nat) : List Nat := List.range' first (last + 1 - first)

section

variable (contentDigest : FactBatch → String)

/-- One committed batch of `validate_fact_journal`. -/
def validateCommitted (bySequence : Dict Nat StoredFact) (batchId : String)
    (committed : CommittedFactBatch) : Except FactError Unit :=
  let commit := committed.commit
  if batchId ≠ commit.batchId ∨ commit.replayed = true then
    .error (.validation "stored fact batch metadata is invalid")
  else if commit.factCount = 0 then .error (.validation "stored fact batch is empty")
  else if commit.lastSequence + 1 ≠ commit.firstSequence + commit.factCount then
    .error (.validation "stored fact batch range is invalid")
  else
    match (sequenceRange commit.firstSequence commit.lastSequence).mapM bySequence.get? with
    | none => .error (.validation "stored fact batch range is outside the fact journal")
    | some entries =>
      match FactBatch.create batchId (entries.map StoredFact.fact) with
      | .error error => .error error
      | .ok batch =>
        if contentDigest batch ≠ committed.digest then
          .error (.validation "stored fact batch digest does not match its semantic facts")
        else .ok ()

/-- The loop over the committed batches; the result is `covered_sequences`. -/
def validateBatches (bySequence : Dict Nat StoredFact) :
    List (String × CommittedFactBatch) → List Nat → Except FactError (List Nat)
  | [], covered => .ok covered
  | (batchId, committed) :: rest, covered =>
    match validateCommitted contentDigest bySequence batchId committed with
    | .error error => .error error
    | .ok () =>
      validateBatches bySequence rest
        (covered ++ sequenceRange committed.commit.firstSequence committed.commit.lastSequence)

/-- `validate_fact_journal`. -/
def validateFactJournal (entries : List StoredFact) (committed : Dict String CommittedFactBatch) :
    Except FactError Unit :=
  if 1 < (identities (entries.map StoredFact.fact)).length then
    .error (.validation "stored Fact journal mixes complete schema identities")
  else
    match validateEntries 1 entries .empty with
    | .error error => .error error
    | .ok _ =>
      let ordered := committed.entries.insertionSort fun a b =>
        a.2.commit.firstSequence ≤ b.2.commit.firstSequence
      match validateBatches contentDigest (entriesBySequence entries) ordered [] with
      | .error error => .error error
      | .ok covered =>
        if covered ≠ sequenceRange 1 entries.length then
          .error (.validation "stored fact batches do not cover the semantic fact journal")
        else .ok ()

/-- The loop of `prepare_fact_commit`. -/
def prepareEntries : Nat → List FactRecord → Lineage → Except FactError (List StoredFact)
  | _, [], _ => .ok []
  | sequence, fact :: rest, lineage =>
    let entry : StoredFact := ⟨sequence, fact⟩
    if fact.factId ∈ lineage.known.keys then
      .error (.validation ("ontology fact_id " ++ fact.factId.text ++ " is already committed"))
    else
      match fact.predecessorId with
      | none => (prepareEntries (sequence + 1) rest (lineage.note entry)).map (entry :: ·)
      | some predecessorId =>
        match lineage.known.get? predecessorId with
        | none => .error (.validation ("ontology fact " ++ fact.factId.text ++
            " references unknown predecessor " ++ predecessorId.text))
        | some predecessor =>
          match validateFactLineage predecessor.fact fact with
          | .error error => .error error
          | .ok () =>
            if predecessorId ∈ lineage.successors.keys then
              .error (.validation ("ontology fact " ++ predecessorId.text ++ " already has a successor"))
            else (prepareEntries (sequence + 1) rest (lineage.note entry)).map (entry :: ·)

/-- `prepare_fact_commit`. -/
def prepareFactCommit (batch : FactBatch) (currentFacts : List StoredFact)
    (committedBatches : Dict String CommittedFactBatch) : Except FactError PreparedFactCommit :=
  match validateFactJournal contentDigest currentFacts committedBatches with
  | .error error => .error error
  | .ok () =>
    let existing := identities (currentFacts.map StoredFact.fact)
    if existing ≠ [] ∧ batch.schemaIdentity ∉ existing then
      .error (.validation "FactStore cannot mix complete schema identities in one journal")
    else
      let digest := contentDigest batch
      match committedBatches.get? batch.batchId with
      | some committed =>
        if committed.digest ≠ digest then
          .error (.batchConflict ("Fact batch '" ++ batch.batchId ++
            "' was already committed with other content"))
        else .ok ⟨batch, digest, [], { committed.commit with replayed := true }⟩
      | none =>
        let firstSequence := currentFacts.length + 1
        match prepareEntries firstSequence batch.facts (currentFacts.foldl Lineage.note .empty) with
        | .error error => .error error
        | .ok entries =>
          .ok ⟨batch, digest, entries, ⟨batch.batchId, firstSequence,
            firstSequence + entries.length - 1, entries.length, false⟩⟩

/-- `require_sequence`. -/
def requireSequence (name : String) (value : Int) : Except FactError Nat :=
  if value < 0 then .error (.value (name ++ " must be a non-negative integer")) else .ok value.toNat

/-- `prepare_guarded_fact_commit`. -/
def prepareGuardedFactCommit (batch : FactBatch) (expectedWatermark : Int)
    (currentFacts : List StoredFact) (committedBatches : Dict String CommittedFactBatch) :
    Except FactError PreparedFactCommit :=
  match requireSequence "expected_watermark" expectedWatermark with
  | .error error => .error error
  | .ok expected =>
    match validateFactJournal contentDigest currentFacts committedBatches with
    | .error error => .error error
    | .ok () =>
      if batch.batchId ∈ committedBatches.keys then
        prepareFactCommit contentDigest batch currentFacts committedBatches
      else if expected ≠ currentFacts.length then
        .error (.watermarkConflict expected currentFacts.length)
      else prepareFactCommit contentDigest batch currentFacts committedBatches

/-- `select_facts_as_of`. -/
def selectFactsAsOf (entries : List StoredFact) (validAt recordedAt : ℚ) :
    Except FactError (List StoredFact) :=
  if 1 < (identities (entries.map StoredFact.fact)).length then
    .error (.validation "stored Fact journal mixes complete schema identities")
  else
    let retired := (entries.filter fun item => item.fact.recordedAt ≤ recordedAt).filterMap
      fun item => item.fact.predecessorId
    .ok (entries.filter fun item =>
      decide (item.fact.recordedAt ≤ recordedAt) && item.fact.isValidAt validAt &&
        decide (item.fact.factId ∉ retired))

/-! ## The store -/

structure MemoryFactStore where
  facts : List StoredFact
  byId : Dict Uuid StoredFact
  batches : Dict String CommittedFactBatch

def MemoryFactStore.empty : MemoryFactStore := ⟨[], .empty, .empty⟩

/-- `_apply_fact_commit`. -/
def MemoryFactStore.apply (store : MemoryFactStore) (plan : PreparedFactCommit) :
    FactCommit × MemoryFactStore :=
  if plan.commit.replayed = true then (plan.commit, store)
  else (plan.commit,
    ⟨store.facts ++ plan.entries,
      store.byId.update (plan.entries.map fun entry => (entry.fact.factId, entry)),
      store.batches.set plan.batch.batchId ⟨plan.digest, plan.commit⟩⟩)

inductive CommitRequest where
  | commit (batch : FactBatch)
  | guarded (batch : FactBatch) (expectedWatermark : Int)

def CommitRequest.batch : CommitRequest → FactBatch
  | .commit batch => batch
  | .guarded batch _ => batch

def prepare (store : MemoryFactStore) : CommitRequest → Except FactError PreparedFactCommit
  | .commit batch => prepareFactCommit contentDigest batch store.facts store.batches
  | .guarded batch expectedWatermark =>
    prepareGuardedFactCommit contentDigest batch expectedWatermark store.facts store.batches

/-- `commit_fact_batch` and `commit_fact_batch_guarded`. -/
def MemoryFactStore.commitFactBatch (store : MemoryFactStore) (request : CommitRequest) :
    Except FactError FactCommit × MemoryFactStore :=
  match prepare contentDigest store request with
  | .error error => (.error error, store)
  | .ok plan => (.ok (store.apply plan).1, (store.apply plan).2)

def factStore : Machine MemoryFactStore CommitRequest (Except FactError FactCommit) :=
  ⟨MemoryFactStore.commitFactBatch contentDigest⟩

/-- `fact_watermark`. -/
def MemoryFactStore.factWatermark (store : MemoryFactStore) : Nat := store.facts.length

end

end Loushang.Facts
