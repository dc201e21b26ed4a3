import Loushang.Lib.Run
import Loushang.UnitOfWork.Unit

/-!
# The calls of a unit of work

The public operations of `transcript/unit_of_work.py` that commit, select or replay. The commit lock
serialises commits, and a commit in progress refuses a selection, so a run is a list of whole calls; a
replay that overlaps a commit comes before or after the step that publishes it. A caller that is
cancelled while its commit runs is an input flag.
-/
namespace Loushang.UnitOfWork
open Loushang.Lib Loushang.Branch Loushang.Transcript Loushang.Conversation

/-- What the record factory makes a record of, but for its parent. -/
structure Draft (B : Type) where
  recordId : String
  kind : String
  createdAt : String
  payload : DecodedPayload B
  recordIdText : isBlankText recordId = false

def Draft.create {B : Type} (draft : Draft B) (parentId : Option String) : TranscriptRecord B :=
  ⟨draft.recordId, parentId, draft.kind, draft.createdAt, draft.payload, draft.recordIdText⟩

/-- Drafts as one chain. -/
def createChain {B : Type} : Option String → List (Draft B) → List (TranscriptRecord B)
  | _, [] => []
  | parentId, draft :: rest => draft.create parentId :: createChain (some draft.recordId) rest

/-- The place a Model Input append expects the transcript at. -/
structure ExpectedPlace where
  maxEncodedRecordBytes : Int
  revision : Nat
  leafId : String

inductive CommitCall (B : Type) where
  | commit (record : TranscriptRecord B)
  | commitBatch (records : List (TranscriptRecord B))
  | append (draft : Draft B)
  /-- `_append_model_input_fact`. -/
  | appendModelInputFact (draft : Draft B) (place : ExpectedPlace)
  /-- `append_model_input_components` and `append_model_input_node_bundles`. -/
  | appendModelInputComponents (drafts : List (Draft B)) (place : ExpectedPlace)
  | appendStagedModelInputSnapshot (components : List (TranscriptRecord B)) (snapshot : Draft B)
      (commitRevision : Nat) (place : ExpectedPlace)
  | appendModelCallOutcome (draft : Draft B) (revision : Nat) (leafId : String)
  | appendModelCallTerminalBatch (usage outcome : Draft B) (place : ExpectedPlace)

/-- What a call hands on to be committed, once its own checks have passed. -/
inductive Submission (B : Type) where
  | single (record : TranscriptRecord B) (propagateCancellation : Bool)
  | batch (records : List (TranscriptRecord B)) (propagateCancellation lineageVerified : Bool)

namespace TranscriptUnitOfWork

variable {W H B τ S : Type} (around : Surroundings H B τ S) (u : TranscriptUnitOfWork W H B τ S)

/-! ## Checks on a record -/

/-- `_require_encoded_record_size`. -/
def requireEncodedRecordSize (record : TranscriptRecord B) (maximum : Int) : Except UnitFault Unit :=
  if maximum < 1 then .error (.value "maximum encoded record bytes must be positive")
  else
    match around.encodedSize record with
    | .error message => .error (.value message)
    | .ok size => if maximum < size then .error (.recordSize record.kind size maximum.toNat) else .ok ()

/-- `_require_model_input_record_size`. -/
def requireModelInputRecordSize (record : TranscriptRecord B) : Except UnitFault Unit :=
  if record.kind ∈ [modelCallOutcomeKind, modelInputComponentKind, modelInputPreparedKind] then
    requireEncodedRecordSize around record modelInputMaxEncodedRecordBytes
  else .ok ()

/-- `_require_model_input_lineage`. -/
def requireModelInputLineage (purposes : List String) : List String → Except UnitFault Unit
  | [] => .ok ()
  | snapshotId :: rest =>
    match around.rebuiltPurpose u.repository.records u.repository.leafId snapshotId with
    | .error message => .error (.integrity message)
    | .ok purpose =>
      if purpose ∈ purposes then requireModelInputLineage purposes rest
      else .error (.integrity "Model Input lineage has another purpose")

def snapshot? (payload : DecodedPayload B) : Option SnapshotFacts :=
  match payload.content with
  | .modelInputSnapshot facts | .modelInputSnapshotV2 facts => some facts
  | _ => none

def usage? (payload : DecodedPayload B) : Option UsageFacts :=
  match payload.content with
  | .modelCallAttemptUsage facts => some facts
  | _ => none

/-- `_require_model_call_attempt_usage`, on the active path. -/
def requireModelCallAttemptUsage (activePath : List (TranscriptRecord B)) (usage : UsageFacts) :
    Except UnitFault Unit :=
  let snapshots := activePath.filterMap fun record => snapshot? record.payload
  if (snapshots.filter fun snapshot => snapshot.snapshotId = usage.modelInputSnapshotId ∧
      snapshot.invocationId = usage.invocationId ∧ snapshot.attempt = usage.attempt).length ≠ 1 then
    .error (.integrity "model call attempt usage does not match one active Model Input snapshot")
  else if activePath.any fun record =>
      record.payload.outcome?.any fun outcome => outcome.invocationId = usage.invocationId then
    .error (.integrity "model call attempt usage cannot follow its terminal outcome")
  else if activePath.any fun record => (usage? record.payload).any fun earlier =>
      earlier.invocationId = usage.invocationId ∧ earlier.attempt = usage.attempt ∧
        earlier.modelInputSnapshotId = usage.modelInputSnapshotId ∧ earlier.terminal then
    .error (.integrity "model call attempt usage cannot follow its terminal observation")
  else .ok ()

/-- `_require_model_call_outcome`, on the active path. -/
def requireModelCallOutcome (activePath : List (TranscriptRecord B)) (outcome : OutcomeFacts) :
    Except UnitFault Unit :=
  if outcome.invocationId ∈ u.outcomeInvocationIds then
    .error (.integrity "model call invocation already has a terminal outcome")
  else
    let snapshots := (activePath.filterMap fun record => snapshot? record.payload).filter fun snapshot =>
      snapshot.invocationId = outcome.invocationId
    if outcome.modelInputSnapshotIds ≠ snapshots.map SnapshotFacts.snapshotId then
      .error (.integrity "model call outcome does not reference the complete ordered Model Input attempt sequence")
    else .ok ()

/-- `_require_record_model_input_lineage`. Every check of one record reads one active path. -/
def requireRecordModelInputLineage (activePath : List (TranscriptRecord B)) (record : TranscriptRecord B) :
    Except UnitFault Unit :=
  match record.payload.content with
  | .compactionCheckpoint _ _ snapshotIds _ =>
    if record.kind = contextCompactionCheckpointKind then
      u.requireModelInputLineage around ["compaction_history", "compaction_merge", "compaction_turn_prefix"] snapshotIds
    else .ok ()
  | .branchSummary _ snapshotIds =>
    if record.kind = contextBranchSummaryKind then
      u.requireModelInputLineage around ["branch_summary"] snapshotIds
    else .ok ()
  | .modelCallOutcome outcome =>
    if record.kind = modelCallOutcomeKind then u.requireModelCallOutcome activePath outcome else .ok ()
  | .modelCallAttemptUsage usage =>
    if record.kind = modelCallAttemptUsageKind then requireModelCallAttemptUsage activePath usage else .ok ()
  | _ => .ok ()

/-! ## Building a submission -/

/-- The transcript is where a Model Input append expects it. -/
def requirePlace (revision : Nat) (leafId : String) : Except UnitFault Unit :=
  if u.revision ≠ revision ∨ u.repository.leafId ≠ some leafId then
    .error (.integrity "transcript changed outside the Model Input commit sequence")
  else .ok ()

def requireSizes (maximum : Int) : List (TranscriptRecord B) → Except UnitFault Unit
  | [] => .ok ()
  | record :: rest =>
    match requireEncodedRecordSize around record maximum with
    | .error fault => .error fault
    | .ok () => requireSizes maximum rest

/-- The staged components are Model Input components in one chain, of an admitted size. -/
def requireStaged (maximum : Int) : String → List (TranscriptRecord B) → Except UnitFault String
  | parentId, [] => .ok parentId
  | parentId, component :: rest =>
    if component.kind ≠ modelInputComponentKind ∨
        component.payload.content.standardType ≠ ["ModelInputNodeBundle"] ∨ component.parentId ≠ some parentId then
      .error (.integrity "staged Model Input graph changed")
    else
      match requireEncodedRecordSize around component maximum with
      | .error fault => .error fault
      | .ok () => requireStaged maximum component.recordId rest

/-- `_append_model_call_terminal_batch` compares the two facts and asks the outcome index. -/
def requireTerminal (usage outcome : Draft B) : Except UnitFault Unit :=
  match usage? usage.payload, outcome.payload.outcome? with
  | some usage, some outcome =>
    if usage.invocationId ≠ outcome.invocationId ∨
        outcome.modelInputSnapshotIds.getLast? ≠ some usage.modelInputSnapshotId then
      .error (.integrity "terminal usage does not match the final outcome attempt")
    else if outcome.invocationId ∈ u.outcomeInvocationIds then
      .error (.integrity "model call invocation already has a terminal outcome")
    else .ok ()
  | _, _ => .error (.integrity "terminal usage does not match the final outcome attempt")

/-- What a call does under the lock before it commits. -/
def submission : CommitCall B → Except UnitFault (Submission B)
  | .commit record => .ok (.single record false)
  | .commitBatch records => .ok (.batch records false false)
  | .append draft => .ok (.single (draft.create u.repository.leafId) false)
  | .appendModelInputFact draft place => do
    u.requirePlace place.revision place.leafId
    let record := draft.create (some place.leafId)
    requireEncodedRecordSize around record place.maxEncodedRecordBytes
    return .single record true
  | .appendModelInputComponents drafts place => do
    if drafts = [] then return .batch [] true false
    u.requirePlace place.revision place.leafId
    let records := createChain (some place.leafId) drafts
    requireSizes around place.maxEncodedRecordBytes records
    return .batch records true false
  | .appendStagedModelInputSnapshot components snapshot commitRevision place => do
    u.requirePlace place.revision place.leafId
    let parentId ← requireStaged around place.maxEncodedRecordBytes place.leafId components
    if commitRevision ≠ place.revision + components.length + 1 then
      throw (.integrity "staged Model Input revision changed")
    let record := snapshot.create (some parentId)
    requireEncodedRecordSize around record place.maxEncodedRecordBytes
    return .batch (components ++ [record]) true false
  | .appendModelCallOutcome draft revision leafId => do
    u.requirePlace revision leafId
    return .single (draft.create (some leafId)) true
  | .appendModelCallTerminalBatch usage outcome place => do
    u.requirePlace place.revision place.leafId
    u.requireTerminal usage outcome
    let usageRecord := usage.create (some place.leafId)
    requireEncodedRecordSize around usageRecord place.maxEncodedRecordBytes
    return .batch [usageRecord, outcome.create (some usage.recordId)] true true

/-! ## Finishing a submission -/

/-- The checks on a record before it is committed; they read the active path of the unit. -/
def requireRecord (lineageVerified : Bool) (activePath : List (TranscriptRecord B)) (record : TranscriptRecord B) :
    Except UnitFault Unit := do
  if !lineageVerified then u.requireRecordModelInputLineage around activePath record
  requireModelInputRecordSize around record

def requireRecords (lineageVerified : Bool) (activePath : List (TranscriptRecord B)) :
    List (TranscriptRecord B) → Except UnitFault Unit
  | [] => .ok ()
  | record :: rest =>
    match u.requireRecord around lineageVerified activePath record with
    | .error fault => .error fault
    | .ok () => requireRecords lineageVerified activePath rest

variable [DecidableEq H] [DecidableEq B]

/-- Cancellation requests of the caller are suppressed, or raised again after the commit. -/
def settle {A : Type} (cancelled propagateCancellation : Bool) :
    Except UnitFault A × TranscriptUnitOfWork W H B τ S → Except UnitFault A × TranscriptUnitOfWork W H B τ S
  | (.ok answer, u) => if cancelled && propagateCancellation then (.error .cancelled, u) else (.ok answer, u)
  | (.error fault, u) => (.error fault, u)

/-- `_finish_commit_atomically` and `_finish_batch_commit_atomically`. -/
def finish (u : TranscriptUnitOfWork W H B τ S) (cancelled : Bool) :
    Submission B → Except UnitFault (List (TranscriptCommit B)) × TranscriptUnitOfWork W H B τ S
  | .single record propagateCancellation =>
    match u.activePath with
    | (.error fault, u) => (.error (.branch fault), u)
    | (.ok path, u) =>
      match u.requireRecord around false path record with
      | .error fault => (.error fault, u)
      | .ok () =>
        settle cancelled propagateCancellation
          ((u.commitLocked around record).1.map fun commit => [commit], (u.commitLocked around record).2)
  | .batch records propagateCancellation lineageVerified =>
    if records = [] then (.ok [], u)
    else
      match u.activePath with
      | (.error fault, u) => (.error (.branch fault), u)
      | (.ok path, u) =>
        match u.requireRecords around lineageVerified path records with
        | .error fault => (.error fault, u)
        | .ok () => settle cancelled propagateCancellation (u.commitBatchLocked around records)

def runCommit (u : TranscriptUnitOfWork W H B τ S) (call : CommitCall B) (cancelled : Bool) :
    Except UnitFault (List (TranscriptCommit B)) × TranscriptUnitOfWork W H B τ S :=
  match u.submission around call with
  | .error fault => (.error fault, u)
  | .ok submission => u.finish around cancelled submission

end TranscriptUnitOfWork

/-! ## Runs -/

inductive UnitInput (W B τ : Type) where
  | commit (call : CommitCall B) (cancelled : Bool)
  | branch (recordId : String)
  | resetBranch
  | registerRecordProfile (kind : String) (semantics : SemanticsObject W B τ) (replace : Bool)
  | replayProjection (moment : W)
  | replayContext (moment : W)

inductive UnitAnswer (B τ : Type) where
  | commits (commits : List (TranscriptCommit B))
  | done
  | projection (projection : TranscriptUnitOfWork.Projection B τ)
  | context (context : TranscriptContext B τ)
  | fault (fault : UnitFault)

def answerOf {A B τ : Type} (answer : A → UnitAnswer B τ) : Except UnitFault A → UnitAnswer B τ
  | .error fault => .fault fault
  | .ok value => answer value

section

variable {W H B τ S : Type} [DecidableEq H] [DecidableEq B] (around : Surroundings H B τ S)

def TranscriptUnitOfWork.step (u : TranscriptUnitOfWork W H B τ S) :
    UnitInput W B τ → UnitAnswer B τ × TranscriptUnitOfWork W H B τ S
  | .commit call cancelled =>
    (answerOf .commits (u.runCommit around call cancelled).1, (u.runCommit around call cancelled).2)
  | .branch recordId =>
    match u.repository.branch recordId with
    | .error fault => (.fault (.branch fault), u)
    | .ok repository => (.done, { u with repository })
  | .resetBranch => (.done, { u with repository := u.repository.resetBranch })
  | .registerRecordProfile kind semantics replace =>
    match u.profile.registerRecordProfile kind semantics replace with
    | .error message => (.fault (.value message), u)
    | .ok profile => (.done, { u with profile })
  | .replayProjection moment =>
    (answerOf .projection (u.replayProjection around moment).1, (u.replayProjection around moment).2)
  | .replayContext moment =>
    (answerOf .context (u.replayContext around moment).1, (u.replayContext around moment).2)

/-- A unit of work and the calls it answers. -/
def unitMachine : Machine (TranscriptUnitOfWork W H B τ S) (UnitInput W B τ) (UnitAnswer B τ) :=
  ⟨TranscriptUnitOfWork.step around⟩

/-- The constructor, over a repository of the store's records. -/
def TranscriptUnitOfWork.start (header : H) (profile : Profile W B τ) (materialized : Bool) (store : S)
    (made : Heap × Repository (TranscriptRecord B)) : TranscriptUnitOfWork W H B τ S where
  header
  heap := made.1
  nextObject := made.2.object + 1
  repository := made.2
  profile
  replayCache := none
  revision := made.2.records.length
  materialized
  outcomeInvocationIds := TranscriptUnitOfWork.observed [] made.2.records
  store

end

end Loushang.UnitOfWork
