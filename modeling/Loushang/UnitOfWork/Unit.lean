import Loushang.Conversation.Store
import Loushang.UnitOfWork.Profile
import Loushang.UnitOfWork.Repository

/-!
# One transcript unit of work

`transcript/unit_of_work.py`: the records in memory, the store behind them and the replay cache.
The unit keeps the profile it was made with, so the cache's own reference to it is left out, as are
diagnostics and commit times. Record payload versions and metadata do not reach this model.
-/
namespace Loushang.UnitOfWork
open Loushang.Lib Loushang.Branch Loushang.Transcript Loushang.Conversation

/-- What a store call raises: `StoreCommitOutcomeUnknown`, or any other exception. -/
inductive StoreFault where
  | outcomeUnknown
  | failed (message : String)

/-- `ConversationStore`, and `ConversationBatchStore` where the store has it. -/
structure Backend (S H R : Type) where
  create : S → H → List R → String → Except StoreFault (ConversationSnapshot H R) × S
  load : S → Except StoreFault (ConversationSnapshot H R) × S
  append : S → R → Nat → String → Except StoreFault CommitReceipt × S
  appendBatch : Option (S → List R → Nat → List String → Except StoreFault (List CommitReceipt) × S)

inductive UnitFault where
  | branch (fault : BranchFault)
  | replay (fault : ReplayFault ProfileFault)
  | value (message : String)
  | integrity (message : String)
  | recordSize (kind : String) (size limit : Nat)
  | outcomeUnknown
  | store (message : String)
  | cancelled

/-- `AgentTranscriptCommit`. -/
structure TranscriptCommit (B : Type) where
  record : TranscriptRecord B
  receipt : Option CommitReceipt

/-- `_CachedTranscriptReplay`. -/
structure CachedReplay (B τ : Type) where
  profileRevision : Nat
  repository : Nat
  leafId : Option String
  records : List (TranscriptRecord B)
  projection : ReplayProjection (ContextItem B τ) TranscriptState

/-- What a unit of work is built with, and what the code outside it decides. -/
structure Surroundings (H B τ S : Type) where
  backend : Backend S H (TranscriptRecord B)
  identity : ObjectIdentity (TranscriptRecord B)
  timestampFromIso : String → Except String τ
  materializationPolicy : TranscriptRecord B → Bool
  createOperationId : String
  /-- The length of a record's encoded line. -/
  encodedSize : TranscriptRecord B → Except String Nat
  /-- The purpose of a snapshot that `rebuild_model_input` rebuilds from all records and the leaf. -/
  rebuiltPurpose : List (TranscriptRecord B) → Option String → String → Except String String

structure TranscriptUnitOfWork (W H B τ S : Type) where
  header : H
  heap : Heap
  nextObject : Nat
  repository : Repository (TranscriptRecord B)
  profile : Profile W B τ
  replayCache : Option (CachedReplay B τ)
  revision : Nat
  materialized : Bool
  outcomeInvocationIds : List String
  store : S

def modelInputMaxEncodedRecordBytes : Nat := 1024 * 1024

namespace TranscriptUnitOfWork

variable {W H B τ S : Type} (around : Surroundings H B τ S)

abbrev Projection (B τ : Type) := ReplayProjection (ContextItem B τ) TranscriptState

/-- `active_path`. -/
def activePath (u : TranscriptUnitOfWork W H B τ S) :
    Except BranchFault (List (TranscriptRecord B)) × TranscriptUnitOfWork W H B τ S :=
  (u.repository.activeRecords.1, { u with repository := u.repository.activeRecords.2 })

/-! ## Replay -/

def replayed {A : Type} : Except (ReplayFault ProfileFault) A → Except UnitFault A
  | .error fault => .error (.replay fault)
  | .ok value => .ok value

/-- The cached projection of this very repository, leaf and policy. -/
def cachedProjection (u : TranscriptUnitOfWork W H B τ S) : Option (Projection B τ) :=
  u.replayCache.bind fun cache =>
    if cache.profileRevision = u.profile.replayRevision ∧ cache.repository = u.repository.object ∧
        cache.leafId = u.repository.leafId then some cache.projection
    else none

/-- The cache and the records of a path behind its records, if they begin the path. -/
def uncachedSuffix (u : TranscriptUnitOfWork W H B τ S) (selected : List (TranscriptRecord B)) :
    Option (CachedReplay B τ × List (TranscriptRecord B)) :=
  u.replayCache.bind fun cache =>
    if cache.profileRevision = u.profile.replayRevision ∧ cache.records.length ≤ selected.length ∧
        (cache.records.zip selected).all (fun pair => around.identity.same pair.1 pair.2) then
      some (cache, selected.drop cache.records.length)
    else none

/-- The projection a suffix adds to the cached one; none where it has to be replayed. -/
def incrementalProjection (u : TranscriptUnitOfWork W H B τ S) (moment : W) (cache : CachedReplay B τ)
    (suffix : List (TranscriptRecord B)) : Except ProfileFault (Option (Projection B τ)) :=
  let ports := u.profile.replayPorts around.timestampFromIso moment
  match u.profile.supportsIncrementalReplay around.timestampFromIso suffix with
  | .error fault => .error fault
  | .ok false => .ok none
  | .ok true =>
    match anyCheckpoint ports suffix with
    | .error fault => .error fault
    | .ok true => .ok none
    | .ok false => (extendProjection ports cache.projection suffix).map some

/-- The cache that is kept for a selected path. -/
def remember (u : TranscriptUnitOfWork W H B τ S) (selected : List (TranscriptRecord B)) (projection : Projection B τ) :
    TranscriptUnitOfWork W H B τ S :=
  { u with replayCache := some ⟨u.profile.replayRevision, u.repository.object, u.repository.leafId, selected, projection⟩ }

/-- The branch of `replay_projection` that replays the whole path. A replay does not change the
profile, so its revision is still the one read before. -/
def replayWhole (u : TranscriptUnitOfWork W H B τ S) (moment : W) (selected : List (TranscriptRecord B)) :
    Except UnitFault (Projection B τ) × TranscriptUnitOfWork W H B τ S :=
  match u.profile.replayProjection around.timestampFromIso moment selected with
  | .error fault => (.error (.replay fault), u)
  | .ok projection =>
    match u.profile.supportsIncrementalReplay around.timestampFromIso selected with
    | .error fault => (.error (.replay (.port fault)), u)
    | .ok cacheable =>
      (.ok projection, if cacheable then u.remember selected projection else { u with replayCache := none })

/-- `replay_projection()`. -/
def replayProjection (u : TranscriptUnitOfWork W H B τ S) (moment : W) :
    Except UnitFault (Projection B τ) × TranscriptUnitOfWork W H B τ S :=
  if u.profile.hasDefaultReplaySemantics then
    match u.cachedProjection with
    | some projection => (.ok projection, u)
    | none =>
      match u.activePath with
      | (.error fault, u) => (.error (.branch fault), u)
      | (.ok selected, u) =>
        match u.uncachedSuffix around selected with
        | none => u.replayWhole around moment selected
        | some (cache, suffix) =>
          match u.incrementalProjection around moment cache suffix with
          | .error fault => (.error (.replay (.port fault)), u)
          | .ok none => u.replayWhole around moment selected
          | .ok (some projection) => (.ok projection, u.remember selected projection)
  else
    match activePath { u with replayCache := none } with
    | (.error fault, u) => (.error (.branch fault), u)
    | (.ok path, u) => (replayed (u.profile.replayProjection around.timestampFromIso moment path), u)

/-- `replay_context()`. -/
def replayContext (u : TranscriptUnitOfWork W H B τ S) (moment : W) :
    Except UnitFault (TranscriptContext B τ) × TranscriptUnitOfWork W H B τ S :=
  if u.profile.hasDefaultReplaySemantics then
    match u.replayProjection around moment with
    | (.error fault, u) => (.error fault, u)
    | (.ok projection, u) =>
      (.ok (Profile.contextOf projection (projection.itemRecordIds.head?.bind fun firstId =>
        ((u.repository.get firstId).bind fun record => record.payload.checkpointWindow?).join)), u)
  else
    match u.activePath with
    | (.error fault, u) => (.error (.branch fault), u)
    | (.ok path, u) => (replayed (u.profile.replay around.timestampFromIso moment path), u)

/-! ## Commits -/

/-- A store call, and once more after `StoreCommitOutcomeUnknown`. -/
def attemptTwice {A : Type} (call : S → Except StoreFault A × S) (store : S) : Except UnitFault A × S :=
  match call store with
  | (.ok answer, store) => (.ok answer, store)
  | (.error (.failed message), store) => (.error (.store message), store)
  | (.error .outcomeUnknown, store) =>
    match call store with
    | (.ok answer, store) => (.ok answer, store)
    | (.error _, store) => (.error .outcomeUnknown, store)

/-- `_observe_model_call_outcomes`. -/
def observed (known : List String) (records : List (TranscriptRecord B)) : List String :=
  known ++ (records.filterMap fun record => record.payload.outcome?).map OutcomeFacts.invocationId

/-- A receipt that names another record. -/
def namesOther (receipt : CommitReceipt) (record : TranscriptRecord B) : Bool :=
  receipt.recordId.any (· ≠ record.recordId)

section

variable [DecidableEq H] [DecidableEq B]

/-- `_materialize_locked`. -/
def materializeLocked (u : TranscriptUnitOfWork W H B τ S) (record : TranscriptRecord B) (heap : Heap)
    (candidate : Repository (TranscriptRecord B)) : Except UnitFault (TranscriptCommit B) × TranscriptUnitOfWork W H B τ S :=
  let adopt (snapshot : ConversationSnapshot H (TranscriptRecord B)) (store : S) :
      Except UnitFault (TranscriptCommit B) × TranscriptUnitOfWork W H B τ S :=
    if snapshot.header ≠ u.header ∨ snapshot.records ≠ candidate.records ∨
        snapshot.revision ≠ candidate.records.length then (.error .outcomeUnknown, { u with store })
    else
      (.ok ⟨record, some ⟨snapshot.revision, some record.recordId⟩⟩,
        { u with
          heap
          nextObject := u.nextObject + 1
          repository := candidate
          revision := snapshot.revision
          materialized := true
          outcomeInvocationIds := observed u.outcomeInvocationIds [record]
          store })
  match around.backend.create u.store u.header candidate.records around.createOperationId with
  | (.ok snapshot, store) => adopt snapshot store
  | (.error (.failed message), store) => (.error (.store message), { u with store })
  | (.error .outcomeUnknown, store) =>
    match around.backend.load store with
    | (.error _, store) => (.error .outcomeUnknown, { u with store })
    | (.ok snapshot, store) => adopt snapshot store

/-- `_commit_locked`. A unit's repository is strict, so a materialized one always gets a plan. -/
def commitLocked (u : TranscriptUnitOfWork W H B τ S) (record : TranscriptRecord B) :
    Except UnitFault (TranscriptCommit B) × TranscriptUnitOfWork W H B τ S :=
  if record.parentId ≠ u.repository.leafId then
    (.error (.value "transcript record parent must match the selected leaf"), u)
  else if u.materialized then
    match u.repository.prepareIncrementalAppend TranscriptRecord.recordId TranscriptRecord.parentId [record] with
    | .error fault => (.error (.branch fault), u)
    | .ok plan =>
      match attemptTwice (fun store => around.backend.append store record u.revision record.recordId) u.store with
      | (.error fault, store) => (.error fault, { u with store })
      | (.ok receipt, store) =>
        if receipt.revision ≠ u.revision + 1 ∨ namesOther receipt record then
          (.error .outcomeUnknown, { u with store })
        else
          match u.repository.publishIncrementalAppend u.heap plan with
          | .error fault => (.error (.branch fault), { u with store })
          | .ok (heap, repository) =>
            (.ok ⟨record, some receipt⟩,
              { u with
                heap
                repository
                revision := receipt.revision
                outcomeInvocationIds := observed u.outcomeInvocationIds [record]
                store })
  else
    match u.repository.withAppendedRecords TranscriptRecord.recordId TranscriptRecord.parentId u.heap
        u.nextObject [record] with
    | .error fault => (.error (.branch fault), u)
    | .ok (heap, candidate) =>
      if around.materializationPolicy record then u.materializeLocked around record heap candidate
      else
        (.ok ⟨record, none⟩,
          { u with
            heap
            nextObject := u.nextObject + 1
            repository := candidate
            revision := u.revision + 1
            outcomeInvocationIds := observed u.outcomeInvocationIds [record] })

/-- The records of a batch form one chain from the selected leaf on. -/
def chained : Option String → List (TranscriptRecord B) → Bool
  | _, [] => true
  | parentId, record :: rest => record.parentId = parentId && chained (some record.recordId) rest

/-- The loop of `_commit_batch_locked` over single commits. -/
def commitEach (u : TranscriptUnitOfWork W H B τ S) : List (TranscriptRecord B) →
    Except UnitFault (List (TranscriptCommit B)) × TranscriptUnitOfWork W H B τ S
  | [] => (.ok [], u)
  | record :: rest =>
    match u.commitLocked around record with
    | (.error fault, u) => (.error fault, u)
    | (.ok commit, u) =>
      match commitEach u rest with
      | (.error fault, u) => (.error fault, u)
      | (.ok commits, u) => (.ok (commit :: commits), u)

/-- The checks of a batch's receipts, from a revision on. -/
def receiptsFit : Nat → List (TranscriptRecord B) → List CommitReceipt → Bool
  | _, [], [] => true
  | revision, record :: records, receipt :: receipts =>
    receipt.revision = revision + 1 && !namesOther receipt record && receiptsFit (revision + 1) records receipts
  | _, _, _ => false

/-- `_commit_batch_locked`. -/
def commitBatchLocked (u : TranscriptUnitOfWork W H B τ S) (records : List (TranscriptRecord B)) :
    Except UnitFault (List (TranscriptCommit B)) × TranscriptUnitOfWork W H B τ S :=
  if records = [] then (.ok [], u)
  else if !chained u.repository.leafId records then
    (.error (.value "transcript batch records must form one selected parent chain"), u)
  else
    match around.backend.appendBatch.filter fun _ => u.materialized with
    | none => u.commitEach around records
    | some appendBatch =>
      match u.repository.prepareIncrementalAppend TranscriptRecord.recordId TranscriptRecord.parentId records with
      | .error fault => (.error (.branch fault), u)
      | .ok plan =>
        match attemptTwice (fun store =>
            appendBatch store records u.revision (records.map TranscriptRecord.recordId)) u.store with
        | (.error fault, store) => (.error fault, { u with store })
        | (.ok receipts, store) =>
          if !receiptsFit u.revision records receipts then (.error .outcomeUnknown, { u with store })
          else
            match u.repository.publishIncrementalAppend u.heap plan with
            | .error fault => (.error (.branch fault), { u with store })
            | .ok (heap, repository) =>
              (.ok ((records.zip receipts).map fun pair => ⟨pair.1, some pair.2⟩),
                { u with
                  heap
                  repository
                  revision := (receipts.getLast?.map CommitReceipt.revision).getD u.revision
                  outcomeInvocationIds := observed u.outcomeInvocationIds records
                  store })

end

end TranscriptUnitOfWork

end Loushang.UnitOfWork
