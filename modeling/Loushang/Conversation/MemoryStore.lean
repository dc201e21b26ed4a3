import Loushang.Conversation.FileStore

/-!
# MemoryConversationStore on one conversation

`stores/memory.py:36-241`. The operation tables are dictionaries, newest entry
first; the conversation's key is the only one in them. Deletion and its
tombstones are left out.
-/
namespace Loushang.Conversation
open Loushang.Lib

structure MemoryState (H R : Type) where
  snapshot : Option (ConversationSnapshot H R)
  createOperations : List (String × ConversationSnapshot H R)
  appendOperations : List (String × R × CommitReceipt)

def MemoryState.empty {H R : Type} : MemoryState H R := ⟨none, [], []⟩

section

variable {H R : Type} [DecidableEq H] [DecidableEq R] (cfg : StoreConfig R)

def memoryCreate (m : MemoryState H R) (header : H) (records : List R) (operationId : String) :
    Except StoreError (Response H R) × MemoryState H R :=
  match requireOperationId operationId with
  | .error error => (.error error, m)
  | .ok operation =>
    match m.createOperations.lookup operation with
    | some previous =>
      if previous = ⟨header, records⟩ then (.ok (.snapshot previous), m)
      else (.error (.operationReusedForCreate operation), m)
    | none =>
      if m.snapshot.isSome then (.error .alreadyExists, m)
      else (.ok (.snapshot ⟨header, records⟩),
        { m with
          snapshot := some ⟨header, records⟩
          createOperations := (operation, ⟨header, records⟩) :: m.createOperations })

def memoryLoad (m : MemoryState H R) : Except StoreError (Response H R) :=
  match m.snapshot with
  | none => .error .notFound
  | some snapshot => .ok (.snapshot snapshot)

/-- The operation log answers before the revision is even checked. -/
def memoryAppend (m : MemoryState H R) (record : R) (expectedRevision : Int) (operationId : String) :
    Except StoreError (Response H R) × MemoryState H R :=
  match requireOperationId operationId with
  | .error error => (.error error, m)
  | .ok operation =>
    match m.appendOperations.lookup operation with
    | some (previousRecord, previousReceipt) =>
      if previousRecord = record then (.ok (.receipt previousReceipt), m)
      else (.error (.operationReusedForAppend operation), m)
    | none =>
      match requireRevision "expected revision" expectedRevision, m.snapshot with
      | .error error, _ => (.error error, m)
      | _, none => (.error .notFound, m)
      | .ok expected, some snapshot =>
        if snapshot.revision ≠ expected then (.error (.atRevision snapshot.revision expected), m)
        else
          match CommitReceipt.make (snapshot.revision + 1) (cfg.projectedId record) with
          | .error error => (.error error, m)
          | .ok receipt =>
            (.ok (.receipt receipt),
              { m with
                snapshot := some ⟨snapshot.header, snapshot.records ++ [record]⟩
                appendOperations := (operation, record, receipt) :: m.appendOperations })

/-- The first loop of `append_batch`: every logged operation must ask for the same
record at the same revision. -/
def checkLogged (log : List (String × R × CommitReceipt)) :
    Nat → List (R × String) → Except StoreError (List (Option CommitReceipt))
  | _, [] => .ok []
  | position, (record, operationId) :: rest =>
    match log.lookup operationId with
    | none => (checkLogged log (position + 1) rest).map (none :: ·)
    | some (previousRecord, previousReceipt) =>
      if previousRecord ≠ record then .error (.operationReusedForAppend operationId)
      else if previousReceipt.revision ≠ position + 1 then
        .error (.operationAtDifferentRevision operationId)
      else (checkLogged log (position + 1) rest).map (some previousReceipt :: ·)

/-- The second loop: receipts of the records the snapshot already holds. -/
def matchSnapshot (existing : List R) :
    Nat → List ((R × String) × Option CommitReceipt) → Except StoreError (List CommitReceipt)
  | _, [] => .ok []
  | position, ((record, operationId), previous) :: rest =>
    if existing.length ≤ position then .ok []
    else if existing[position]? ≠ some record then .error .divergedInsideBatch
    else (matchSnapshot existing (position + 1) rest).map
      (previous.getD ⟨position + 1, some operationId⟩ :: ·)

/-- `append_batch` up to its effects: all receipts and the records to append. -/
def memoryPrepareBatch (log : List (String × R × CommitReceipt)) (existing records : List R)
    (operationIds : List String) (expected : Nat) :
    Except StoreError (List CommitReceipt × List R) :=
  if existing.length < expected then .error (.atRevision existing.length expected)
  else do
    let previous ← checkLogged log expected (records.zip operationIds)
    let receipts ← matchSnapshot existing expected ((records.zip operationIds).zip previous)
    if receipts.length < records.length ∧ existing.length ≠ expected + receipts.length then
      .error (.atRevision existing.length (expected + receipts.length : Nat))
    else
      .ok (receipts ++ batchReceipts (expected + receipts.length + 1)
        (operationIds.drop receipts.length), records.drop receipts.length)

/-- Log consecutive appends from `revision` on. -/
def logAppends : Nat → List (R × String) → List (String × R × CommitReceipt) →
    List (String × R × CommitReceipt)
  | _, [], log => log
  | revision, (record, operationId) :: rest, log =>
    logAppends (revision + 1) rest ((operationId, record, ⟨revision, some operationId⟩) :: log)

def memoryAppendBatch (m : MemoryState H R) (records : List R) (expectedRevision : Int)
    (operationIds : List String) : Except StoreError (Response H R) × MemoryState H R :=
  match checkBatchRequest cfg records operationIds,
      requireRevision "expected revision" expectedRevision, m.snapshot with
  | .error error, _, _ => (.error error, m)
  | _, .error error, _ => (.error error, m)
  | _, _, none => (.error .notFound, m)
  | .ok (), .ok expected, some snapshot =>
    match memoryPrepareBatch m.appendOperations snapshot.records records operationIds expected with
    | .error error => (.error error, m)
    | .ok (receipts, appended) =>
      let matched := records.length - appended.length
      (.ok (.receipts receipts),
        { m with
          snapshot := some ⟨snapshot.header, snapshot.records ++ appended⟩
          appendOperations := logAppends (expected + matched + 1)
            (appended.zip (operationIds.drop matched)) m.appendOperations })

def memoryRequest (m : MemoryState H R) : Request H R → Except StoreError (Response H R) × MemoryState H R
  | .create header records operationId => memoryCreate m header records operationId
  | .append record expected operationId => memoryAppend cfg m record expected operationId
  | .appendBatch records expected operationIds => memoryAppendBatch cfg m records expected operationIds
  | .load => (memoryLoad m, m)

/-- The same conversation in memory; the file store's own events do not concern it. -/
def memoryStore : Machine (MemoryState H R) (FileInput H R) (Option (Except StoreError (Response H R))) where
  step m
    | .request request _ => (some (memoryRequest cfg m request).1, (memoryRequest cfg m request).2)
    | _ => (none, m)

end

end Loushang.Conversation
