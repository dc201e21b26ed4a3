import Loushang.Lib.Run
import Loushang.Conversation.Store

/-!
# FileConversationStore on one conversation

`stores/file.py:416-560,740-1157,1445-1476,1772-1822`. The journal is kept as
what a strict load of it returns; its `stat` identity grows with every append.
What the file system decides (timestamps, whether the best-effort sidecar write
or the stat after an append succeeds) is an input of each step, and so are a
process restart, the loss of the sidecar and the background head writer.
Each operation is split into a decision, which only reads, and its effect.
-/
namespace Loushang.Conversation
open Loushang.Lib

structure ConversationKey where
  keyNamespace : String
  conversationId : String

def createOperationId (key : ConversationKey) : String :=
  "create:" ++ key.keyNamespace ++ ":" ++ key.conversationId

structure JournalFile (H R : Type) where
  header : H
  records : List R
  identity : JournalIdentity

structure StoreMetadata where
  createOperationId : Option String
  head : Option HeadDocument
  identity : JournalIdentity

structure CachedStoreHead where
  head : StoreHead
  metadataIdentity : Option JournalIdentity

structure FileState (H R : Type) where
  journal : Option (JournalFile H R)
  metadata : Option StoreMetadata
  headCache : Option CachedStoreHead
  queuedHead : Option StoreHead

def FileState.empty {H R : Type} : FileState H R := ⟨none, none, none, none⟩

/-- What the file system reports while one operation runs. `metadataIdentity` is
`none` when the sidecar cannot be written. -/
structure Native where
  created : JournalIdentity
  mtimeNs : Nat
  ctimeNs : Nat
  metadataIdentity : Option JournalIdentity
  statSucceeds : Bool

section

variable {H R : Type} [DecidableEq H] [DecidableEq R] (cfg : StoreConfig R)

/-! ## Head lookup -/

def loadCreateOperation (st : FileState H R) : Option String :=
  st.metadata.bind fun metadata => metadata.createOperationId

/-- `_try_load_store_head`. -/
def tryLoadStoreHead (st : FileState H R) (token : String) (identity : JournalIdentity) :
    Option StoreHead :=
  ((st.metadata.bind fun metadata => metadata.head).bind fun document =>
    decodeStoreHead cfg document token).filter fun head => head.identity = identity

/-- `_head_for_append`: the cached head while both stats still match, else the sidecar. -/
def headForAppend (st : FileState H R) (identity : JournalIdentity) : Option StoreHead :=
  match cfg.headCompatibilityToken with
  | none => none
  | some token =>
    match st.headCache with
    | none => tryLoadStoreHead cfg st token identity
    | some cached =>
      if cached.metadataIdentity = st.metadata.map StoreMetadata.identity ∧
          cached.head.identity = identity then some cached.head
      else tryLoadStoreHead cfg st token identity

/-! ## Decisions -/

/-- A receipt made inside the locked section: a rejected one becomes a
`StoreDataError` whose detail is the exception's class. -/
def lockedReceipt (action : String) (revision : Nat) (recordId : Option String) :
    Except StoreError CommitReceipt :=
  match CommitReceipt.make revision recordId with
  | .error _ => .error (.data action "ValueError")
  | .ok receipt => .ok receipt

/-- `_reconcile_append`: the first record under the requested id answers. -/
def reconcileAppend (records : List R) (requested : R) (operationId : String) :
    Except StoreError (Option CommitReceipt) :=
  if cfg.projectedId requested ≠ some operationId then .ok none
  else
    match records.findIdx? fun existing => cfg.projectedId existing = cfg.projectedId requested with
    | none => .ok none
    | some index =>
      if records[index]? ≠ some requested then .error (.operationReusedForAppend operationId)
      else (lockedReceipt "append to" (index + 1) (cfg.projectedId requested)).map some

/-- The answer of the recent window: one unique entry with the record's digest. -/
def recentRevision (head : StoreHead) (operationId : String) (digest : Option String) :
    Option Nat :=
  match head.recentRecords.filter fun item => item.recordId = operationId with
  | [item] => if item.unique = true ∧ some item.digest = digest then some item.revision else none
  | _ => none

/-- Build the head of replayed records where the store keeps heads at all. -/
def rebuildHead (identity : JournalIdentity) (records : List R) :
    Except StoreError (Option StoreHead) :=
  match cfg.headCompatibilityToken with
  | none => .ok none
  | some token =>
    match buildStoreHead cfg token identity records with
    | none => .error (.data "append to" "ValueError")
    | some head => .ok (some head)

inductive AppendDecision where
  | replayed (receipt : CommitReceipt) (rebuilt : Option StoreHead)
  | committed (receipt : CommitReceipt) (advanced : Option StoreHead)

/-- The end of `_append_sync`: revision check, receipt, advanced head. -/
def finishAppend (revision : Nat) (head : Option StoreHead) (record : R) (expected : Nat) :
    Except StoreError AppendDecision :=
  if revision ≠ expected then .error (.atRevision revision expected)
  else
    match lockedReceipt "append to" (revision + 1) (cfg.projectedId record) with
    | .error error => .error error
    | .ok receipt =>
      match head with
      | none => .ok (.committed receipt none)
      | some head =>
        match advanceStoreHead cfg head
            [(cfg.projectedId record, (cfg.projectedId record).map fun _ => cfg.recordDigest record)] with
        | .error detail => .error (.data "append to" detail)
        | .ok advanced => .ok (.committed receipt (some advanced))

/-- The full-replay branch of `_append_sync`. -/
def replayAppend (identity : JournalIdentity) (records : List R) (record : R) (expected : Nat)
    (operationId : String) : Except StoreError AppendDecision := do
  match ← reconcileAppend cfg records record operationId with
  | some receipt => return .replayed receipt (← rebuildHead cfg identity records)
  | none => finishAppend cfg records.length (← rebuildHead cfg identity records) record expected

/-- `_append_sync` up to its writes, on the head `_head_for_append` returned. -/
def decideAppend (head : Option StoreHead) (identity : JournalIdentity) (records : List R)
    (record : R) (expected : Nat) (operationId : String) : Except StoreError AppendDecision :=
  match head with
  | none => replayAppend cfg identity records record expected operationId
  | some head =>
    if cfg.projectedId record = some operationId ∧
        cfg.filterSet.mightContain head.operationFilter operationId = true then
      match recentRevision head operationId
          ((cfg.projectedId record).map fun _ => cfg.recordDigest record) with
      | some revision =>
        (lockedReceipt "append to" revision (cfg.projectedId record)).map fun receipt =>
          .replayed receipt none
      | none => replayAppend cfg identity records record expected operationId
    else finishAppend cfg head.revision (some head) record expected

/-- Receipts of consecutive revisions. -/
def batchReceipts : Nat → List String → List CommitReceipt
  | _, [] => []
  | revision, operationId :: rest => ⟨revision, some operationId⟩ :: batchReceipts (revision + 1) rest

/-- The matching loop of `_prepare_batch_from_head`; `none` falls back to replay. -/
def matchRecent (head : StoreHead) : Nat → List (String × String) → Option Nat
  | _, [] => some 0
  | position, (operationId, digest) :: rest =>
    if head.revision ≤ position then some 0
    else if recentRevision head operationId (some digest) = some (position + 1) then
      (matchRecent head (position + 1) rest).map Nat.succ
    else none

/-- The shared end of both preparations: receipts for all operations and the
records past the matched ones. -/
def preparedBatch (revision expected matched : Nat) (records : List R)
    (operationIds : List String) : Except StoreError (List CommitReceipt × List R) :=
  if matched < records.length ∧ revision ≠ expected + matched then
    .error (.atRevision revision (expected + matched : Nat))
  else
    .ok (batchReceipts (expected + 1) (operationIds.take matched) ++
        batchReceipts (expected + matched + 1) (operationIds.drop matched),
      records.drop matched)

/-- `_prepare_batch_from_head`. -/
def prepareBatchFromHead (head : StoreHead) (records : List R) (operationIds : List String)
    (expected : Nat) : Except StoreError (Option (List CommitReceipt × List R)) :=
  if head.revision < expected then .error (.atRevision head.revision expected)
  else
    match matchRecent head expected (operationIds.zip (records.map cfg.recordDigest)) with
    | none => .ok none
    | some matched =>
      (preparedBatch head.revision expected matched records operationIds).map fun prepared =>
        if (operationIds.drop matched).any (cfg.filterSet.mightContain head.operationFilter) then
          none
        else some prepared

/-- `by_record_id.get(operation, [])`: positions and records under an id. -/
def occurrences (existing : List R) (operationId : String) : List (Nat × R) :=
  (existing.zipIdx.filter fun entry => cfg.projectedId entry.1 = some operationId).map
    fun entry => (entry.2, entry.1)

/-- The matching loop of `_prepare_batch_from_records`: it stops at the first
position that is not committed yet. -/
def matchRecords (existing : List R) : Nat → List (R × String) → Except StoreError Nat
  | _, [] => .ok 0
  | position, (record, operationId) :: rest =>
    if 1 < (occurrences cfg existing operationId).length then
      .error (.operationNotUnique operationId)
    else if (occurrences cfg existing operationId).any fun entry => entry ≠ (position, record) then
      .error (.operationReusedForAppend operationId)
    else if existing.length ≤ position then .ok 0
    else if existing[position]? ≠ some record then .error .divergedInsideBatch
    else (matchRecords existing (position + 1) rest).map Nat.succ

/-- `_prepare_batch_from_records`. -/
def prepareBatchFromRecords (existing records : List R) (operationIds : List String)
    (expected : Nat) : Except StoreError (List CommitReceipt × List R) :=
  if existing.length < expected then .error (.atRevision existing.length expected)
  else do
    let matched ← matchRecords cfg existing expected (records.zip operationIds)
    preparedBatch existing.length expected matched records operationIds

/-- What a batch commits: its receipts, the records to append and the head to write. -/
structure BatchDecision (R : Type) where
  receipts : List CommitReceipt
  appended : List R
  head : Option StoreHead

/-- The advanced head once the batch is prepared. A replayed batch that appends
nothing rewrites the rebuilt head instead. -/
def finishBatch (prepared : List CommitReceipt × List R) (head : Option StoreHead)
    (replayedAuthority : Bool) (records : List R) (operationIds : List String) :
    Except StoreError (BatchDecision R) :=
  match head with
  | none => .ok ⟨prepared.1, prepared.2, none⟩
  | some head =>
    if prepared.2 = [] then .ok ⟨prepared.1, [], if replayedAuthority then some head else none⟩
    else
      match advanceStoreHead cfg head
          (((operationIds.drop (records.length - prepared.2.length)).map some).zip
            ((records.map fun record => some (cfg.recordDigest record)).drop
              (records.length - prepared.2.length))) with
      | .error detail => .error (.data "append batch to" detail)
      | .ok advanced => .ok ⟨prepared.1, prepared.2, some advanced⟩

def replayBatch (identity : JournalIdentity) (existing records : List R)
    (operationIds : List String) (expected : Nat) : Except StoreError (BatchDecision R) := do
  let prepared ← prepareBatchFromRecords cfg existing records operationIds expected
  match rebuildHead cfg identity existing with
  | .error _ => .error (.data "append batch to" "ValueError")
  | .ok head => finishBatch cfg prepared head true records operationIds

/-- The locked section of `_append_batch_sync` up to its writes. -/
def decideBatch (head : Option StoreHead) (identity : JournalIdentity) (existing records : List R)
    (operationIds : List String) (expected : Nat) : Except StoreError (BatchDecision R) :=
  match head with
  | none => replayBatch cfg identity existing records operationIds expected
  | some head => do
    match ← prepareBatchFromHead cfg head records operationIds expected with
    | none => replayBatch cfg identity existing records operationIds expected
    | some prepared => finishBatch cfg prepared (some head) false records operationIds

/-- The request checks both stores make before they look at the conversation. -/
def checkBatchRequest (records : List R) (operationIds : List String) :
    Except StoreError Unit := do
  let _ ← operationIds.mapM requireOperationId
  if records = [] then .error (.value "append batch requires at least one record")
  else if records.length ≠ operationIds.length then
    .error (.value "append batch records and operation ids must align")
  else if ¬ operationIds.Nodup then .error .batchOperationIdsRepeat
  else if cfg.recordId.isNone then .error (.value "append batch requires stable record ids")
  else if records.map cfg.projectedId ≠ operationIds.map some then
    .error .batchOperationIdsMismatch
  else .ok ()

/-! ## Effects -/

/-- `_try_write_store_head`: best effort, never the outcome of an operation. -/
def tryWriteStoreHead (native : Native) (st : FileState H R) (head : StoreHead) : FileState H R :=
  match native.metadataIdentity, encodeStoreHead cfg head with
  | some identity, some document =>
    { st with metadata := some ⟨loadCreateOperation st, some document, identity⟩ }
  | _, _ => st

/-- `_remember_head_after_append`. -/
def rememberHead (native : Native) (st : FileState H R) (head : StoreHead) : FileState H R :=
  { st with
    headCache :=
      if native.statSucceeds then some ⟨head, st.metadata.map StoreMetadata.identity⟩ else none }

/-- The journal after appending; a line is never shorter than its newline. -/
def appendToJournal (native : Native) (journal : JournalFile H R) (appended : List R) :
    JournalFile H R :=
  { journal with
    records := journal.records ++ appended
    identity := { journal.identity with
      size := journal.identity.size + (appended.map fun record => cfg.recordSize record + 1).sum
      mtimeNs := native.mtimeNs
      ctimeNs := native.ctimeNs } }

/-- The writes of a committed append or batch. With background updates the sidecar
is left to the queued head. -/
def commitRecords (background : Bool) (native : Native) (st : FileState H R)
    (journal : JournalFile H R) (appended : List R) (advanced : Option StoreHead) :
    FileState H R :=
  let journal' := appendToJournal cfg native journal appended
  let st' := { st with journal := some journal' }
  match advanced with
  | none => st'
  | some head =>
    let head' := { head with identity := journal'.identity }
    if background then rememberHead native { st' with queuedHead := some head' } head'
    else rememberHead native (tryWriteStoreHead cfg native st' head') head'

/-! ## Operations -/

/-- `_create_sync` on a conversation that was never deleted. -/
def createSync (key : ConversationKey) (native : Native) (st : FileState H R) (header : H)
    (records : List R) (operationId : String) :
    Except StoreError (Response H R) × FileState H R :=
  match requireOperationId operationId with
  | .error error => (.error error, st)
  | .ok operation =>
    match st.journal with
    | some current =>
      if current.header = header ∧ current.records = records ∧
          operation = (loadCreateOperation st).getD (createOperationId key) then
        (.ok (.snapshot ⟨header, records⟩), st)
      else if current.header = header ∧ current.records = records ∧
          loadCreateOperation st = none then (.error .createOutcomeUnknown, st)
      else (.error .alreadyExists, st)
    | none =>
      let st' := { st with journal := some ⟨header, records, native.created⟩ }
      match rebuildHead cfg native.created records, native.metadataIdentity with
      | .ok head, some identity =>
        let metadata : StoreMetadata := ⟨some operation, head.bind (encodeStoreHead cfg), identity⟩
        (.ok (.snapshot ⟨header, records⟩), { st' with metadata := some metadata })
      | _, _ => (.error .createOutcomeUnknown, st')

def loadSync (st : FileState H R) : Except StoreError (Response H R) :=
  match st.journal with
  | none => .error .notFound
  | some journal => .ok (.snapshot ⟨journal.header, journal.records⟩)

/-- `_append_sync`. -/
def appendSync (background : Bool) (native : Native) (st : FileState H R) (record : R)
    (expectedRevision : Int) (operationId : String) :
    Except StoreError (Response H R) × FileState H R :=
  match requireOperationId operationId, requireRevision "expected revision" expectedRevision,
      st.journal with
  | .error error, _, _ => (.error error, st)
  | _, .error error, _ => (.error error, st)
  | _, _, none => (.error .notFound, st)
  | .ok operation, .ok expected, some journal =>
    match decideAppend cfg (headForAppend cfg st journal.identity) journal.identity
        journal.records record expected operation with
    | .error error => (.error error, st)
    | .ok (.replayed receipt none) => (.ok (.receipt receipt), st)
    | .ok (.replayed receipt (some head)) =>
      (.ok (.receipt receipt), tryWriteStoreHead cfg native st head)
    | .ok (.committed receipt advanced) =>
      (.ok (.receipt receipt), commitRecords cfg background native st journal [record] advanced)

/-- `_append_batch_sync`. -/
def appendBatchSync (background : Bool) (native : Native) (st : FileState H R) (records : List R)
    (expectedRevision : Int) (operationIds : List String) :
    Except StoreError (Response H R) × FileState H R :=
  match checkBatchRequest cfg records operationIds,
      requireRevision "expected revision" expectedRevision, st.journal with
  | .error error, _, _ => (.error error, st)
  | _, .error error, _ => (.error error, st)
  | _, _, none => (.error .notFound, st)
  | .ok (), .ok expected, some journal =>
    match decideBatch cfg (headForAppend cfg st journal.identity) journal.identity
        journal.records records operationIds expected with
    | .error error => (.error error, st)
    | .ok decision =>
      if decision.appended = [] then
        (.ok (.receipts decision.receipts),
          match decision.head with
          | none => st
          | some head => tryWriteStoreHead cfg native st head)
      else
        (.ok (.receipts decision.receipts),
          commitRecords cfg background native st journal decision.appended decision.head)

/-- `_write_head_if_current`, run by the background worker on the queued head. -/
def writeHeadIfCurrent (native : Native) (st : FileState H R) : FileState H R :=
  match st.queuedHead, st.journal with
  | some head, some journal =>
    let st' := { st with queuedHead := none }
    if journal.identity = head.identity then
      rememberHead native (tryWriteStoreHead cfg native st' head) head
    else st'
  | _, _ => { st with queuedHead := none }

inductive FileInput (H R : Type) where
  | request (request : Request H R) (native : Native)
  | restart
  | metadataLost
  | backgroundHeadWrite (native : Native)

def fileRequest (key : ConversationKey) (background : Bool) (native : Native) (st : FileState H R) :
    Request H R → Except StoreError (Response H R) × FileState H R
  | .create header records operationId => createSync cfg key native st header records operationId
  | .append record expected operationId => appendSync cfg background native st record expected operationId
  | .appendBatch records expected operationIds =>
    appendBatchSync cfg background native st records expected operationIds
  | .load => (loadSync st, st)

/-- One conversation of a `FileConversationStore` as a machine. -/
def fileStore (key : ConversationKey) (background : Bool) :
    Machine (FileState H R) (FileInput H R) (Option (Except StoreError (Response H R))) where
  step st
    | .request request native =>
      ((some (fileRequest cfg key background native st request).1),
        (fileRequest cfg key background native st request).2)
    | .restart => (none, { st with headCache := none, queuedHead := none })
    | .metadataLost => (none, { st with metadata := none })
    | .backgroundHeadWrite native => (none, writeHeadIfCurrent cfg native st)

end

end Loushang.Conversation
