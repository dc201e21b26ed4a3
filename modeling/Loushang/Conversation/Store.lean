import Loushang.Lib.Text
import Loushang.Lib.LossySet

/-!
# Conversation store contract

The values every store exchanges with its callers: `conversation/store.py`.
Errors carry what the source interpolates into their messages; `errorClass`
names the exception class a caller sees. `committed_at` and the snapshot's
diagnostics are left out: the clock is the product's, and a strictly loadable
journal has no diagnostics.
-/
namespace Loushang.Conversation
open Loushang.Lib

inductive StoreError where
  | alreadyExists
  | notFound
  | atRevision (revision : Nat) (expected : Int)
  | divergedInsideBatch
  | operationReusedForAppend (operationId : String)
  | operationReusedForCreate (operationId : String)
  | operationAtDifferentRevision (operationId : String)
  | operationNotUnique (operationId : String)
  | batchOperationIdsRepeat
  | batchOperationIdsMismatch
  | data (action detail : String)
  | createOutcomeUnknown
  | value (message : String)

inductive ErrorClass where
  | storeAlreadyExistsError
  | storeNotFoundError
  | storeConflictError
  | storeDataError
  | storeOperationConflictError
  | storeCommitOutcomeUnknown
  | valueError

def StoreError.errorClass : StoreError → ErrorClass
  | .alreadyExists => .storeAlreadyExistsError
  | .notFound => .storeNotFoundError
  | .atRevision _ _ | .divergedInsideBatch => .storeConflictError
  | .operationReusedForAppend _ | .operationReusedForCreate _ | .operationAtDifferentRevision _
  | .operationNotUnique _ | .batchOperationIdsRepeat | .batchOperationIdsMismatch =>
    .storeOperationConflictError
  | .data _ _ => .storeDataError
  | .createOutcomeUnknown => .storeCommitOutcomeUnknown
  | .value _ => .valueError

/-- `_require_text` on a string: the strip is only looked at, never returned. -/
def requireText (name value : String) : Except StoreError String :=
  if isBlank value.toList then .error (.value (name ++ " must be a non-empty string"))
  else .ok value

def requireOperationId (value : String) : Except StoreError String :=
  requireText "conversation operation id" value

def requireRevision (name : String) (value : Int) : Except StoreError Nat :=
  if value < 0 then .error (.value (name ++ " must be non-negative")) else .ok value.toNat

/-- Result of one durable append, without its timestamp. -/
structure CommitReceipt where
  revision : Nat
  recordId : Option String

/-- `CommitReceipt.__post_init__`. -/
def CommitReceipt.make (revision : Nat) (recordId : Option String) :
    Except StoreError CommitReceipt :=
  if revision < 1 then .error (.value "commit receipt revision must be positive")
  else match recordId with
    | none => .ok ⟨revision, none⟩
    | some id => (requireText "committed record id" id).map fun id => ⟨revision, some id⟩

/-- One authoritative snapshot; its revision is its record count by construction. -/
structure ConversationSnapshot (H R : Type) where
  header : H
  records : List R
  deriving DecidableEq

def ConversationSnapshot.revision {H R : Type} (snapshot : ConversationSnapshot H R) : Nat :=
  snapshot.records.length

/-- The requests one conversation receives through the store protocol. -/
inductive Request (H R : Type) where
  | create (header : H) (records : List R) (operationId : String)
  | append (record : R) (expectedRevision : Int) (operationId : String)
  | appendBatch (records : List R) (expectedRevision : Int) (operationIds : List String)
  | load

/-- What a successful request returns. -/
inductive Response (H R : Type) where
  | snapshot (value : ConversationSnapshot H R)
  | receipt (value : CommitReceipt)
  | receipts (values : List CommitReceipt)

theorem requireOperationId_eq_ok {value result : String} :
    requireOperationId value = .ok result ↔ isBlank value.toList = false ∧ result = value := by
  unfold requireOperationId requireText
  split
  · next blank => simp [blank]
  · next text => simp [Bool.eq_false_iff.mpr text, eq_comm]

variable {revision : Nat}

theorem requireRevision_eq_ok {name : String} {value : Int} :
    requireRevision name value = .ok revision ↔ value = revision := by
  unfold requireRevision
  split
  · simp only [reduceCtorEq, false_iff]
    omega
  · simp only [Except.ok.injEq]
    omega

/-- A receipt for a stable id is always well formed past revision zero. -/
theorem CommitReceipt.make_of_id {id : String} (positive : 0 < revision) (text : isBlank id.toList = false) :
    CommitReceipt.make revision (some id) = .ok ⟨revision, some id⟩ := by
  simp [CommitReceipt.make, requireText, text, Nat.not_lt.mpr positive, Except.map]

/-!
## The advisory store head

`stores/file.py:73-208,1606-1724,1823-1963`: a scalable Bloom filter over the
stable record ids, the last 64 identified records and the journal revision. The
two SHA-256 computations are parameters (`operationDigest`, `recordDigest`), so
every theorem holds whatever false positives the filter has. The head's JSON
document is typed: what the source rejects because a field has another JSON type
cannot be written down here.
-/

def storeHeadVersion : Nat := 2
def operationFilterInitialCapacity : Nat := 10000
def operationFilterMaxSegments : Nat := 32
def recentRecordLimit : Nat := 64

structure JournalIdentity where
  device : Nat
  inode : Nat
  size : Nat
  mtimeNs : Nat
  ctimeNs : Nat
  deriving DecidableEq

/-! ## Operation filter -/

/-- `bits` is `len(payload) * 8`. -/
structure OperationFilterSegment where
  payload : Nat
  bits : Nat
  insertions : Nat
  hashes : Nat

abbrev OperationFilter := List OperationFilterSegment

/-- Bit counts the source's floating-point formula gives for segments 0 to 31. -/
def operationFilterSegmentBits : List Nat :=
  [254144, 537088, 1131776, 2378944, 4988672, 10438976, 21801216, 45448832, 94590720,
    196567488, 407907264, 845359168, 1749808000, 3617795648, 7471951360, 15416624256,
    31778693952, 65448283328, 134678365696, 276920344576, 568967943168, 1168190445504,
    2396890104064, 4914798809664, 10071635148160, 20627345960064, 42222844377536,
    86381995779328, 176636609551936, 361018462477312, 737527425554176, 1506035878320768]

/-- Capacity, bit count and hashes; `none` is the source's too-many-segments error. -/
def operationFilterSegmentShape (index : Nat) : Option (Nat × Nat × Nat) :=
  operationFilterSegmentBits[index]?.map fun bits =>
    (operationFilterInitialCapacity <<< index, bits, 18 + index)

/-- Double hashing over the two halves of the operation id's SHA-256. -/
def operationFilterPositions (operationDigest : String → Nat × Nat) (operationId : String)
    (bitCount hashes : Nat) : List Nat :=
  let first := (operationDigest operationId).1
  let second := (operationDigest operationId).2 ||| 1
  (List.range hashes).map fun index => (first + index * second) % bitCount

section Filter

variable (operationDigest : String → Nat × Nat)

def OperationFilterSegment.mightContain (segment : OperationFilterSegment)
    (operationId : String) : Bool :=
  hasBits segment.payload
    (operationFilterPositions operationDigest operationId segment.bits segment.hashes)

def OperationFilter.mightContain (filter : OperationFilter) (operationId : String) : Bool :=
  filter.any fun segment => segment.mightContain operationDigest operationId

/-- Append an empty segment of the next shape. -/
def OperationFilter.openSegment (filter : OperationFilter) : Option OperationFilter :=
  (operationFilterSegmentShape filter.length).map fun shape =>
    filter ++ [⟨0, shape.2.1, 0, shape.2.2⟩]

/-- The filter whose last segment has room, before any bit is set. -/
def OperationFilter.withRoom (filter : OperationFilter) : Option OperationFilter :=
  match filter.getLast? with
  | none => filter.openSegment
  | some last =>
    match operationFilterSegmentShape (filter.length - 1) with
    | none => none
    | some shape => if shape.1 ≤ last.insertions then filter.openSegment else some filter

/-- Set the operation's bits in the last segment. -/
def OperationFilter.insertLast (filter : OperationFilter) (operationId : String) :
    Option OperationFilter :=
  filter.getLast?.map fun last =>
    filter.dropLast ++ [{ last with
      payload := setBits last.payload
        (operationFilterPositions operationDigest operationId last.bits last.hashes)
      insertions := last.insertions + 1 }]

/-- `_OperationFilterBuilder.add` followed by `freeze`. -/
def OperationFilter.add (filter : OperationFilter) (operationId : String) :
    Option OperationFilter :=
  if filter.mightContain operationDigest operationId then some filter
  else filter.withRoom.bind fun roomy => roomy.insertLast operationDigest operationId

variable {operationDigest}

variable {filter : OperationFilter} {operationId : String}

theorem OperationFilter.mightContain_openSegment {opened : OperationFilter}
    (success : filter.openSegment = some opened)
    (present : filter.mightContain operationDigest operationId = true) :
    opened.mightContain operationDigest operationId = true := by
  obtain ⟨shape, _, rfl⟩ := Option.map_eq_some_iff.mp success
  simp only [OperationFilter.mightContain, List.any_append, Bool.or_eq_true]
  exact Or.inl present

theorem OperationFilter.mightContain_withRoom {roomy : OperationFilter}
    (success : filter.withRoom = some roomy)
    (present : filter.mightContain operationDigest operationId = true) :
    roomy.mightContain operationDigest operationId = true := by
  unfold OperationFilter.withRoom at success
  split at success
  · exact mightContain_openSegment success present
  · split at success
    · cases success
    · split at success
      · exact mightContain_openSegment success present
      · cases success
        exact present

variable {inserted : OperationFilter}

theorem OperationFilter.mightContain_insertLast
    (success : filter.insertLast operationDigest operationId = some inserted) :
    inserted.mightContain operationDigest operationId = true := by
  obtain ⟨last, _, rfl⟩ := Option.map_eq_some_iff.mp success
  simp only [OperationFilter.mightContain, List.any_append, Bool.or_eq_true]
  refine Or.inr ?_
  simp [OperationFilterSegment.mightContain, hasBits_setBits]

theorem OperationFilter.mightContain_insertLast_mono {added : String}
    (success : filter.insertLast operationDigest added = some inserted)
    (present : filter.mightContain operationDigest operationId = true) :
    inserted.mightContain operationDigest operationId = true := by
  obtain ⟨last, hlast, rfl⟩ := Option.map_eq_some_iff.mp success
  obtain ⟨front, rfl⟩ := List.getLast?_eq_some_iff.mp hlast
  simp only [OperationFilter.mightContain, List.dropLast_concat, List.any_append,
    Bool.or_eq_true] at present ⊢
  refine present.imp_right fun inLast => ?_
  simp only [List.any_cons, List.any_nil, Bool.or_false, OperationFilterSegment.mightContain]
    at inLast ⊢
  exact hasBits_setBits_mono _ inLast

/-- The scalable filter as a lossy set: no false negatives, whatever the digest. -/
def operationFilterSet (operationDigest : String → Nat × Nat) :
    LossySet OperationFilter String where
  mightContain filter operationId := filter.mightContain operationDigest operationId
  add filter operationId := filter.add operationDigest operationId
  mightContain_add := by
    intro filter filter' operationId success
    unfold OperationFilter.add at success
    split at success
    · next present =>
      cases success
      exact present
    · obtain ⟨roomy, _, inserted⟩ := Option.bind_eq_some_iff.mp success
      exact OperationFilter.mightContain_insertLast inserted
  mightContain_mono := by
    intro filter filter' added operationId success present
    unfold OperationFilter.add at success
    split at success
    · cases success
      exact present
    · obtain ⟨roomy, opened, inserted⟩ := Option.bind_eq_some_iff.mp success
      exact OperationFilter.mightContain_insertLast_mono inserted
        (OperationFilter.mightContain_withRoom opened present)

end Filter

/-! ## Head values -/

structure RecentRecord where
  revision : Nat
  recordId : String
  digest : String
  unique : Bool

structure StoreHead where
  compatibilityToken : String
  revision : Nat
  identity : JournalIdentity
  operationFilter : OperationFilter
  recentRecords : List RecentRecord

structure SegmentDocument where
  capacity : Nat
  bits : Nat
  hashes : Nat
  insertions : Nat
  payload : Nat
  payloadBytes : Nat

/-- The head document without its checksum. -/
structure HeadPayload where
  version : Nat
  compatibilityToken : String
  revision : Nat
  journal : JournalIdentity
  segments : List SegmentDocument
  recentRecords : List RecentRecord

structure HeadDocument where
  payload : HeadPayload
  checksum : String

/-- What a product supplies to a `FileConversationStore`. `recordDigest` is the
SHA-256 of the record's canonical encoding and `recordSize` the length of its
encoded line. -/
structure StoreConfig (R : Type) where
  recordId : Option (R → Option String)
  recordDigest : R → String
  recordSize : R → Nat
  operationDigest : String → Nat × Nat
  headCompatibilityToken : Option String
  headChecksum : HeadPayload → String

section Head

variable {R : Type} (cfg : StoreConfig R)

def StoreConfig.filterSet : LossySet OperationFilter String :=
  operationFilterSet cfg.operationDigest

/-- `self._record_id(record) if self._record_id is not None else None`. -/
def StoreConfig.projectedId (record : R) : Option String :=
  cfg.recordId.bind fun project => project record

/-- The projected id where `isinstance(projected_id, str) and projected_id.strip()`. -/
def StoreConfig.stableId (record : R) : Option String :=
  (cfg.projectedId record).filter fun id => !isBlank id.toList

structure HeadScan where
  operationFilter : OperationFilter
  seenRecordIds : List String
  duplicateRecordIds : List String
  recentRecords : List (Nat × String × String)

/-- The loop of `_build_store_head` from journal position `index` on. -/
def scanRecords (recentStart : Nat) : Nat → List R → HeadScan → Option HeadScan
  | _, [], scan => some scan
  | index, record :: rest, scan =>
    match cfg.stableId record with
    | none => scanRecords recentStart (index + 1) rest scan
    | some id =>
      (cfg.filterSet.add scan.operationFilter id).bind fun operationFilter =>
        scanRecords recentStart (index + 1) rest
          { operationFilter := operationFilter
            seenRecordIds :=
              if id ∈ scan.seenRecordIds then scan.seenRecordIds else id :: scan.seenRecordIds
            duplicateRecordIds :=
              if id ∈ scan.seenRecordIds then id :: scan.duplicateRecordIds
              else scan.duplicateRecordIds
            recentRecords :=
              if recentStart ≤ index then
                scan.recentRecords ++ [(index + 1, id, cfg.recordDigest record)]
              else scan.recentRecords }

/-- `sequence[-limit:]`. -/
def lastItems {α : Type} (limit : Nat) (items : List α) : List α :=
  items.drop (items.length - limit)

/-- `_build_store_head`; `none` is the filter running out of segments. -/
def buildStoreHead (token : String) (identity : JournalIdentity) (records : List R) :
    Option StoreHead :=
  (scanRecords cfg (records.length - recentRecordLimit) 0 records ⟨[], [], [], []⟩).map
    fun scan =>
      { compatibilityToken := token
        revision := records.length
        identity := identity
        operationFilter := scan.operationFilter
        recentRecords := (lastItems recentRecordLimit scan.recentRecords).map fun item =>
          ⟨item.1, item.2.1, item.2.2, decide (item.2.1 ∉ scan.duplicateRecordIds)⟩ }

/-- The loop of `_advance_store_head`, which also carries the running revision. -/
def advanceRecords : List (Option String × Option String) →
    Nat × OperationFilter × List RecentRecord → Except String (Nat × OperationFilter × List RecentRecord)
  | [], state => .ok state
  | (projectedId, digest) :: rest, (revision, operationFilter, recent) =>
    match projectedId.filter fun id => !isBlank id.toList with
    | none => advanceRecords rest (revision + 1, operationFilter, recent)
    | some id =>
      match digest with
      | none => .error "RuntimeError"
      | some digest =>
        match cfg.filterSet.add operationFilter id with
        | none => .error "ValueError"
        | some operationFilter' =>
          advanceRecords rest (revision + 1, operationFilter',
            recent ++ [⟨revision + 1, id, digest, !cfg.filterSet.mightContain operationFilter id⟩])

/-- `_advance_store_head`; an error carries the exception's class name. -/
def advanceStoreHead (head : StoreHead) (records : List (Option String × Option String)) :
    Except String StoreHead :=
  (advanceRecords cfg records (head.revision, head.operationFilter, head.recentRecords)).map
    fun state =>
      { head with
        revision := state.1
        operationFilter := state.2.1
        recentRecords := lastItems recentRecordLimit state.2.2 }

/-! ## Sidecar document -/

def encodeSegments : Nat → OperationFilter → Option (List SegmentDocument)
  | _, [] => some []
  | index, segment :: rest =>
    (operationFilterSegmentShape index).bind fun shape =>
      (encodeSegments (index + 1) rest).map fun documents =>
        ⟨shape.1, segment.bits, segment.hashes, segment.insertions, segment.payload,
          segment.bits / 8⟩ :: documents

def encodeStoreHead (head : StoreHead) : Option HeadDocument :=
  (encodeSegments 0 head.operationFilter).map fun segments =>
    let payload : HeadPayload :=
      { version := storeHeadVersion
        compatibilityToken := head.compatibilityToken
        revision := head.revision
        journal := head.identity
        segments := segments
        recentRecords := head.recentRecords }
    { payload := payload, checksum := cfg.headChecksum payload }

def decodeSegments (total : Nat) : Nat → List SegmentDocument → Option OperationFilter
  | _, [] => some []
  | index, raw :: rest =>
    (operationFilterSegmentShape index).bind fun shape =>
      if raw.capacity ≠ shape.1 ∨ raw.bits ≠ shape.2.1 ∨ raw.hashes ≠ shape.2.2 ∨
          raw.insertions = 0 ∨ shape.1 < raw.insertions ∨
          (index + 1 < total ∧ raw.insertions ≠ shape.1) ∨ raw.payloadBytes ≠ raw.bits / 8 then
        none
      else (decodeSegments total (index + 1) rest).map fun segments =>
        ⟨raw.payload, raw.bits, raw.insertions, raw.hashes⟩ :: segments

def isSha256Digest (digest : String) : Bool :=
  digest.length == 64 && digest.toList.all fun c => c ∈ "0123456789abcdef".toList

/-- The recent-record checks; revisions ascend and stay within the head's. -/
def validRecentRecords (revision : Nat) (operationFilter : OperationFilter) :
    Nat → List RecentRecord → Bool
  | _, [] => true
  | prior, item :: rest =>
    decide (prior < item.revision) && decide (item.revision ≤ revision) &&
      !isBlank item.recordId.toList && isSha256Digest item.digest &&
      cfg.filterSet.mightContain operationFilter item.recordId &&
      validRecentRecords revision operationFilter item.revision rest

/-- `_decode_store_head`; every rejection falls back to replay. -/
def decodeStoreHead (document : HeadDocument) (token : String) : Option StoreHead :=
  if document.checksum ≠ cfg.headChecksum document.payload ∨
      document.payload.version ≠ storeHeadVersion ∨
      document.payload.compatibilityToken ≠ token ∨
      recentRecordLimit < document.payload.recentRecords.length ∨
      operationFilterMaxSegments < document.payload.segments.length then none
  else
    (decodeSegments document.payload.segments.length 0 document.payload.segments).bind
      fun operationFilter =>
        if validRecentRecords cfg document.payload.revision operationFilter 0
            document.payload.recentRecords then
          some { compatibilityToken := token
                 revision := document.payload.revision
                 identity := document.payload.journal
                 operationFilter := operationFilter
                 recentRecords := document.payload.recentRecords }
        else none

end Head

theorem decodeSegments_encodeSegments (total : Nat) :
    ∀ {index : Nat} {operationFilter decoded : OperationFilter} {documents : List SegmentDocument},
      encodeSegments index operationFilter = some documents →
      decodeSegments total index documents = some decoded → decoded = operationFilter
  | _, [], _, _, encoded, decodes => by
    cases encoded
    cases decodes
    rfl
  | index, segment :: rest, _, _, encoded, decodes => by
    obtain ⟨shape, hshape, encoded⟩ := Option.bind_eq_some_iff.mp encoded
    obtain ⟨documents, more, rfl⟩ := Option.map_eq_some_iff.mp encoded
    simp only [decodeSegments, hshape, Option.bind_some] at decodes
    split at decodes
    · cases decodes
    · obtain ⟨segments, tail, rfl⟩ := Option.map_eq_some_iff.mp decodes
      rw [decodeSegments_encodeSegments total more tail]

/-- A head read back from its own document is the head that was written. -/
theorem decode_encodeStoreHead {R : Type} {cfg : StoreConfig R} {head decoded : StoreHead}
    {document : HeadDocument} {token : String} (encoded : encodeStoreHead cfg head = some document)
    (decodes : decodeStoreHead cfg document token = some decoded) : decoded = head := by
  obtain ⟨segments, hsegments, rfl⟩ := Option.map_eq_some_iff.mp encoded
  unfold decodeStoreHead at decodes
  split at decodes
  · cases decodes
  · next accepted =>
    have same : head.compatibilityToken = token := by
      by_contra other
      exact accepted (Or.inr (Or.inr (Or.inl other)))
    obtain ⟨operationFilter, hfilter, decodes⟩ := Option.bind_eq_some_iff.mp decodes
    split at decodes
    · cases decodes
      have filters := decodeSegments_encodeSegments _ hsegments hfilter
      subst filters
      subst same
      rfl
    · cases decodes

end Loushang.Conversation
