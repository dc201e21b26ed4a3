import Loushang.AppHost.Contracts
import Loushang.Lib.Frames
import Loushang.Lib.Run
import Loushang.Lib.Sorting
import Mathlib.Data.Fin.Basic
import Mathlib.Data.List.FinRange

/-!
# The managed lifecycle log

From `apphost/managed/event_log.py` with `data_snapshot` and `append_data` of `_files.py`.
The directory is its five segments. Reservations, identities, change stamps and deadlines
are left out: nobody else writes under the lock, so that they match.
-/
namespace Loushang.AppHost
open Lib

/-- `_EVENTS`. -/
inductive LifecycleEvent where
  | starting
  | ready
  | stopping
  | stopped
  | failed
  deriving DecidableEq

namespace LifecycleEvent

def text : LifecycleEvent → String
  | starting => "starting"
  | ready => "ready"
  | stopping => "stopping"
  | stopped => "stopped"
  | failed => "failed"

def all : List LifecycleEvent := [starting, ready, stopping, stopped, failed]

end LifecycleEvent

/-- `_CODES`. -/
inductive LifecycleCode where
  | startupFailed
  | applicationFailed
  | cleanupIncomplete
  | stopRequested
  deriving DecidableEq

namespace LifecycleCode

def text : LifecycleCode → String
  | startupFailed => "startup_failed"
  | applicationFailed => "application_failed"
  | cleanupIncomplete => "cleanup_incomplete"
  | stopRequested => "stop_requested"

def all : List LifecycleCode := [startupFailed, applicationFailed, cleanupIncomplete, stopRequested]

end LifecycleCode

structure ManagedLifecycleEventV1 where
  event : LifecycleEvent
  instanceId : PyStr
  code : Option LifecycleCode
  instanceId_hex : isHex 32 instanceId = true

instance : DecidableEq ManagedLifecycleEventV1 := fun a b =>
  decidable_of_iff (a.event = b.event ∧ a.instanceId = b.instanceId ∧ a.code = b.code)
    (by cases a; cases b; simp)

structure ManagedLifecycleRecordV1 where
  sequence : Int
  event : ManagedLifecycleEventV1
  deriving DecidableEq

def capacity : Nat := 10 * 1024 ^ 2
def frameBytes : Nat := 256
def maxSequence : Int := 2 ^ 63 - 1

/-- `MAX_RECORD_BYTES` of `_files.py`. -/
def maxRecordBytes : Nat := 16 * 1024

def newline : UInt8 := 10

/-- `text.encode("ascii")` of a text without other characters. -/
def asciiBytes (points : List CodePoint) : List UInt8 :=
  points.map fun point => UInt8.ofNat point.val

def codeValue : Option LifecycleCode → JsonValue
  | none => .null
  | some code => .str (PyStr.ofString code.text)

def eventRow (event : ManagedLifecycleEventV1) (sequence : Int) : JsonValue :=
  .obj [(PyStr.ofString "v", .int 1), (PyStr.ofString "event", .str (PyStr.ofString event.event.text)),
    (PyStr.ofString "instanceId", .str event.instanceId),
    (PyStr.ofString "code", codeValue event.code), (PyStr.ofString "sequence", .int sequence)]

/-- The text of a row, without its line feed. -/
def rowBytes (event : ManagedLifecycleEventV1) (sequence : Int) : List UInt8 :=
  asciiBytes (JsonText.dump (eventRow event sequence))

/-- `_encode`. -/
def encode (event : ManagedLifecycleEventV1) (sequence : Int) : Except StorageError (List UInt8) :=
  if ¬(1 ≤ sequence ∧ sequence ≤ maxSequence) then .error .capacity
  else
    let result := rowBytes event sequence ++ [newline]
    if frameBytes < result.length then .error .capacity else .ok result

/-- `json.loads(frame)` of bytes. Frames with other bytes than ASCII, or with zeros that
make the decoder guess another encoding, never equal the text they are compared with. -/
def loadsBytes (frame : List UInt8) : Option JsonValue :=
  if frame.all fun byte => 0 < byte.toNat && byte.toNat < 128 then
    JsonText.loads ⟨frame.map fun byte => Fin.ofNat _ byte.toNat⟩
  else none

def decodeEvent : JsonValue → Option LifecycleEvent
  | .str text => LifecycleEvent.all.find? fun event => PyStr.ofString event.text = text
  | _ => none

def decodeCode : JsonValue → Option (Option LifecycleCode)
  | .null => some none
  | .str text =>
    (LifecycleCode.all.find? fun code => PyStr.ofString code.text = text).map some
  | _ => none

/-- `ManagedLifecycleEventV1(row["event"], row["instanceId"], row["code"])`. -/
def makeEvent (event instanceId code : JsonValue) : Option ManagedLifecycleEventV1 :=
  match decodeEvent event, decodeCode code, instanceId with
  | some event, some code, .str instanceId =>
    if hex : isHex 32 instanceId = true then some ⟨event, instanceId, code, hex⟩ else none
  | _, _, _ => none

/-- The record of a parsed row, before its bytes are compared. -/
def rowRecord : JsonValue → Option ManagedLifecycleRecordV1
  | .obj entries =>
    if hasKeys entries ["v", "event", "instanceId", "code", "sequence"] then
      match field entries "v", field entries "event", field entries "instanceId",
        field entries "code", field entries "sequence" with
      | some (.int 1), some event, some instanceId, some code, some (.int sequence) =>
        (makeEvent event instanceId code).map fun event => ⟨sequence, event⟩
      | _, _, _, _, _ => none
    else none
  | _ => none

/-- `_decode_frame`. -/
def decodeFrame (frame : List UInt8) : Except StorageError ManagedLifecycleRecordV1 :=
  if ¬(0 < frame.length ∧ frame.length ≤ frameBytes) then .error .invalidRecord
  else
    match (loadsBytes frame).bind rowRecord with
    | none => .error .invalidRecord
    | some record =>
      if encode record.event record.sequence = .ok frame then .ok record else .error .invalidRecord

/-- `ManagedDataFileSnapshot`: the size of a file and its last record-sized piece. -/
structure Snapshot where
  size : Nat
  tail : List UInt8

/-- `data[-MAX_RECORD_BYTES:]`. -/
def tailOf (content : List UInt8) : List UInt8 := (content.reverse.take maxRecordBytes).reverse

theorem tailOf_eq (content : List UInt8) :
    tailOf content = content.drop (content.length - maxRecordBytes) := by
  rw [tailOf, List.take_reverse, List.reverse_reverse]

/-- `directory.data_snapshot(name, capacity=segment_bytes)` of a file that may be absent. -/
def dataSnapshot (segmentBytes : Nat) : Option (List UInt8) → Except StorageError (Option Snapshot)
  | none => .ok none
  | some content =>
    if segmentBytes < content.length then .error .capacity
    else .ok (some ⟨content.length, tailOf content⟩)

/-- `_sequence`. -/
def sequenceOf (snapshot : Snapshot) : Except StorageError Int :=
  if snapshot.size = 0 then .ok 0
  else if snapshot.tail.getLast? ≠ some newline then .error .invalidRecord
  -- no earlier line feed in a tail that is not the whole file
  else if newline ∉ snapshot.tail.dropLast ∧ snapshot.size ≠ snapshot.tail.length then
    .error .invalidRecord
  else
    match decodeFrame (lastOpen newline snapshot.tail.dropLast ++ [newline]) with
    | .error error => .error error
    | .ok record => .ok record.sequence

instance slotsNeZero : NeZero 5 := ⟨by decide⟩

/-- The files `LIFECYCLE_LOG_NAMES`, in order. -/
abbrev Segments := Fin 5 → Option (List UInt8)

def slots : List (Fin 5) := List.finRange 5

/-- Apply a fallible function to every slot in order. -/
def forSlots {α : Type} (run : Fin 5 → Except StorageError α) : Except StorageError (List α) :=
  slots.mapM run

/-- `_snapshots`. -/
def snapshots (segmentBytes : Nat) (segments : Segments) :
    Except StorageError (List (Option Snapshot)) :=
  forSlots fun slot => dataSnapshot segmentBytes (segments slot)

def sequenceOfSlot : Option Snapshot → Except StorageError Int
  | none => .ok 0
  | some snapshot => sequenceOf snapshot

/-- `directory.append_data(name, content, expected=snapshot, truncate=rotate)`. -/
def appendData (segmentBytes : Nat) (segments : Segments) (slot : Fin 5) (content : List UInt8)
    (truncate : Bool) : Except StorageError Segments :=
  let before := if truncate then [] else (segments slot).getD []
  if maxRecordBytes < content.length then .error .invalidRecord
  else if segmentBytes < before.length + content.length then .error .capacity
  else .ok (Function.update segments slot (some (before ++ content)))

/-- `directory.append_data(name, b"", expected=None)` of an absent file. -/
def createFile (segments : Segments) (slot : Fin 5) : Segments :=
  if (segments slot).isNone then Function.update segments slot (some []) else segments

/-- Append a frame to the slot or, when it does not fit there, rotate to the next one. -/
def appendFrame (segmentBytes : Nat) (segments : Segments) (slot : Fin 5) (content : List UInt8) :
    Except StorageError Segments :=
  let rotate : Bool := (segments slot).any fun file => segmentBytes < file.length + content.length
  let slot := if rotate then slot + 1 else slot
  appendData segmentBytes (createFile segments slot) slot content rotate

/-- The part of `_write` behind the sequences of the segments. -/
def writeBehind (segmentBytes : Nat) (segments : Segments) (event : ManagedLifecycleEventV1)
    (sequences : List Int) : Except StorageError (Segments × Int) :=
  if ¬(sequences.filter (· ≠ 0)).Nodup then .error .invalidRecord
  else do
    let latest := sequences.foldl max 0
    let content ← encode event (latest + 1)
    let segments ← appendFrame segmentBytes segments (Fin.ofNat 5 (sequences.idxOf latest)) content
    return (segments, latest + 1)

/-- `_write` behind its lock: the segments and the sequence of the event. -/
def writeEvent (segmentBytes : Nat) (segments : Segments) (event : ManagedLifecycleEventV1) :
    Except StorageError (Segments × Int) := do
  let found ← snapshots segmentBytes segments
  let sequences ← found.mapM sequenceOfSlot
  writeBehind segmentBytes segments event sequences

/-- The frames of a tail that begin inside it. -/
def visibleFrames (snapshot : Snapshot) : List (List UInt8) :=
  let frames := closedBodies newline snapshot.tail
  if snapshot.tail.length < snapshot.size then frames.drop 1 else frames

/-- The records of one segment, in growing order. -/
def segmentRecords : Option Snapshot → Except StorageError (List ManagedLifecycleRecordV1)
  | none => .ok []
  | some snapshot =>
    if snapshot.size = 0 then .ok []
    else do
      discard <| sequenceOf snapshot
      let records ← (visibleFrames snapshot).mapM fun frame => decodeFrame (frame ++ [newline])
      if ¬(0 :: records.map ManagedLifecycleRecordV1.sequence).Pairwise (· < ·) then
        throw .invalidRecord
      return records

/-- `read_tail` behind its lock. -/
def readTail (segmentBytes : Nat) (segments : Segments) (limit : Nat) :
    Except StorageError (List ManagedLifecycleRecordV1) := do
  let found ← snapshots segmentBytes segments
  let parts ← found.mapM segmentRecords
  let records := parts.flatten
  if ¬(records.map ManagedLifecycleRecordV1.sequence).Nodup then .error .invalidRecord
  else
    let sorted := sortedOn ManagedLifecycleRecordV1.sequence records
    .ok (sorted.drop (sorted.length - limit))

/-! ## The log object over its runs -/

structure Log where
  segments : Segments
  /-- `lifecycle.lock` exists. -/
  lockFile : Bool
  failed : Bool

def Log.fresh : Log := ⟨fun _ => none, false, false⟩

/-- How an attempt fares. An attempt that fails without effect may have left the lock file. -/
inductive Attempt where
  | admitted
  | dropped
  | fails (leavesLockFile : Bool)

inductive LogInput where
  | write (event : ManagedLifecycleEventV1) (attempt : Attempt)
  /-- Another object opened on the same directory. -/
  | reopen

/-- `segment_bytes` as the constructor accepts it. -/
def acceptsSegment (segmentBytes : Nat) : Prop := frameBytes ≤ segmentBytes ∧ segmentBytes ≤ capacity

instance (segmentBytes : Nat) : Decidable (acceptsSegment segmentBytes) := inferInstanceAs (Decidable (_ ∧ _))

/-- `write`: the sequence, or nothing for a dropped event. -/
def Log.write (segmentBytes : Nat) (log : Log) (event : ManagedLifecycleEventV1) :
    Attempt → Except StorageError (Option Int) × Log
  | .admitted =>
    if log.failed then (.error .closed, log)
    else
      match writeEvent segmentBytes log.segments event with
      | .error error => (.error error, { log with lockFile := true, failed := true })
      | .ok (segments, sequence) => (.ok (some sequence), { log with segments, lockFile := true })
  | .dropped =>
    if log.failed then (.error .closed, log) else (.ok none, { log with lockFile := true })
  | .fails leavesLockFile =>
    if log.failed then (.error .closed, log)
    else
      (.error .unavailable,
        { log with lockFile := log.lockFile || leavesLockFile, failed := true })

def logMachine (segmentBytes : Nat) : Machine Log LogInput (Except StorageError (Option Int)) where
  step log
    | .write event attempt => log.write segmentBytes event attempt
    | .reopen => (.ok none, { log with failed := false })

/-- `read_tail`. -/
def Log.readTail (segmentBytes : Nat) (log : Log) (limit : Nat) :
    Except ManagedError (List ManagedLifecycleRecordV1) :=
  if ¬(1 ≤ limit ∧ limit ≤ 100) then .error .contract
  else if log.lockFile = false then .error (.storage .notFound)
  else (AppHost.readTail segmentBytes log.segments limit).mapError .storage

/-! ## Frames -/

variable {points : List CodePoint}

theorem asciiBytes_bounds (ascii : JsonText.Ascii points) :
    ∀ byte ∈ asciiBytes points, 0x20 ≤ byte.toNat ∧ byte.toNat ≤ 0x7e := by
  intro byte member
  obtain ⟨point, inside, rfl⟩ := List.mem_map.mp member
  obtain ⟨low, high⟩ := ascii point inside
  rw [UInt8.toNat_ofNat', Nat.mod_eq_of_lt (by omega)]
  exact ⟨low, high⟩

theorem asciiBytes_text (ascii : JsonText.Ascii points) :
    (asciiBytes points).map (fun byte => Fin.ofNat 0x110000 byte.toNat) = points := by
  unfold asciiBytes
  rw [List.map_map]
  calc points.map _ = points.map id := by
        apply List.map_congr_left
        intro point member
        obtain ⟨low, high⟩ := ascii point member
        apply Fin.ext
        simp only [Function.comp, UInt8.toNat_ofNat', Fin.ofNat, id]
        omega
    _ = points := List.map_id points

theorem newline_not_mem (ascii : JsonText.Ascii points) : newline ∉ asciiBytes points := by
  intro member
  obtain ⟨low, _⟩ := asciiBytes_bounds ascii newline member
  exact absurd low (by decide)

theorem LifecycleEvent.text_printable (event : LifecycleEvent) :
    JsonText.printable (PyStr.ofString event.text) = true := by
  cases event <;> decide

theorem codeValue_plain (code : Option LifecycleCode) : JsonText.Plain (codeValue code) := by
  cases code with
  | none => simp only [codeValue, JsonText.Plain]
  | some code =>
    rw [codeValue, JsonText.Plain]
    cases code <;> decide

variable {sequence : Int}

theorem sequence_length (inside : 1 ≤ sequence ∧ sequence ≤ maxSequence) :
    (JsonText.digits sequence.natAbs).length ≤ 19 := by
  apply JsonText.length_digits (by decide)
  have upper := inside.2
  unfold maxSequence at upper
  omega

theorem eventRow_plain (event : ManagedLifecycleEventV1) (inside : 1 ≤ sequence ∧ sequence ≤ maxSequence) :
    JsonText.Plain (eventRow event sequence) := by
  have short := sequence_length inside
  have names : (["v", "event", "instanceId", "code", "sequence"].map PyStr.ofString).Nodup := by
    decide
  simp only [eventRow, JsonText.Plain, JsonText.PlainMembers, and_true]
  refine ⟨names, by decide, by decide, by decide, event.event.text_printable, by decide,
    (isHex_unescaped event.instanceId_hex).printable, by decide, codeValue_plain _, by decide, ?_⟩
  omega

theorem decodeEvent_text (event : LifecycleEvent) :
    decodeEvent (.str (PyStr.ofString event.text)) = some event := by
  cases event <;> rfl

theorem decodeCode_codeValue (code : Option LifecycleCode) :
    decodeCode (codeValue code) = some code := by
  cases code with
  | none => rfl
  | some code => cases code <;> rfl

theorem rowRecord_eventRow (event : ManagedLifecycleEventV1) (sequence : Int) :
    rowRecord (eventRow event sequence) = some ⟨sequence, event⟩ := by
  have made : makeEvent (.str (PyStr.ofString event.event.text)) (.str event.instanceId)
      (codeValue event.code) = some event := by
    unfold makeEvent
    simp only [decodeEvent_text, decodeCode_codeValue]
    exact dif_pos event.instanceId_hex
  have read : rowRecord (eventRow event sequence) =
      (makeEvent (.str (PyStr.ofString event.event.text)) (.str event.instanceId)
        (codeValue event.code)).map fun event => ⟨sequence, event⟩ := rfl
  rw [read, made]
  rfl

theorem LifecycleEvent.length_dumpStr (event : LifecycleEvent) :
    (JsonText.dumpStr (PyStr.ofString event.text)).length ≤ 10 := by
  cases event <;> decide

theorem length_dump_codeValue (code : Option LifecycleCode) :
    (JsonText.dump (codeValue code)).length ≤ 20 := by
  cases code with
  | none => rw [codeValue, JsonText.dump]; decide
  | some code =>
    rw [codeValue, JsonText.dump]
    cases code <;> decide

theorem length_dumpInt_sequence (inside : 1 ≤ sequence ∧ sequence ≤ maxSequence) :
    (JsonText.dumpInt sequence).length ≤ 19 := by
  rw [JsonText.dumpInt, if_neg (by omega)]
  exact sequence_length inside

theorem length_dump_eventRow (event : ManagedLifecycleEventV1)
    (inside : 1 ≤ sequence ∧ sequence ≤ maxSequence) :
    (JsonText.dump (eventRow event sequence)).length ≤ 133 := by
  have name := event.event.length_dumpStr
  have code := length_dump_codeValue event.code
  have number := length_dumpInt_sequence inside
  have hex : (JsonText.dumpStr event.instanceId).length = 34 := by
    rw [(isHex_unescaped event.instanceId_hex).dumpStr, List.length_cons, List.length_append,
      isHex_length event.instanceId_hex, List.length_singleton]
  have one : (JsonText.dumpInt 1).length = 1 := by decide
  have keys : (JsonText.dumpStr (PyStr.ofString "v")).length = 3 ∧
      (JsonText.dumpStr (PyStr.ofString "event")).length = 7 ∧
      (JsonText.dumpStr (PyStr.ofString "instanceId")).length = 12 ∧
      (JsonText.dumpStr (PyStr.ofString "code")).length = 6 ∧
      (JsonText.dumpStr (PyStr.ofString "sequence")).length = 10 := by decide
  obtain ⟨keyV, keyEvent, keyInstance, keyCode, keySequence⟩ := keys
  simp only [eventRow, JsonText.dump, JsonText.dumpMembers, List.length_cons, List.length_append,
    List.length_nil, hex, one, keyV, keyEvent, keyInstance, keyCode, keySequence]
  omega

/-- What the log writes for an event: one line that is read back. -/
theorem encode_spec (event : ManagedLifecycleEventV1) {sequence : Int}
    (inside : 1 ≤ sequence ∧ sequence ≤ maxSequence) :
    encode event sequence = .ok (rowBytes event sequence ++ [newline]) ∧
      newline ∉ rowBytes event sequence ∧ (rowBytes event sequence).length ≤ 133 ∧
      decodeFrame (rowBytes event sequence ++ [newline]) = .ok ⟨sequence, event⟩ := by
  have plain := eventRow_plain event inside
  have ascii := JsonText.dump_ascii _ plain
  have short := length_dump_eventRow event inside
  have length : (rowBytes event sequence).length ≤ 133 := by
    rw [rowBytes, asciiBytes, List.length_map]
    exact short
  have encoded : encode event sequence = .ok (rowBytes event sequence ++ [newline]) := by
    unfold encode
    rw [if_neg (not_not.mpr inside), if_neg]
    rw [List.length_append, List.length_singleton]
    unfold frameBytes
    omega
  refine ⟨encoded, newline_not_mem ascii, length, ?_⟩
  have inRange : ∀ byte ∈ rowBytes event sequence ++ [newline],
      (decide (0 < byte.toNat) && decide (byte.toNat < 128)) = true := by
    intro byte member
    rw [Bool.and_eq_true, decide_eq_true_eq, decide_eq_true_eq]
    rcases List.mem_append.mp member with inside | last
    · obtain ⟨low, high⟩ := asciiBytes_bounds ascii byte inside
      omega
    · rw [List.mem_singleton.mp last]
      decide
  have loaded : loadsBytes (rowBytes event sequence ++ [newline]) =
      some (eventRow event sequence) := by
    unfold loadsBytes
    rw [if_pos (List.all_eq_true.mpr inRange), List.map_append, rowBytes, asciiBytes_text ascii]
    exact JsonText.loads_dumps plain (.inr rfl)
  unfold decodeFrame
  rw [if_neg, loaded, Option.bind_some, rowRecord_eventRow]
  · exact if_pos encoded
  · rw [List.length_append, List.length_singleton]
    unfold frameBytes
    omega

end Loushang.AppHost
