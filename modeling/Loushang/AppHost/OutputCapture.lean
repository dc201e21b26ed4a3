import Loushang.AppHost.Contracts
import Loushang.Lib.Run
import Mathlib.Logic.Function.Basic

/-!
# The managed output capture

From `apphost/managed/output_capture.py` and `_capture_native.py`. Work submitted to the
lease runs one after the other in the order of submission, each piece as one step of the
run, whose surroundings say what the storage does. `close` is left out, and with it all that
only a closing lease does; identities of files match, since nobody else writes them.
-/
namespace Loushang.AppHost
open Lib

inductive OutputStream where
  | stdout
  | stderr
  deriving DecidableEq

/-- `ExecOutputChunk`. -/
structure ExecOutputChunk where
  stream : OutputStream
  text : PyStr

/-- A managed error, or what something outside the capture raised. -/
inductive CaptureError where
  | storage (code : StorageError)
  | raised

/-- `MAX_RECORD_BYTES` of `_files.py`. -/
def captureRecordBytes : Nat := 16 * 1024

/-- One code point under `errors="surrogateescape"`. -/
def escapeBytes (point : CodePoint) : Option (List UInt8) :=
  if 0xdc80 ≤ point.val ∧ point.val ≤ 0xdcff then some [.ofNat (point.val - 0xdc00)]
  else if 0xd800 ≤ point.val ∧ point.val ≤ 0xdfff then none
  else some (PyStr.utf8Bytes point.val)

/-- `text.encode("utf-8", errors="surrogateescape")`. -/
def encodeEscape (text : PyStr) : Option (List UInt8) :=
  (text.points.mapM escapeBytes).map List.flatten

/-- `content[start:start + size] for start in range(0, len(content), size)`, with as many
rounds as `content` has bytes at most. -/
def piecesOf (size : Nat) : Nat → List UInt8 → List (List UInt8)
  | 0, _ => []
  | rounds + 1, content =>
    if content = [] then [] else content.take size :: piecesOf size rounds (content.drop size)

def pieces (content : List UInt8) : List (List UInt8) :=
  piecesOf captureRecordBytes content.length content

/-! ## The native owner -/

/-- `NativeOutputCapture`, with the content of its files. -/
structure NativeCapture where
  started : Bool
  ready : Bool
  lost : Bool
  sealed : Bool
  closed : Bool
  writeUnknown : Bool
  file : OutputStream → List UInt8

namespace NativeCapture

def initial : NativeCapture := ⟨false, false, false, false, false, false, fun _ => []⟩

/-- How the reservation and the creation of both files end. -/
inductive Preparation where
  | ready
  | refused
  | raises (capacityRefused : Bool)

def prepare (native : NativeCapture) (preparation : Preparation) :
    Except CaptureError Bool × NativeCapture :=
  if native.started ∨ native.closed then (.error (.storage .conflict), native)
  else
    match preparation with
    | .ready => (.ok true, { native with started := true, ready := true })
    | .refused => (.ok false, { native with started := true, lost := true, closed := true })
    | .raises capacityRefused =>
      (.error .raised, { native with started := true, lost := native.lost || capacityRefused })

variable (capacity : OutputStream → Nat)

/-- How one piece ends: written, dropped because of an earlier loss, over the capacity, or
with an exception of the write. -/
inductive PieceEnd where
  | written
  | dropped
  | overflowed
  | failed
  | refused
  deriving DecidableEq

/-- `append`. A write that fails leaves what `fault` says behind. -/
def append (native : NativeCapture) (stream : OutputStream) (piece : List UInt8)
    (fault : Option (List UInt8)) : PieceEnd × NativeCapture :=
  if native.closed ∨ native.sealed ∨ native.ready = false then (.refused, native)
  else if native.lost then (.dropped, native)
  else if capacity stream < (native.file stream).length + piece.length then
    (.overflowed, { native with lost := true })
  else
    match fault with
    | some left =>
      (.failed,
        { native with
          lost := true
          writeUnknown := true
          file := Function.update native.file stream (native.file stream ++ left) })
    | none =>
      (.written,
        { native with
          file := Function.update native.file stream (native.file stream ++ piece) })

/-- The loop over the pieces of a chunk, which an exception ends; `faults` are those of the
pieces in their order. -/
def appendPieces (native : NativeCapture) (stream : OutputStream) :
    List (List UInt8) → List (Option (List UInt8)) → List PieceEnd × NativeCapture
  | [], _ => ([], native)
  | piece :: rest, faults =>
    let (ending, native) := native.append capacity stream piece (faults.headD none)
    if ending = .failed ∨ ending = .refused then ([ending], native)
    else
      let (endings, native) := appendPieces native stream rest faults.tail
      (ending :: endings, native)

/-- `seal`. -/
def sealFiles (native : NativeCapture) :
    Except CaptureError (Option (OutputStream → Nat)) × NativeCapture :=
  if native.closed ∨ native.ready = false then (.error (.storage .closed), native)
  else
    (.ok (if native.lost then none else some fun stream => (native.file stream).length),
      { native with sealed := true })

def read (native : NativeCapture) (stream : OutputStream) (maxBytes : Nat) (fails : Bool) :
    Except CaptureError (List UInt8) :=
  if native.closed ∨ native.sealed = false ∨ native.lost then .error (.storage .closed)
  else if min (capacity stream) maxBytes < (native.file stream).length then
    .error (.storage .capacity)
  else if fails then .error .raised
  else .ok (native.file stream)

end NativeCapture

/-! ## The lease -/

inductive CaptureTask where
  | prepare
  | append (stream : OutputStream) (content : List UInt8)
  | sealing
  | read (stream : OutputStream) (maxBytes : Nat)
  deriving DecidableEq

/-- A task that is kept for those who join it. -/
inductive Joined (α : Type) where
  | absent
  | running
  | ended (result : Except CaptureError α)

/-- The task of an accepted `append`. Its end is kept for the reader that waits. -/
structure AppendTask where
  stream : OutputStream
  content : List UInt8
  ended : Option (List NativeCapture.PieceEnd)

/-- The waiting task of an append. -/
def CaptureTask.append? : CaptureTask → Option AppendTask
  | .append stream content => some ⟨stream, content, none⟩
  | _ => none

/-- The append raised, from its write or in the place of it. -/
def AppendTask.raised (task : AppendTask) : Bool :=
  match task.ended with
  | none => false
  | some endings => endings.any fun ending => ending = .failed || ending = .refused

/-- `ManagedOutputCapture`. -/
structure Capture where
  native : NativeCapture
  accepting : Bool
  refused : Bool
  unknown : Bool
  /-- Tasks that wait for the worker, in the order of submission. -/
  queue : List CaptureTask
  /-- Ended tasks whose callback has not taken them out of `_pending`. -/
  lingering : Nat
  prepareTask : Joined Bool
  sealTask : Joined (Option (OutputStream → Nat))
  sealed : Option (OutputStream → Nat)
  /-- The ended appends, in the order of submission. -/
  ended : List AppendTask

namespace Capture

def initial : Capture where
  native := .initial
  accepting := true
  refused := false
  unknown := false
  queue := []
  lingering := 0
  prepareTask := .absent
  sealTask := .absent
  sealed := none
  ended := []

/-- The tasks of all appends that were accepted, in the order of submission. -/
def appends (s : Capture) : List AppendTask := s.ended ++ s.queue.filterMap CaptureTask.append?

/-- What the appends that did not raise were given for a stream. -/
def written (s : Capture) (stream : OutputStream) : List UInt8 :=
  (s.ended.filter fun task => task.stream = stream && !task.raised).flatMap AppendTask.content

/-- What the storage does with the next task. -/
structure Attempt where
  /-- The executor takes the native call. -/
  starts : Bool
  preparation : NativeCapture.Preparation
  faults : List (Option (List UInt8))
  readFails : Bool

inductive Input where
  | prepare
  | prepareResumes
  | append (chunk : ExecOutputChunk)
  | stopAccepting
  | sealing
  | sealResumes
  | read (stream : OutputStream) (maxBytes : Nat)
  /-- The worker takes the next task. -/
  | work (attempt : Attempt)
  /-- The callback of an ended task runs. -/
  | callback
  /-- A task of the lease is cancelled: the outcome of its native call stays unknown. -/
  | cancelWorker

inductive Output where
  | waits
  | ignored
  | raises (error : CaptureError)
  | prepared (ready : Bool)
  /-- `seal` returns nothing. -/
  | noSources
  | sources (sizes : OutputStream → Nat)
  | appended (endings : List NativeCapture.PieceEnd)
  | content (stream : OutputStream) (bytes : List UInt8)

/-- `_submit`. -/
def submit (s : Capture) (task : CaptureTask) : Except CaptureError Capture :=
  if s.unknown then .error (.storage .unavailable)
  else if 8 ≤ s.queue.length + s.lingering then .error (.storage .capacity)
  else .ok { s with queue := s.queue ++ [task] }

def prepare (s : Capture) : Output × Capture :=
  match s.prepareTask with
  | .absent =>
    match s.submit .prepare with
    | .error error => (.raises error, s)
    | .ok s => (.waits, { s with prepareTask := .running })
  | _ => (.waits, s)

/-- `prepare` behind its `await`. -/
def prepareResumes (s : Capture) : Output × Capture :=
  match s.prepareTask with
  | .ended (.ok true) => (.prepared true, s)
  | .ended (.ok false) => (.prepared false, { s with refused := true, accepting := false })
  | .ended (.error error) => (.raises error, s)
  | _ => (.ignored, s)

def append (s : Capture) (chunk : ExecOutputChunk) : Output × Capture :=
  if s.accepting = false then (.ignored, s)
  else if captureRecordBytes < chunk.text.points.length then
    (.raises (.storage .invalidRecord), s)
  else
    match encodeEscape chunk.text with
    | none => (.raises .raised, s)
    | some content =>
      match s.submit (.append chunk.stream content) with
      | .error error => (.raises error, s)
      | .ok s => (.waits, s)

/-- `seal` up to its `await`. -/
def sealCapture (s : Capture) : Output × Capture :=
  if s.refused then (.noSources, { s with accepting := false })
  else
    match s.sealTask with
    | .absent =>
      match { s with accepting := false }.submit .sealing with
      | .error error => (.raises error, { s with accepting := false })
      | .ok s => (.waits, { s with sealTask := .running })
    | _ => (.waits, { s with accepting := false })

/-- `seal` behind its `await`. -/
def sealResumes (s : Capture) : Output × Capture :=
  match s.sealTask with
  | .ended (.ok none) => (.noSources, s)
  | .ended (.ok (some sizes)) =>
    match s.sealed with
    | none => (.sources sizes, { s with sealed := some sizes })
    | some sizes => (.sources sizes, s)
  | .ended (.error error) => (.raises error, s)
  | _ => (.ignored, s)

def reads (stream : OutputStream) : CaptureTask → Bool
  | .read other _ => stream = other
  | _ => false

/-- `_read`, which a source calls. -/
def read (s : Capture) (stream : OutputStream) (maxBytes : Nat) : Output × Capture :=
  if s.sealed.isNone then (.raises (.storage .closed), s)
  else if s.queue.any (reads stream) then (.raises (.storage .busy), s)
  else
    match s.submit (.read stream maxBytes) with
    | .error error => (.raises error, s)
    | .ok s => (.waits, s)

variable (capacity : OutputStream → Nat)

/-- The native call of a task, and its result where it is joined. -/
def runTask (s : Capture) (attempt : Attempt) : CaptureTask → Output × Capture
  | .prepare =>
    let (result, native) := s.native.prepare attempt.preparation
    (.ignored, { s with native, prepareTask := .ended result })
  | .append stream content =>
    let (endings, native) := s.native.appendPieces capacity stream (pieces content) attempt.faults
    (.appended endings, { s with native, ended := s.ended ++ [⟨stream, content, some endings⟩] })
  | .sealing =>
    let (result, native) := s.native.sealFiles
    (.ignored, { s with native, sealTask := .ended result })
  | .read stream maxBytes =>
    match s.native.read capacity stream maxBytes attempt.readFails with
    | .ok bytes => (.content stream bytes, s)
    | .error error => (.raises error, s)

/-- A task that ends with an exception in the place of its native call. -/
def failTask (s : Capture) (error : CaptureError) : CaptureTask → Output × Capture
  | .prepare => (.ignored, { s with prepareTask := .ended (.error error) })
  | .append stream content =>
    (.appended [.refused], { s with ended := s.ended ++ [⟨stream, content, some [.refused]⟩] })
  | .sealing => (.ignored, { s with sealTask := .ended (.error error) })
  | .read _ _ => (.raises error, s)

/-- `run` of the next task. -/
def work (s : Capture) (attempt : Attempt) : Output × Capture :=
  match s.queue with
  | [] => (.ignored, s)
  | task :: rest =>
    let s := { s with queue := rest, lingering := s.lingering + 1 }
    if s.unknown then s.failTask (.storage .unavailable) task
    else if attempt.starts = false then s.failTask .raised task
    else s.runTask capacity attempt task

def machine : Machine Capture Input Output where
  step s
    | .prepare => s.prepare
    | .prepareResumes => s.prepareResumes
    | .append chunk => s.append chunk
    | .stopAccepting => (.ignored, { s with accepting := false })
    | .sealing => s.sealCapture
    | .sealResumes => s.sealResumes
    | .read stream maxBytes => s.read stream maxBytes
    | .work attempt => s.work capacity attempt
    | .callback => (.ignored, { s with lingering := s.lingering - 1 })
    | .cancelWorker => (.ignored, { s with unknown := true })

end Capture

end Loushang.AppHost
