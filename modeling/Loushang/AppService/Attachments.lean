import Loushang.AppService.Executions
import Loushang.Lib.Dict
import Loushang.Lib.Run
import Mathlib.Logic.Function.Basic

/-!
# Attachments and the event delivery of a session

`_Attachment`, the event side of `_SessionOwner`, and `attach_mux`, `detach_mux`,
`read_events` of `appservice/runtime.py`. What one coroutine does between two suspension
points is one step; locks only order steps and are left out. A session's port numbers its
events 1, 2, 3, … (`CodingHostedSessionPortV1._cursor`), hands them over in that order and
answers a snapshot with a number it had between the call and the return. Attachment ids are
drawn at random: an id names one attachment for good, and nobody reads from one before
`attach_mux` has returned it. The service's own close and the continuity commits are left out.
-/
namespace Loushang.AppService.Attachments
open Loushang.Lib

/-- `SessionEventV1`, without its payload. -/
structure SessionEvent where
  sessionId : String
  cursor : Nat

structure AttachmentEvent where
  attachmentId : String
  memberId : String
  event : SessionEvent

/-- `_Attachment`. `memberCursors` is absent until the attachment is activated. -/
structure Attachment where
  attachmentId : String
  muxSpaceId : String
  controllerGeneration : Nat
  mailboxCapacity : Nat
  queue : List AttachmentEvent
  memberIds : Dict String String
  memberCursors : Option (Dict String Nat)
  lagged : Bool
  settled : Bool

namespace Attachment

def active (a : Attachment) : Bool := !a.settled && !a.lagged

def bindMember (a : Attachment) (session memberId : String) : Attachment :=
  { a with memberIds := a.memberIds.set session memberId }

/-- `_put`: an attachment whose mailbox is full loses it and lags (`asyncio.Queue` has no
bound at size 0). -/
def put (a : Attachment) (item : AttachmentEvent) : Attachment :=
  if 0 < a.mailboxCapacity ∧ a.mailboxCapacity ≤ a.queue.length then
    { a with lagged := true, queue := [] }
  else { a with queue := a.queue ++ [item] }

/-- The threshold test that `activate` and `push` share. -/
def above (cursors : Dict String Nat) (event : SessionEvent) : Bool :=
  match cursors.get? event.sessionId with
  | none => false
  | some threshold => threshold < event.cursor

/-- Events that arrived during the attach are kept if its snapshots do not cover them. -/
def activate (a : Attachment) (snapshots : List (String × Nat)) :
    Except AppErrorCode Unit × Attachment :=
  if a.settled || a.lagged then (.error .snapshotRequired, a)
  else
    let cursors := Dict.empty.update snapshots
    let retained := a.queue.filter fun item => above cursors item.event
    let activated := retained.foldl put { a with memberCursors := some cursors, queue := [] }
    if activated.lagged then (.error .snapshotRequired, activated) else (.ok (), activated)

def push (a : Attachment) (event : SessionEvent) : Attachment :=
  if a.settled || a.lagged then a
  else
    match a.memberIds.get? event.sessionId with
    | none => a
    | some memberId =>
      if a.memberCursors.all (above · event) then a.put ⟨a.attachmentId, memberId, event⟩ else a

def read (a : Attachment) (limit : Nat) : Except AppErrorCode (List AttachmentEvent) × Attachment :=
  if a.settled then (.error .staleAttachment, a)
  else if a.lagged then (.error .attachmentLagged, a)
  else (.ok (a.queue.take limit), { a with queue := a.queue.drop limit })

def invalidate (a : Attachment) : Attachment := { a with lagged := true, queue := [] }

def settle (a : Attachment) : Attachment :=
  { a with settled := true, queue := [], memberIds := Dict.empty, memberCursors := none }

end Attachment

/-- `_SessionOwner`, with the state of its port: how many events the port has numbered and
handed over, and the cursors of the deliveries that wait in the event handler. -/
structure SessionOwner where
  accepting : Bool
  latestCursor : Nat
  hasHandler : Bool
  attachments : List String
  published : Nat
  delivered : Nat
  suspended : List Nat

/-- What the event handler does with one event. -/
inductive Handling where
  | returns
  | suspends
  | raises
  deriving DecidableEq

structure Member where
  memberId : String
  sessionId : String

/-- `_MuxOwner`. -/
structure MuxOwner where
  revision : Nat
  members : List Member
  attachments : List String
  nextGeneration : Nat
  closed : Bool

/-- How far `attach_mux` is with the snapshot of one member: not asked for, asked for when the
port had numbered `published` events, or answered. -/
inductive Progress where
  | unasked
  | asked (published : Nat)
  | answered (cursor : Nat)
  deriving DecidableEq

def Progress.cursor? : Progress → Option Nat
  | .answered cursor => some cursor
  | _ => none

/-- An `attach_mux` call after its registration. A failed one has an exception on its way
to the cleanup. -/
structure AttachCall where
  mux : String
  revision : Nat
  members : List Member
  progress : String → Progress
  failed : Bool

/-- The snapshots of a call, once all of them are in. -/
def AttachCall.snapshots? (call : AttachCall) : Option (List (String × Nat)) :=
  call.members.mapM fun member => (call.progress member.sessionId).cursor?.map (member.sessionId, ·)

/-- The attachments, sessions and muxes of an `AppServiceV1`, by id, with the keys of its
`_attachments` table and its `attach_mux` calls. -/
structure Service where
  sessions : String → SessionOwner
  muxes : String → MuxOwner
  attachments : String → Option Attachment
  registered : List String
  calls : String → Option AttachCall

inductive Answer where
  | done
  | ignored
  | attached (id : String) (snapshots : List (String × Nat))
  | events (id : String) (items : List AttachmentEvent)
  | raised (code : AppErrorCode)

namespace Service

def setSession (w : Service) (session : String) (owner : SessionOwner) : Service :=
  { w with sessions := Function.update w.sessions session owner }

def setMux (w : Service) (mux : String) (owner : MuxOwner) : Service :=
  { w with muxes := Function.update w.muxes mux owner }

def setCall (w : Service) (id : String) (call : Option AttachCall) : Service :=
  { w with calls := Function.update w.calls id call }

def setAttachment (w : Service) (id : String) (a : Attachment) : Service :=
  { w with attachments := Function.update w.attachments id (some a) }

/-- A loop over the attachments of one session. -/
def mapAttachments (w : Service) (ids : List String) (change : Attachment → Attachment) : Service :=
  { w with attachments := fun id =>
      if id ∈ ids then (w.attachments id).map change else w.attachments id }

def invalidateAttachments (w : Service) (session : String) : Service :=
  w.mapAttachments (w.sessions session).attachments Attachment.invalidate

def fanOut (w : Service) (session : String) (event : SessionEvent) : Service :=
  w.mapAttachments (w.sessions session).attachments (·.push event)

/-- The rest of `_on_event` after its handler. -/
def afterHandler (w : Service) (session : String) (event : SessionEvent) : Service :=
  if event.cursor < (w.sessions session).latestCursor then w else w.fanOut session event

/-- `_on_event`, up to its first suspension. -/
def onEvent (w : Service) (session : String) (event : SessionEvent) (handling : Handling) : Service :=
  let owner := w.sessions session
  if !owner.accepting then w
  else if event.sessionId ≠ session then w.invalidateAttachments session
  else if event.cursor ≤ owner.latestCursor then w
  else
    let checked :=
      if owner.latestCursor ≠ 0 ∧ event.cursor ≠ owner.latestCursor + 1 then
        w.invalidateAttachments session
      else w
    let raisedCursor := checked.setSession session { owner with latestCursor := event.cursor }
    if owner.hasHandler then
      match handling with
      | .returns => raisedCursor.afterHandler session event
      | .suspends => raisedCursor.setSession session
          { owner with latestCursor := event.cursor, suspended := owner.suspended ++ [event.cursor] }
      | .raises => raisedCursor
    else raisedCursor.fanOut session event

/-- The port hands over its next event. -/
def deliver (w : Service) (session : String) (handling : Handling) : Answer × Service :=
  let owner := w.sessions session
  if owner.delivered < owner.published then
    (.done, (w.setSession session { owner with delivered := owner.delivered + 1 }).onEvent session
      ⟨session, owner.delivered + 1⟩ handling)
  else (.ignored, w)

/-- A suspended handler comes back, or raises. -/
def resume (w : Service) (session : String) (cursor : Nat) (raised : Bool) : Answer × Service :=
  let owner := w.sessions session
  if cursor ∈ owner.suspended then
    let woken := w.setSession session { owner with suspended := owner.suspended.erase cursor }
    (.done, if raised then woken else woken.afterHandler session ⟨session, cursor⟩)
  else (.ignored, w)

/-- The end of `_SessionOwner.snapshot`. -/
def raiseLatest (w : Service) (session : String) (cursor : Nat) : Service :=
  let owner := w.sessions session
  w.setSession session { owner with latestCursor := max owner.latestCursor cursor }

/-- `add_attachment` on an accepting session. -/
def addAttachment (w : Service) (id : String) (a : Attachment) (member : Member) : Service :=
  let owner := w.sessions member.sessionId
  let ids := if id ∈ owner.attachments then owner.attachments else owner.attachments ++ [id]
  (w.setSession member.sessionId { owner with attachments := ids }).setAttachment id
    (a.bindMember member.sessionId member.memberId)

/-- The registration loop of `attach_mux`; it stops at the first closed session. -/
def addAttachments (id : String) : List Member → Attachment → Service → Option AppErrorCode × Service
  | [], _, w => (none, w)
  | member :: rest, a, w =>
    if !(w.sessions member.sessionId).accepting then (some .sessionUnavailable, w)
    else addAttachments id rest (a.bindMember member.sessionId member.memberId)
      (w.addAttachment id a member)

/-- `attach_mux` up to its first snapshot. -/
def attach (w : Service) (id muxId : String) (capacity : Nat) : Answer × Service :=
  if (w.attachments id).isSome then (.ignored, w)
  else
    let mux := w.muxes muxId
    if mux.closed then (.raised .notFound, w)
    else
      let generation := mux.nextGeneration + 1
      let a : Attachment := ⟨id, muxId, generation, capacity, [], Dict.empty, none, false, false⟩
      let listed := (w.setMux muxId { mux with
        nextGeneration := generation, attachments := mux.attachments ++ [id] }).setAttachment id a
      let added := addAttachments id mux.members a { listed with registered := w.registered ++ [id] }
      let call : AttachCall := ⟨muxId, mux.revision, mux.members, fun _ => .unasked, added.1.isSome⟩
      (added.1.elim .done .raised, added.2.setCall id (some call))

def fail (w : Service) (id : String) (call : AttachCall) (code : AppErrorCode) : Answer × Service :=
  (.raised code, w.setCall id (some { call with failed := true }))

/-- One member's task of the `gather` calls `_SessionOwner.snapshot`. -/
def askMember (w : Service) (id session : String) : Answer × Service :=
  match w.calls id with
  | none => (.ignored, w)
  | some call =>
    if call.failed ∨ session ∉ call.members.map Member.sessionId ∨ call.progress session ≠ .unasked then
      (.ignored, w)
    else if !(w.sessions session).accepting then w.fail id call .sessionUnavailable
    else (.done, w.setCall id (some { call with
      progress := Function.update call.progress session (.asked (w.sessions session).published) }))

/-- The port answers it, or fails. -/
def answerMember (w : Service) (id session : String) (cursor : Option Nat) : Answer × Service :=
  match w.calls id with
  | none => (.ignored, w)
  | some call =>
    match call.progress session, cursor with
    | .asked _, none => w.fail id call .sessionUnavailable
    | .asked published, some cursor =>
      if published ≤ cursor ∧ cursor ≤ (w.sessions session).published then
        (.done, (w.raiseLatest session cursor).setCall id (some { call with
          progress := Function.update call.progress session (.answered cursor) }))
      else (.ignored, w)
    | _, _ => (.ignored, w)

/-- The end of `attach_mux`, under the mux's lock. -/
def finishAttach (w : Service) (id : String) : Answer × Service :=
  match w.calls id with
  | none => (.ignored, w)
  | some call =>
    if call.failed then (.ignored, w)
    else
      match call.snapshots?, w.attachments id with
      | some snapshots, some a =>
        let mux := w.muxes call.mux
        if mux.closed ∨ mux.revision ≠ call.revision ∨ id ∉ mux.attachments then
          w.fail id call .revisionConflict
        else
          match a.activate snapshots with
          | (.error code, a) => (w.setAttachment id a).fail id call code
          | (.ok _, a) => (.attached id snapshots, (w.setAttachment id a).setCall id none)
      | _, _ => (.ignored, w)

/-- `_settle_attachments`. -/
def settleAttachments (w : Service) (ids : List String) (members : List Member) : Service :=
  { w with
    sessions := fun session =>
      if session ∈ members.map Member.sessionId then
        { w.sessions session with
          attachments := (w.sessions session).attachments.filter fun id => id ∉ ids }
      else w.sessions session
    attachments := (w.mapAttachments ids Attachment.settle).attachments }

/-- `_attachments` and the mux's own table forget an attachment. -/
def forget (w : Service) (muxId id : String) : Service :=
  let mux := w.muxes muxId
  { w.setMux muxId { mux with attachments := mux.attachments.filter fun other => other ≠ id } with
    registered := w.registered.filter fun other => other ≠ id }

/-- `_discard_attachment`, after `attach_mux` was cancelled or raised. -/
def discardAttach (w : Service) (id : String) : Answer × Service :=
  match w.calls id with
  | none => (.ignored, w)
  | some call =>
    (.done, ((w.forget call.mux id).settleAttachments [id] call.members).setCall id none)

def detach (w : Service) (id : String) (generation : Nat) : Answer × Service :=
  match w.attachments id with
  | none => (.raised .staleAttachment, w)
  | some a =>
    if id ∉ w.registered ∨ a.controllerGeneration ≠ generation then (.raised .staleAttachment, w)
    else
      (.done, (w.forget a.muxSpaceId id).settleAttachments [id] (w.muxes a.muxSpaceId).members)

/-- `read_events`, with `_resolve_attachment`. -/
def read (w : Service) (id : String) (generation limit : Nat) : Answer × Service :=
  if limit < 1 ∨ 1024 < limit then (.raised .invalidRequest, w)
  else
    match w.attachments id with
    | none => (.raised .staleAttachment, w)
    | some a =>
      if id ∉ w.registered then (.raised .staleAttachment, w)
      else if a.controllerGeneration ≠ generation ∨ !a.active then
        (.raised (if a.lagged && !a.settled then .attachmentLagged else .staleAttachment), w)
      else
        match a.read limit with
        | (.error code, a) => (.raised code, w.setAttachment id a)
        | (.ok items, a) => (.events id items, w.setAttachment id a)

/-- `_SessionOwner.close`; the flags `_accepting` and `_unsubscribed` change together. -/
def closeSession (w : Service) (session : String) : Service :=
  let owner := w.sessions session
  if owner.accepting then
    (w.invalidateAttachments session).setSession session
      { owner with accepting := false, attachments := [] }
  else w

/-- What `open_member`, `close_member` and `close_mux` do to a mux once their commit is
through: new members, and no attachment survives. -/
def changeMembers (w : Service) (muxId : String) (members : List Member) (closed : Bool) : Service :=
  let mux := w.muxes muxId
  if mux.closed then w
  else
    let emptied := w.setMux muxId { mux with
      members := members, closed := closed, revision := mux.revision + 1, attachments := [] }
    { emptied with registered := w.registered.filter fun id => id ∉ mux.attachments }.settleAttachments
      mux.attachments (mux.members ++ members)

end Service

/-- One step of the service or of a port. `snapshot` is any snapshot that is not one of an
attach that may still succeed. -/
inductive Input where
  | publish (session : String)
  | deliver (session : String) (handling : Handling)
  | foreign (session : String) (event : SessionEvent)
  | resume (session : String) (cursor : Nat) (raised : Bool)
  | snapshot (session : String) (cursor : Nat)
  | attach (id mux : String) (capacity : Nat)
  | askMember (id session : String)
  | answerMember (id session : String) (cursor : Option Nat)
  | finishAttach (id : String)
  | discardAttach (id : String)
  | detach (id : String) (generation : Nat)
  | read (id : String) (generation limit : Nat)
  | closeSession (session : String)
  | changeMembers (mux : String) (members : List Member) (closed : Bool)

def Service.step (w : Service) : Input → Answer × Service
  | .publish session =>
    let owner := w.sessions session
    (.done, w.setSession session { owner with published := owner.published + 1 })
  | .deliver session handling => w.deliver session handling
  | .foreign session event =>
    if event.sessionId = session then (.ignored, w)
    else (.done, w.onEvent session event .returns)
  | .resume session cursor raised => w.resume session cursor raised
  | .snapshot session cursor =>
    if cursor ≤ (w.sessions session).published then (.done, w.raiseLatest session cursor)
    else (.ignored, w)
  | .attach id mux capacity => w.attach id mux capacity
  | .askMember id session => w.askMember id session
  | .answerMember id session cursor => w.answerMember id session cursor
  | .finishAttach id => w.finishAttach id
  | .discardAttach id => w.discardAttach id
  | .detach id generation => w.detach id generation
  | .read id generation limit => w.read id generation limit
  | .closeSession session => (.done, w.closeSession session)
  | .changeMembers mux members closed => (.done, w.changeMembers mux members closed)

/-- The service with what its clients have been given: the snapshot cursors each `attach_mux`
returned, and the events of all reads of an attachment, in order. -/
structure Feed where
  service : Service
  attached : String → Option (Dict String Nat)
  seen : String → List AttachmentEvent

namespace Feed

def observe (f : Feed) : Answer → Feed
  | .attached id snapshots =>
    { f with attached := Function.update f.attached id (some (Dict.empty.update snapshots)) }
  | .events id items => { f with seen := Function.update f.seen id (f.seen id ++ items) }
  | _ => f

/-- Only an attachment that was returned can be read. -/
def knows (f : Feed) : Input → Bool
  | .read id _ _ => (f.attached id).isSome
  | _ => true

def step (f : Feed) (input : Input) : Answer × Feed :=
  if f.knows input then
    let out := f.service.step input
    (out.1, { f with service := out.2 }.observe out.1)
  else (.ignored, f)

/-- Members whose session's port has handed over nothing yet, with or without an event handler. -/
def start (hasHandler : String → Bool) (muxes : String → List Member) : Feed where
  service :=
    { sessions := fun session => ⟨true, 0, hasHandler session, [], 0, 0, []⟩
      muxes := fun mux => ⟨1, muxes mux, [], 0, false⟩
      attachments := fun _ => none
      registered := []
      calls := fun _ => none }
  attached := fun _ => none
  seen := fun _ => []

end Feed

def feed : Machine Feed Input Answer := ⟨Feed.step⟩

end Loushang.AppService.Attachments
