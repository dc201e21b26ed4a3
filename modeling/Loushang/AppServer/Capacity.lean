import Mathlib.Algebra.GroupWithZero.Nat
import Mathlib.Data.List.Basic
import Loushang.Lib.Run

/-!
# Requests of an application connection

The operations a connection carries, their lanes and their request ids: `protocol/model.py`,
`protocol/stdio_profile.py`, and the classifications of `connection.py`, `remote_client.py` and
`execution/remote.py`. A call's payload is left out: neither peer's bookkeeping reads it.
-/
namespace Loushang.AppServer

inductive AppOperation where
  | muxCreate
  | muxList
  | muxRead
  | muxAttach
  | muxDetach
  | muxClose
  | memberOpen
  | memberClose
  | sessionSnapshot
  | sessionModels
  | sessionModelSelect
  | turnStart
  | turnSteer
  | turnFollowUp
  | turnInterrupt
  | interactionRespond
  | attachmentReadEvents
  | sessionsList
  deriving DecidableEq

def AppOperation.value : AppOperation → String
  | .muxCreate => "mux/create"
  | .muxList => "mux/list"
  | .muxRead => "mux/read"
  | .muxAttach => "mux/attach"
  | .muxDetach => "mux/detach"
  | .muxClose => "mux/close"
  | .memberOpen => "mux/member/open"
  | .memberClose => "mux/member/close"
  | .sessionSnapshot => "session/snapshot"
  | .sessionModels => "session/models"
  | .sessionModelSelect => "session/model/select"
  | .turnStart => "turn/start"
  | .turnSteer => "turn/steer"
  | .turnFollowUp => "turn/follow_up"
  | .turnInterrupt => "turn/interrupt"
  | .interactionRespond => "interaction/respond"
  | .attachmentReadEvents => "attachment/read_events"
  | .sessionsList => "sessions/list"

inductive ExecutionOperation where
  | submit
  | get
  | find
  | interrupt
  | snapshot
  | events
  | resumeInputLookup
  deriving DecidableEq

def ExecutionOperation.value : ExecutionOperation → String
  | .submit => "execution/submit"
  | .get => "execution/get"
  | .find => "execution/find_submission"
  | .interrupt => "execution/interrupt"
  | .snapshot => "execution/snapshot"
  | .events => "execution/read_events"
  | .resumeInputLookup => "session/lookup_resume_input"

/-- `AppRequestV1`, `ExecutionCallV1`, `ManagedMuxCallV1` and `ManagedMuxCloseCallV1`. -/
inductive Call where
  | app (operation : AppOperation)
  | execution (operation : ExecutionOperation)
  | managedMux
  | managedMuxClose (readResult : Bool)

/-- `_Family`: the wire a call and its response use. -/
inductive Family where
  | app
  | execution
  | managedMux
  | managedMuxClose
  deriving DecidableEq

def Call.family : Call → Family
  | .app _ => .app
  | .execution _ => .execution
  | .managedMux => .managedMux
  | .managedMuxClose _ => .managedMuxClose

/-- `request.operation`; the enumerations are of `str`, so members compare by value. -/
def Call.operation : Call → String
  | .app operation => operation.value
  | .execution operation => operation.value
  | .managedMux => AppOperation.muxCreate.value
  | .managedMuxClose readResult =>
    if readResult then AppOperation.muxRead.value else AppOperation.muxClose.value

inductive Lane where
  | ordinary
  | control
  deriving DecidableEq

/-- `MAX_ORDINARY_REQUESTS` and `MAX_CONTROL_REQUESTS`. -/
def Lane.maximum : Lane → Nat
  | .ordinary => 16
  | .control => 4

def Lane.ofControl (control : Bool) : Lane := if control then .control else .ordinary

/-- `CONTROL_OPERATIONS`. -/
def controlOperations : List AppOperation :=
  [.turnInterrupt, .interactionRespond, .muxDetach, .attachmentReadEvents]

/-- The lane the client submits a call in. -/
def clientLane : Call → Lane
  | .app operation => .ofControl (controlOperations.contains operation)
  | .execution .resumeInputLookup => .control
  | .execution operation => .ofControl ([.get, .find, .interrupt].contains operation)
  | .managedMux => .ordinary
  | .managedMuxClose readResult => .ofControl readResult

/-- The lane the server counts a request in. -/
def serverLane (request : Call) : Lane :=
  .ofControl
    ((controlOperations.map AppOperation.value).contains request.operation ||
      ([ExecutionOperation.interrupt, .get, .find, .resumeInputLookup].map
        ExecutionOperation.value).contains request.operation ||
      match request with
      | .managedMuxClose readResult => readResult
      | _ => false)

/-- Both peers count a call in the same lane. -/
theorem serverLane_eq (call : Call) : serverLane call = clientLane call := by
  cases call with
  | app operation => cases operation <;> decide
  | execution operation => cases operation <;> decide
  | managedMux => decide
  | managedMuxClose readResult => cases readResult <;> decide

/-- The largest request number, `(1 << 63) - 1`. -/
def maxRequestNumber : Nat := 2 ^ 63 - 1

/-- `connection_request_number`: none where it raises `InvalidAppMessageError`. -/
def connectionRequestNumber (requestId : String) : Option Nat :=
  let digits := requestId.toList
  if digits = [] ∨ digits.all Char.isDigit = false ∨ digits.head? = some '0' ∨ 19 < digits.length then
    none
  else
    let value := Nat.ofDigitChars 10 digits 0
    if maxRequestNumber < value then none else some value

/-- `str(number)`. -/
def requestIdOf (number : Nat) : String := number.repr

theorem head?_toDigits {number : Nat} (positive : 0 < number) :
    (Nat.toDigits 10 number).head? ≠ some '0' := by
  induction number using Nat.strongRecOn with
  | ind number ih =>
    by_cases small : number < 10
    · rw [Nat.toDigits_of_lt_base small]
      have nonzero : ∀ n < 10, 0 < n → [n.digitChar].head? ≠ some '0' := by decide
      exact nonzero number small positive
    · rw [Nat.toDigits_of_base_le (by decide) (by omega), List.head?_append]
      have shorter := ih (number / 10) (by omega) (by omega)
      cases front : (Nat.toDigits 10 (number / 10)).head? with
      | none => exact absurd (List.head?_eq_none_iff.mp front) Nat.toDigits_ne_nil
      | some digit =>
        rw [front] at shorter
        exact shorter

/-- The server reads back the number the client wrote. -/
theorem connectionRequestNumber_requestIdOf {number : Nat} (positive : 0 < number)
    (bounded : number ≤ maxRequestNumber) :
    connectionRequestNumber (requestIdOf number) = some number := by
  have digits : (requestIdOf number).toList = Nat.toDigits 10 number := Nat.toList_repr
  have isDigits : (Nat.toDigits 10 number).all Char.isDigit = true := by
    rw [List.all_eq_true]
    intro c member
    exact Nat.isDigit_of_mem_toDigits (by decide) (by decide) member
  have short : (Nat.toDigits 10 number).length ≤ 19 := by
    rw [Nat.length_toDigits_le_iff (by decide) (by decide)]
    unfold maxRequestNumber at bounded
    omega
  unfold connectionRequestNumber
  rw [digits, if_neg, Nat.ofDigitChars_ten_toDigits, if_neg (Nat.not_lt.mpr bounded)]
  rintro (empty | letters | zero | long)
  · exact Nat.toDigits_ne_nil empty
  · rw [isDigits] at letters
    cases letters
  · exact head?_toDigits positive zero
  · exact absurd long (Nat.not_lt.mpr short)

theorem requestIdOf_injective : Function.Injective requestIdOf := by
  intro one other same
  have digits : Nat.toDigits 10 one = Nat.toDigits 10 other := by
    rw [← Nat.toList_repr, ← Nat.toList_repr]
    exact congrArg String.toList same
  rw [← @Nat.ofDigitChars_ten_toDigits one, digits, Nat.ofDigitChars_ten_toDigits]

/-!
## One client and one server connection

`RemoteAppClientV1` (`_send_encoded`, `_receive_responses`, `_fail_pending`, `close`) and
`AppServerConnectionV1` (`_receive_requests`, `_execute`) after the hello, as two processes
joined by two FIFO channels. An event is what runs between two suspension points; a message
is on its channel before the `send` that put it there returns. What the services behind the
server answer is part of an event: a failure, or a result of the operation's own type.
Payloads, deadlines and the bytes of a message are not modelled.
-/

open Loushang.Lib

variable {R : Type}

/-- `response.result`: a failure's code, or a result. -/
inductive Outcome (R : Type) where
  | failure (code : String)
  | result (value : R)

/-- Whether the client takes an outcome as an answer to a call; `fits` stands for the types and
the intents it compares. -/
def Outcome.accepted (fits : Call → R → Bool) (call : Call) : Outcome R → Bool
  | .failure _ => true
  | .result value => fits call value

structure Response (R : Type) where
  requestId : String
  family : Family
  outcome : Outcome R

/-- How a pending future was completed. -/
inductive Resolution (R : Type) where
  | answered (outcome : Outcome R)
  | connectionClosed

/-- `_counts`. -/
structure Counts where
  ordinary : Int
  control : Int

namespace Counts

def get (counts : Counts) : Lane → Int
  | .ordinary => counts.ordinary
  | .control => counts.control

def add (counts : Counts) (lane : Lane) (amount : Int) : Counts :=
  match lane with
  | .ordinary => { counts with ordinary := counts.ordinary + amount }
  | .control => { counts with control := counts.control + amount }

theorem get_add (counts : Counts) (lane other : Lane) (amount : Int) :
    (counts.add lane amount).get other = counts.get other + if lane = other then amount else 0 := by
  cases lane <;> cases other <;> simp [add, get]

end Counts

/-- The holder of the send lock, from the registration of its call until its `send` returns. -/
structure Sending where
  requestId : String
  call : Call
  delivered : Bool

structure Client (R : Type) where
  closed : Bool
  counts : Counts
  /-- Callers that took a slot and wait for the send lock. -/
  queued : List Call
  sending : Option Sending
  nextId : Nat
  pending : List (String × Call)
  /-- Every future completed so far. -/
  resolved : List (String × Resolution R)
  /-- A response had no pending request, or not one that takes it. -/
  misdelivered : Bool

/-- Whose bytes the server's stream writes: a task's response or the receive loop's refusal. -/
inductive Writer where
  | task (requestId : String) (call : Call)
  | refusal (requestId : String)

structure Server (R : Type) where
  stopped : Bool
  lastId : Nat
  counts : Counts
  /-- Tasks whose service call has not returned. -/
  executing : List (String × Call)
  /-- Tasks whose response waits for the stream. -/
  answered : List ((String × Call) × Outcome R)
  writer : Option Writer
  /-- The receive loop sends a refusal before it receives again. -/
  refusing : Option (String × Call)
  /-- Every outcome a service call had. -/
  completed : List (String × Outcome R)
  /-- Every request answered with an error because its lane was full. -/
  refused : List String
  /-- A request's id was not a number above the last one. -/
  rejected : Bool

structure State (R : Type) where
  client : Client R
  requests : List (String × Call)
  responses : List (Response R)
  server : Server R

/-- After the hello. -/
def State.start : State R where
  client := ⟨false, ⟨0, 0⟩, [], none, 0, [], [], false⟩
  requests := []
  responses := []
  server := ⟨false, 0, ⟨0, 0⟩, [], [], none, none, [], [], false⟩

/-- `_fail_pending`. -/
def Client.failPending (c : Client R) : Client R :=
  { c with
    closed := true
    counts := c.pending.foldl (fun counts entry => counts.add (clientLane entry.2) (-1)) c.counts
    pending := []
    resolved := c.resolved ++ c.pending.map fun entry => (entry.1, .connectionClosed) }

/-- A caller enters `_send_encoded`; where it raises nothing changes. -/
def Client.submit (call : Call) (c : Client R) : Client R :=
  if c.closed then c
  else if ((clientLane call).maximum : Int) ≤ c.counts.get (clientLane call) then c
  else { c with counts := c.counts.add (clientLane call) 1, queued := c.queued ++ [call] }

/-- A caller is cancelled, or its deadline passes, before it gets the send lock. -/
def Client.abandon (i : Nat) (c : Client R) : Option (Client R) :=
  match c.queued[i]? with
  | none => none
  | some call =>
    some { c with counts := c.counts.add (clientLane call) (-1), queued := c.queued.eraseIdx i }

/-- The first caller in line gets the send lock; `encodes` is whether its call encodes. -/
def Client.register (encodes : Bool) (c : Client R) : Option (Client R) :=
  match c.sending, c.queued with
  | none, call :: rest =>
    let unregistered := { c with counts := c.counts.add (clientLane call) (-1), queued := rest }
    if c.closed then some unregistered
    else if maxRequestNumber < c.nextId + 1 ∨ encodes = false then
      some { unregistered with nextId := c.nextId + 1 }
    else
      let requestId := requestIdOf (c.nextId + 1)
      some { c with
        queued := rest
        nextId := c.nextId + 1
        pending := c.pending ++ [(requestId, call)]
        sending := some ⟨requestId, call, false⟩ }
  | _, _ => none

/-- The holder of the send lock puts its request on the channel. -/
def State.deliver (s : State R) : Option (State R) :=
  match s.client.sending with
  | some ⟨requestId, call, false⟩ =>
    some { s with
      client := { s.client with sending := some ⟨requestId, call, true⟩ }
      requests := s.requests ++ [(requestId, call)] }
  | _ => none

/-- Its `send` returns. -/
def Client.sent (c : Client R) : Option (Client R) :=
  match c.sending with
  | some ⟨_, _, true⟩ => some { c with sending := none }
  | _ => none

/-- Its `send` raises, before or after the request is on the channel. -/
def Client.sendFailed (c : Client R) : Option (Client R) :=
  match c.sending with
  | some _ => some { c.failPending with sending := none }
  | none => none

/-- `_receive_responses`, for one response. -/
def Client.receive (fits : Call → R → Bool) (response : Response R) (c : Client R) : Client R :=
  match c.pending.find? fun entry => entry.1 = response.requestId with
  | none => { c.failPending with misdelivered := true }
  | some (_, call) =>
    if call.family ≠ response.family ∨ response.outcome.accepted fits call = false then
      { c.failPending with misdelivered := true }
    else
      { c with
        pending := c.pending.filter fun entry => entry.1 ≠ response.requestId
        counts := c.counts.add (clientLane call) (-1)
        resolved := c.resolved ++ [(response.requestId, .answered response.outcome)] }

def State.receiveResponse (fits : Call → R → Bool) (s : State R) : Option (State R) :=
  match s.client.closed, s.responses with
  | false, response :: rest =>
    some { s with client := s.client.receive fits response, responses := rest }
  | _, _ => none

/-- One turn of `_receive_requests`, for a request. -/
def Server.receive (requestId : String) (request : Call) (server : Server R) : Server R :=
  match connectionRequestNumber requestId with
  | none => { server with rejected := true, stopped := true }
  | some number =>
    if number ≤ server.lastId then { server with rejected := true, stopped := true }
    else if ((serverLane request).maximum : Int) ≤ server.counts.get (serverLane request) then
      { server with
        lastId := number
        refusing := some (requestId, request)
        refused := server.refused ++ [requestId] }
    else
      { server with
        lastId := number
        counts := server.counts.add (serverLane request) 1
        executing := server.executing ++ [(requestId, request)] }

/-- The receive loop is suspended while it sends a refusal. -/
def Server.receiving (server : Server R) : Bool :=
  !server.stopped && server.refusing.isNone &&
    match server.writer with
    | some (.refusal _) => false
    | _ => true

def State.receiveRequest (s : State R) : Option (State R) :=
  match s.server.receiving, s.requests with
  | true, (requestId, request) :: rest =>
    some { s with server := s.server.receive requestId request, requests := rest }
  | _, _ => none

/-- A service call returns or raises. -/
def Server.complete (fits : Call → R → Bool) (i : Nat) (outcome : Outcome R) (server : Server R) :
    Option (Server R) :=
  match server.executing[i]? with
  | none => none
  | some (requestId, call) =>
    if server.stopped || !outcome.accepted fits call then none
    else
      some { server with
        executing := server.executing.eraseIdx i
        answered := server.answered ++ [((requestId, call), outcome)]
        completed := server.completed ++ [(requestId, outcome)] }

/-- A task gets the stream and puts its response on the channel. -/
def State.write (i : Nat) (s : State R) : Option (State R) :=
  match s.server.stopped, s.server.writer, s.server.answered[i]? with
  | false, none, some ((requestId, call), outcome) =>
    some { s with
      responses := s.responses ++ [⟨requestId, call.family, outcome⟩]
      server := { s.server with
        answered := s.server.answered.eraseIdx i
        writer := some (.task requestId call) } }
  | _, _, _ => none

/-- The receive loop gets the stream and puts its refusal on the channel. -/
def State.writeRefusal (s : State R) : Option (State R) :=
  match s.server.stopped, s.server.writer, s.server.refusing with
  | false, none, some (requestId, call) =>
    some { s with
      responses := s.responses ++ [⟨requestId, call.family, .failure "operation_unavailable"⟩]
      server := { s.server with refusing := none, writer := some (.refusal requestId) } }
  | _, _, _ => none

/-- The server's `send` returns; a task frees its slot, the receive loop goes on. -/
def Server.returned (server : Server R) : Option (Server R) :=
  match server.writer with
  | some (.task _ call) =>
    some { server with writer := none, counts := server.counts.add (serverLane call) (-1) }
  | some (.refusal _) => some { server with writer := none }
  | none => none

inductive Event (R : Type) where
  | submit (call : Call)
  | abandon (i : Nat)
  | register (encodes : Bool)
  | deliver
  | sent
  | sendFailed
  | receiveResponse
  | close
  | receiveRequest
  | complete (i : Nat) (outcome : Outcome R)
  | write (i : Nat)
  | writeRefusal
  | returned
  | stop

/-- None where the event cannot happen. -/
def State.step (fits : Call → R → Bool) (s : State R) : Event R → Option (State R)
  | .submit call => some { s with client := s.client.submit call }
  | .abandon i => (s.client.abandon i).map fun client => { s with client := client }
  | .register encodes => (s.client.register encodes).map fun client => { s with client := client }
  | .deliver => s.deliver
  | .sent => s.client.sent.map fun client => { s with client := client }
  | .sendFailed => s.client.sendFailed.map fun client => { s with client := client }
  | .receiveResponse => s.receiveResponse fits
  | .close => some { s with client := s.client.failPending }
  | .receiveRequest => s.receiveRequest
  | .complete i outcome =>
    (s.server.complete fits i outcome).map fun server => { s with server := server }
  | .write i => s.write i
  | .writeRefusal => s.writeRefusal
  | .returned => s.server.returned.map fun server => { s with server := server }
  | .stop => some { s with server := { s.server with stopped := true } }

/-- Any order of events; one that cannot happen changes nothing and answers no. -/
def connection (fits : Call → R → Bool) : Machine (State R) (Event R) Bool where
  step s event := ((s.step fits event).isSome, (s.step fits event).getD s)

end Loushang.AppServer
