import Loushang.Lib.Dict
import Loushang.Lib.Sha256
import Loushang.Lib.Text

/-!
# Executions

The values of `appserver/execution/model.py` and the records of
`appservice/execution_registry.py`: statuses, states and their updates, observations of the
Product, invocations with the task that drives them, bindings, and the registry. Listeners and the
subscription of a binding are not modelled; what listeners are told is a log of the registry, and so
are the calls of `start_execution`. Clock readings are rationals.
-/
namespace Loushang.AppService
open Loushang.Lib

/-! ## Values -/

inductive ExecutionStatus where
  | accepted
  | running
  | succeeded
  | failed
  | interrupted
  deriving DecidableEq

def ExecutionStatus.terminal : ExecutionStatus → Bool
  | .succeeded | .failed | .interrupted => true
  | .accepted | .running => false

/-- `AppErrorCodeV1`. -/
inductive AppErrorCode where
  | invalidRequest
  | notFound
  | alreadyExists
  | alreadyAttached
  | productMismatch
  | revisionConflict
  | snapshotRequired
  | staleAttachment
  | attachmentLagged
  | sessionUnavailable
  | operationUnavailable
  | cleanupIncomplete
  | serviceClosed

/-- `ExecutionErrorCodeV1`. -/
inductive ExecutionErrorCode where
  | instanceChanged
  | submissionConflict
  | ledgerFull
  | busy
  | notRetained
  | unsupported

/-- `MAX_TEXT_CHARS`. -/
def maxTextChars : Nat := 262144

def isIdentifierHead (point : CodePoint) : Bool :=
  (48 ≤ point.val && point.val ≤ 57) || (65 ≤ point.val && point.val ≤ 90) ||
    (97 ≤ point.val && point.val ≤ 122)

def isIdentifierChar (point : CodePoint) : Bool :=
  isIdentifierHead point || point.val = 0x2e || point.val = 0x5f || point.val = 0x7e ||
    point.val = 0x2d

/-- `_identifier`. -/
def isIdentifier (text : PyStr) : Bool :=
  match text.points with
  | [] => false
  | point :: rest => isIdentifierHead point && rest.length ≤ 127 && rest.all isIdentifierChar

/-- `ExecutionRequestV1` takes the text: neither too long nor blank. -/
def isTurnText (text : PyStr) : Bool := text.points.length ≤ maxTextChars && !text.isBlank

inductive SessionScope where
  | cwd
  | userHome

structure SessionIdentity where
  productId : PyStr
  continuityId : PyStr
  sessionId : PyStr
  scope : SessionScope
  scopeFingerprint : PyStr

abbrev SessionKey := PyStr × PyStr × PyStr

/-- `_canonical`. -/
def canonical (identity : SessionIdentity) : SessionKey :=
  (identity.productId, identity.continuityId, identity.sessionId)

/-- `ExecutionOutcomeV1`; the legacy result is an acknowledgement or a failure's code. -/
structure ExecutionOutcome where
  status : ExecutionStatus
  errorCode : Option PyStr
  legacyFailure : Option AppErrorCode
  terminal : status.terminal = true
  coded : status = .failed ↔ errorCode.isSome = true

def ExecutionOutcome.interrupted : ExecutionOutcome := ⟨.interrupted, none, none, rfl, by simp⟩

/-- The outcome where `start_execution` raises. -/
def ExecutionOutcome.startFailed : ExecutionOutcome :=
  ⟨.failed, some (PyStr.ofString "execution_start_failed"), some .operationUnavailable, rfl, by simp⟩

/-- `ExecutionObservationV1`. -/
inductive ExecutionObservation where
  | idle
  | running (executionId : PyStr)
  | ended (executionId : PyStr) (outcome : ExecutionStatus) (finalCursor : Nat)

def ExecutionObservation.executionId? : ExecutionObservation → Option PyStr
  | .idle => none
  | .running executionId => some executionId
  | .ended executionId _ _ => some executionId

/-- The status of a finished execution, none before. -/
def ExecutionObservation.ended? : ExecutionObservation → Option ExecutionStatus
  | .ended _ outcome _ => some outcome
  | _ => none

/-- `ExecutionStateV1`: an outcome exactly where the status is terminal, and of that status. -/
structure ExecutionState where
  executionId : PyStr
  status : ExecutionStatus
  revision : Nat
  interruptRequested : Bool := false
  outcome : Option ExecutionOutcome := none
  settled : outcome.map ExecutionOutcome.status = if status.terminal then some status else none

namespace ExecutionState

def accepted (executionId : PyStr) : ExecutionState :=
  { executionId, status := .accepted, revision := 1, settled := rfl }

/-- The state an entry of the Product leads to. -/
def entered (state : ExecutionState) : ExecutionState :=
  { executionId := state.executionId
    status := .running
    revision := state.revision + 1
    interruptRequested := state.interruptRequested
    settled := rfl }

def requested (state : ExecutionState) : ExecutionState :=
  { state with
    revision := state.revision + 1
    interruptRequested := true }

def finished (state : ExecutionState) (outcome : ExecutionOutcome) : ExecutionState :=
  { executionId := state.executionId
    status := outcome.status
    revision := state.revision + 1
    interruptRequested := state.interruptRequested
    outcome := some outcome
    settled := by rw [outcome.terminal]; rfl }

def live (state : ExecutionState) : Bool := !state.status.terminal

end ExecutionState

/-- `ExecutionRecordV1`. -/
structure ExecutionRecord where
  serviceInstanceId : PyStr
  identity : SessionIdentity
  submissionId : Option PyStr
  state : ExecutionState

def ExecutionRecord.key (record : ExecutionRecord) : SessionKey := canonical record.identity

/-! ## The registry -/

/-- `ExecutionLimitsV1`. -/
structure ExecutionLimits where
  active : Nat := 32
  submissions : Nat := 1024
  ledgerBytes : Nat := 8388608
  recentLegacy : Nat := 128
  legacyRetentionSeconds : Rat := 300
  valid : (1 ≤ active ∧ active ≤ 64) ∧ (1 ≤ submissions ∧ submissions ≤ 65536) ∧
    (1 ≤ ledgerBytes ∧ ledgerBytes ≤ 536870912) ∧ (1 ≤ recentLegacy ∧ recentLegacy ≤ 1024) ∧
    (0 < legacyRetentionSeconds ∧ legacyRetentionSeconds ≤ 3600)

/-- `RECORD_RESERVATION_BYTES`. -/
def recordReservationBytes : Nat := 8192

/-- Where the task of an invocation is: before the first step of `_drive` or of `_retry`, in the
Product's `retry_execution_settlement` or `wait_execution`, or done. -/
inductive TaskPoint where
  | drive (text : PyStr)
  | retry
  | settling
  | waiting
  | done
  deriving DecidableEq

/-- `_Invocation`; bindings are referred to by their number. -/
structure Invocation where
  record : ExecutionRecord
  binding : Nat
  task : TaskPoint
  started : Bool := false
  observation : Option ExecutionObservation := none

def Invocation.id (invocation : Invocation) : PyStr := invocation.record.state.executionId

def Invocation.live (invocation : Invocation) : Bool := invocation.record.state.live

/-- `ExecutionBindingViewV1`. -/
structure BindingView where
  identity : SessionIdentity
  revision : Nat := 0
  quiescent : ExecutionObservation := .idle
  active : Option ExecutionState := none
  latestTerminal : Option ExecutionState := none

/-- The view of a binding after an update. -/
def BindingView.updated (view : BindingView) (state : ExecutionState) : BindingView :=
  { view with
    revision := view.revision + 1
    active := if state.status.terminal then none else some state
    latestTerminal := if state.status.terminal then some state else view.latestTerminal }

/-- `ExecutionBindingV1`; invocations are referred to by their number. -/
structure Binding where
  view : BindingView
  active : Option Nat := none
  closing : Bool := false

/-- A call of `start_execution`, with the record it is made for. -/
structure StartCall where
  record : ExecutionRecord
  text : PyStr

/-- `ExecutionRegistryV1`, with the objects it refers to and what it has told others. -/
structure Registry where
  serviceInstanceId : PyStr
  nonce : String
  limits : ExecutionLimits
  ledger : Dict (SessionKey × PyStr) (List Sha256.Word × PyStr) := .empty
  records : Dict PyStr ExecutionRecord := .empty
  active : Dict SessionKey Nat := .empty
  legacy : Dict PyStr Rat := .empty
  sequence : Nat := 0
  closed : Bool := false
  invocations : List Invocation := []
  bindings : List Binding := []
  starts : List StartCall := []
  updates : List ExecutionState := []

inductive Failure where
  | app (code : AppErrorCode)
  | execution (code : ExecutionErrorCode)
  /-- A `ValueError`. -/
  | invalid
  /-- A `KeyError`, and a failed assertion. -/
  | internal
  /-- `create_task` raised. -/
  | task
  /-- The Product raised. -/
  | product

/-- What a call answers. -/
inductive Answer where
  | bound (binding : Nat)
  | record (record : ExecutionRecord)
  | found (record : Option ExecutionRecord)
  | outcome (outcome : ExecutionOutcome)
  /-- The caller waits for the task. -/
  | waits
  | done
  | failed (failure : Failure)

namespace Registry

/-- `f"exec-{self._nonce}-{self._sequence}"`. -/
def executionId (nonce : String) (sequence : Nat) : PyStr :=
  PyStr.ofString ("exec-" ++ nonce ++ "-" ++ sequence.repr)

def reservedLedgerBytes (r : Registry) : Nat := r.ledger.entries.length * recordReservationBytes

def putInvocation (r : Registry) (i : Nat) (invocation : Invocation) : Registry :=
  { r with invocations := r.invocations.set i invocation }

def putBinding (r : Registry) (b : Nat) (binding : Binding) : Registry :=
  { r with bindings := r.bindings.set b binding }

/-- `_publish`. -/
def publish (r : Registry) (i : Nat) (state : ExecutionState) : Registry :=
  match r.invocations[i]? with
  | none => r
  | some invocation =>
    let record := { invocation.record with state }
    { r with
      invocations := r.invocations.set i { invocation with record }
      records := r.records.set state.executionId record
      bindings := r.bindings.modify invocation.binding fun binding =>
        { binding with view := binding.view.updated state }
      updates := r.updates ++ [state] }

/-- The entries that `_expire_legacy` takes off. -/
def expired (recent : Nat) (now : Rat) : List (PyStr × Rat) → List (PyStr × Rat)
  | [] => []
  | entry :: rest =>
    if rest.length + 1 ≤ recent ∧ now < entry.2 then [] else entry :: expired recent now rest

/-- `_expire_legacy`. -/
def expireLegacy (r : Registry) (now : Rat) : Registry :=
  let gone := expired r.limits.recentLegacy now r.legacy.entries
  { r with
    legacy := gone.foldl (fun legacy entry => legacy.pop entry.1) r.legacy
    records := gone.foldl (fun records entry => records.pop entry.1) r.records }

/-- `get`, with what it leaves. -/
def get (r : Registry) (identity : SessionIdentity) (executionId : PyStr) (now : Rat) :
    Except Failure ExecutionRecord × Registry :=
  if !isIdentifier executionId then (.error .invalid, r)
  else
    let r := r.expireLegacy now
    match r.records.get? executionId with
    | none => (.error (.execution .notRetained), r)
    | some record =>
      if canonical record.identity ≠ canonical identity then (.error (.execution .notRetained), r)
      else (.ok record, r)

/-- `find`. -/
def find (r : Registry) (identity : SessionIdentity) (submissionId : PyStr) : Answer :=
  if !isIdentifier submissionId then .failed .invalid
  else
    match r.ledger.get? (canonical identity, submissionId) with
    | none => .found none
    | some prior =>
      match r.records.get? prior.2 with
      | none => .failed .internal
      | some record => .found (some record)

/-- `bind`, of a port with every method. -/
def bind (r : Registry) (identity : SessionIdentity) : Answer × Registry :=
  (.bound r.bindings.length, { r with bindings := r.bindings ++ [Binding.mk { identity } none false] })

/-- `submit` behind its checks, up to where the first state is published. -/
def entry (r : Registry) (b : Nat) (binding : Binding) (text : PyStr) (digest : List Sha256.Word)
    (submissionId : Option PyStr) : Registry :=
  let identity := binding.view.identity
  let id := executionId r.nonce r.sequence
  let record : ExecutionRecord := ⟨r.serviceInstanceId, identity, submissionId, .accepted id⟩
  { r with
    invocations := r.invocations ++ [Invocation.mk record b (.drive text) false none]
    records := r.records.set id record
    active := r.active.set (canonical identity) r.invocations.length
    bindings := r.bindings.set b { binding with active := some r.invocations.length }
    ledger :=
      match submissionId with
      | none => r.ledger
      | some submissionId => r.ledger.set (canonical identity, submissionId) (digest, id) }

/-- `submit` behind its checks. -/
def accept (r : Registry) (b : Nat) (binding : Binding) (text : PyStr) (digest : List Sha256.Word)
    (submissionId : Option PyStr) : Answer × Registry :=
  let state := ExecutionState.accepted (executionId r.nonce r.sequence)
  (.record ⟨r.serviceInstanceId, binding.view.identity, submissionId, state⟩,
    (r.entry b binding text digest submissionId).publish r.invocations.length state)

/-- `submit`; `created` tells whether `create_task` returned. -/
def submit (r : Registry) (b : Nat) (text : PyStr) (submissionId : Option PyStr) (created : Bool) :
    Answer × Registry :=
  match r.bindings[b]? with
  | none => (.failed .internal, r)
  | some binding =>
    if r.closed || binding.closing then (.failed (.app .serviceClosed), r)
    else if !isTurnText text then (.failed .invalid, r)
    else
      match text.encode? with
      | none => (.failed .invalid, r)
      | some bytes =>
        let digest := Sha256.digest bytes
        let key := canonical binding.view.identity
        if submissionId.any fun submissionId => !isIdentifier submissionId then (.failed .invalid, r)
        else
          match submissionId.bind fun submissionId => r.ledger.get? (key, submissionId) with
          | some prior =>
            if prior.1 ≠ digest then (.failed (.execution .submissionConflict), r)
            else
              match r.records.get? prior.2 with
              | none => (.failed .internal, r)
              | some record => (.record record, r)
          | none =>
            if (r.active.get? key).isSome || r.limits.active ≤ r.active.entries.length then
              (.failed (.execution .busy), r)
            else if submissionId.isSome && (r.limits.submissions ≤ r.ledger.entries.length ||
                r.limits.ledgerBytes < r.reservedLedgerBytes + recordReservationBytes) then
              (.failed (.execution .ledgerFull), r)
            else
              let r := { r with sequence := r.sequence + 1 }
              if created then r.accept b binding text digest submissionId else (.failed .task, r)

/-- The Product's last report becomes the baseline of the binding. -/
def quiet (r : Registry) (invocation : Invocation) : Registry :=
  { r with
    bindings := r.bindings.modify invocation.binding fun binding =>
      if invocation.record.state.status = ExecutionStatus.running then
        { binding with view := { binding.view with quiescent := invocation.observation.getD .idle } }
      else binding }

/-- The invocation gives up its session and its binding. -/
def release (r : Registry) (invocation : Invocation) : Registry :=
  { r with
    active := r.active.pop invocation.record.key
    bindings := r.bindings.modify invocation.binding fun binding => { binding with active := none } }

/-- A record without a submission is kept for a while only. -/
def cache (r : Registry) (invocation : Invocation) (now : Rat) : Registry :=
  if invocation.record.submissionId.isNone then
    { r with
      legacy := r.legacy.set invocation.id (now + r.limits.legacyRetentionSeconds) }.expireLegacy now
  else r

/-- `_finish` behind its checks. -/
def settle (r : Registry) (i : Nat) (invocation : Invocation) (outcome : ExecutionOutcome) (now : Rat) :
    Registry :=
  (((r.quiet invocation).publish i (invocation.record.state.finished outcome)).release
    invocation).cache invocation now

/-- `_finish`: the registry with the outcome published, or the refusal of an outcome that is none or
does not fit what the Product reported. -/
def finish (r : Registry) (i : Nat) (outcome : Option ExecutionOutcome) (now : Rat) :
    Except AppErrorCode Registry :=
  match r.invocations[i]?, outcome with
  | some invocation, some outcome =>
    let observed := invocation.observation.bind ExecutionObservation.ended?
    if invocation.started && invocation.observation.isNone && outcome.status ≠ .interrupted then
      .error .cleanupIncomplete
    else if invocation.record.state.status = .running && observed ≠ some outcome.status then
      .error .cleanupIncomplete
    else .ok (r.settle i invocation outcome now)
  | _, _ => .error .cleanupIncomplete

/-- `_on_observation`. -/
def onObservation (r : Registry) (b : Nat) (value : ExecutionObservation) : Answer × Registry :=
  match (r.bindings[b]?).bind Binding.active with
  | none => (.failed .invalid, r)
  | some i =>
    match r.invocations[i]? with
    | none => (.failed .internal, r)
    | some invocation =>
      let state := invocation.record.state
      if value.executionId? ≠ some state.executionId then (.failed .invalid, r)
      else
        match value with
        | .running _ =>
          if state.status ≠ .accepted then (.failed .invalid, r)
          else
            let r := r.publish i state.entered
            (.done, { r with
              invocations := r.invocations.modify i fun invocation =>
                { invocation with observation := some value } })
        | _ =>
          if state.status ≠ .running then (.failed .invalid, r)
          else (.done, r.putInvocation i { invocation with observation := some value })

/-- `interrupt`; `answers` tells whether the Product's `interrupt_execution` returns. An execution the
Product has not entered is interrupted without a report, so the state read before the call is the one
after it. -/
def interrupt (r : Registry) (b : Nat) (executionId : PyStr) (now : Rat) (answers : Bool) :
    Answer × Registry :=
  match r.bindings[b]? with
  | none => (.failed .internal, r)
  | some binding =>
    match r.get binding.view.identity executionId now with
    | (.error failure, r) => (.failed failure, r)
    | (.ok record, r) =>
      if record.state.status.terminal then (.record record, r)
      else
        match binding.active.bind fun i => (r.invocations[i]?).map fun invocation => (i, invocation) with
        | none => (.failed (.execution .notRetained), r)
        | some (i, invocation) =>
          if invocation.id ≠ executionId then (.failed (.execution .notRetained), r)
          else if record.state.interruptRequested then (.record invocation.record, r)
          else if invocation.started && !answers then (.failed .product, r)
          else
            (.record { invocation.record with state := record.state.requested },
              r.publish i record.state.requested)

/-- The outcome of a record that is kept, for `wait`. -/
def retained (r : Registry) (record : ExecutionRecord) (now : Rat) : Answer × Registry :=
  match r.get record.identity record.state.executionId now with
  | (.error failure, r) => (.failed failure, r)
  | (.ok kept, r) =>
    match kept.state.outcome with
    | some outcome => (.outcome outcome, r)
    | none => (.failed .internal, r)

/-- `wait` up to where it waits. -/
def wait (r : Registry) (b : Nat) (record : ExecutionRecord) (now : Rat) : Answer × Registry :=
  match r.bindings[b]?, record.state.outcome with
  | none, _ => (.failed .internal, r)
  | some _, some outcome => (.outcome outcome, r)
  | some binding, none =>
    match binding.active.bind fun i => r.invocations[i]? with
    | some invocation =>
      if invocation.id = record.state.executionId then (.waits, r)
      else r.retained record now
    | none => r.retained record now

/-- `retry_settlement` up to where it waits; behind that it is `get`. -/
def retrySettlement (r : Registry) (b : Nat) (executionId : PyStr) (now : Rat) (created : Bool) :
    Answer × Registry :=
  match r.bindings[b]? with
  | none => (.failed .internal, r)
  | some binding =>
    match r.get binding.view.identity executionId now with
    | (.error failure, r) => (.failed failure, r)
    | (.ok record, r) =>
      if record.state.status.terminal then (.record record, r)
      else
        match binding.active.bind fun i => (r.invocations[i]?).map fun invocation => (i, invocation) with
        | none => (.failed (.execution .notRetained), r)
        | some (i, invocation) =>
          if invocation.id ≠ executionId then (.failed (.execution .notRetained), r)
          else if invocation.task ≠ .done then (.waits, r)
          else if created then (.waits, r.putInvocation i { invocation with task := .retry })
          else (.failed .task, r)

/-- `close_binding` up to where it waits; behind that it only ends the subscription. -/
def closeBinding (r : Registry) (b : Nat) (now : Rat) (answers created : Bool) : Answer × Registry :=
  match r.bindings[b]? with
  | none => (.failed .internal, r)
  | some binding =>
    let r := r.putBinding b { binding with closing := true }
    match binding.active.bind fun i => r.invocations[i]? with
    | none => (.done, r)
    | some invocation =>
      match r.interrupt b invocation.id now answers with
      | (.failed failure, r) => (.failed failure, r)
      | (_, r) => r.retrySettlement b invocation.id now created

/-- `fence`. -/
def fence (r : Registry) : Registry := { r with closed := true }

/-- What a call of the Product does; an aborted one raises no `Exception`. A cancelled task does not
take its step. -/
inductive Reply where
  | returned (outcome : Option ExecutionOutcome)
  | raised
  | aborted
  | cancelled

def endTask (r : Registry) (i : Nat) : Registry :=
  { r with
    invocations := r.invocations.modify i fun invocation => { invocation with task := .done } }

/-- The task ends with `_finish`, which may refuse. -/
def finishTask (r : Registry) (i : Nat) (outcome : Option ExecutionOutcome) (now : Rat) : Registry :=
  match (r.endTask i).finish i outcome now with
  | .ok after => after
  | .error _ => r.endTask i

/-- `_drive` from `start_execution` on; `emitted` is what the Product reports during the call. -/
def start (r : Registry) (i : Nat) (invocation : Invocation) (text : PyStr)
    (emitted : List ExecutionObservation) (reply : Reply) (now : Rat) : Registry :=
  let r :=
    { r.putInvocation i { invocation with task := .waiting } with
      starts := r.starts ++ [StartCall.mk invocation.record text] }
  let r := emitted.foldl (fun r value => (r.onObservation invocation.binding value).2) r
  match reply with
  | .raised => r.finishTask i (some .startFailed) now
  | .returned _ =>
    { r with
      invocations := r.invocations.modify i fun invocation => { invocation with started := true } }
  | _ => r.endTask i

/-- The next step of the task of an invocation, up to where it waits again. -/
def progress (r : Registry) (i : Nat) (emitted : List ExecutionObservation) (reply : Reply)
    (now : Rat) : Registry :=
  match r.invocations[i]? with
  | none => r
  | some invocation =>
    match invocation.task, reply with
    | .done, _ => r
    | _, .cancelled => r.endTask i
    | .drive text, reply =>
      if invocation.record.state.interruptRequested then r.finishTask i (some .interrupted) now
      else r.start i invocation text emitted reply now
    | .retry, _ =>
      if invocation.started then r.putInvocation i { invocation with task := .settling }
      else r.finishTask i (some .interrupted) now
    | .settling, .returned _ => r.putInvocation i { invocation with task := .waiting }
    | .settling, _ => r.endTask i
    | .waiting, .returned outcome => r.finishTask i outcome now
    | .waiting, _ => r.endTask i

end Registry

end Loushang.AppService
