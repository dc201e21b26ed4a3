import Loushang.AppHost.ServiceState
import Loushang.Lib.Run

/-!
# The managed service journal

From `ManagedServiceJournalV1` of `apphost/managed/lifecycle.py`: the two rows that one
service has, and the calls that read and write them under the lifecycle fence. Locks, named
files, deadlines, the registry row of the service and its admission record are what
`Surroundings` says about a call; the journal writes none of them.
-/
namespace Loushang.AppHost
open Lib

/-- A row of `service_transitions`. -/
structure TransitionRow where
  instanceId : PyStr
  attemptId : PyStr
  startedRevision : Int
  previous : Option PyStr

/-- What `instances` and `service_transitions` hold for the service. -/
structure ServiceRows where
  state : Option (List JsonValue)
  transition : Option TransitionRow

def ServiceRows.empty : ServiceRows := ⟨none, none⟩

/-- What a call meets. -/
structure Surroundings where
  /-- Raised before the rows are read: a closed journal, a lock, a deadline, the registry. -/
  refuses : Option ManagedError
  /-- `token_hex(16)`. -/
  token : {text : PyStr // isHex 32 text = true}
  /-- Raised by `admit_growth` or `admit_control`. -/
  full : Option StorageError
  /-- The window of the trace has passed. -/
  expired : Bool
  /-- Raised behind the write and before it is committed. -/
  rollback : Option StorageError
  /-- Raised when the write is already committed. -/
  afterwards : Option StorageError

inductive Outcome where
  | returned (state : ManagedServiceStateV1)
  | refused (error : ManagedError)
  /-- An exception behind a committed write. -/
  | uncertain (error : StorageError)

variable (keys : JournalKeys)

/-- `_read_state`. -/
def readState (rows : ServiceRows) : Except StorageError (Option ManagedServiceStateV1) :=
  match rows.state with
  | none => .ok none
  | some row =>
    match decodeState keys row with
    | none => .error .invalidRecord
    | some state => .ok (some state)

/-- The `previous` column, which may be null. -/
def decodeColumn : Option PyStr → Option (Option ManagedServiceStateV1)
  | none => some none
  | some text => (decodePrevious keys text).map some

/-- The transition that a row and the state beside it describe. -/
def decodeTransition (state : ManagedServiceStateV1) (row : TransitionRow) :
    Option ManagedServiceTransitionV1 := do
  let previous ← decodeColumn keys row.previous
  let ⟨instanceId, hex⟩ ← decodeHex32 (.str row.instanceId)
  let transition ← (makeTransition (keys.refOf instanceId hex) row.attemptId row.startedRevision
    previous).toOption
  if transition.instanceRef ≠ state.handoff.instanceRef ∨
      transition.attemptId ≠ state.handoff.attemptId ∨
      state.revision < transition.startedRevision then none
  else some transition

/-- `_read_transition`. -/
def readTransition (rows : ServiceRows) (state : Option ManagedServiceStateV1) :
    Except StorageError (Option ManagedServiceTransitionV1) :=
  match state, rows.transition with
  | none, none => .ok none
  | some state, some row =>
    match decodeTransition keys state row with
    | none => .error .invalidRecord
    | some transition => .ok (some transition)
  | _, _ => .error .invalidRecord

/-- `_read`. -/
def readService (rows : ServiceRows) : Except StorageError (Option ManagedServiceStateV1) :=
  match readState keys rows with
  | .error code => .error code
  | .ok state =>
    match readTransition keys rows state with
    | .error code => .error code
    | .ok _ => .ok state

/-- `_next_revision`. -/
def nextRevision (current : Option ManagedServiceStateV1) : Except StorageError Int :=
  let revision := match current with
    | none => 1
    | some state => state.revision + 1
  if maxRevision < revision then .error .capacity else .ok revision

/-- `_save`, an insertion or an update of the only row. -/
def ServiceRows.save (rows : ServiceRows) (state : ManagedServiceStateV1) : ServiceRows :=
  { rows with state := some (stateRow state) }

/-- The end of a transaction that leaves `rows'` in the place of `rows`. -/
def settle (env : Surroundings) (rows rows' : ServiceRows) (state : ManagedServiceStateV1) :
    Outcome × ServiceRows :=
  match env.rollback, env.afterwards with
  | some code, _ => (.refused (.storage code), rows)
  | none, some code => (.uncertain code, rows')
  | none, none => (.returned state, rows')

/-- A call whose arguments are checked first. -/
def checked (accepts : Bool) (rows : ServiceRows) (call : Outcome × ServiceRows) :
    Outcome × ServiceRows :=
  if accepts then call else (.refused .contract, rows)

/-- `_require_native`. -/
def requireNative (identity : LinuxServiceIdentityV1) : Bool := identity.userId == keys.userId

/-- `_require_instance`. -/
def requireInstance (instanceRef : ManagedInstanceRefV1) : Bool :=
  instanceRef.namespaceKey == keys.namespaceKey && instanceRef.serviceId == keys.serviceId

/-- `prepare`. -/
def prepare (rows : ServiceRows) (env : Surroundings) (attemptId : PyStr)
    (expected : Option ManagedServiceStateV1) : Outcome × ServiceRows :=
  if attemptHex : isHex 32 attemptId = true then
    match env.refuses with
    | some error => (.refused error, rows)
    | none =>
      match readService keys rows with
      | .error code => (.refused (.storage code), rows)
      | .ok current =>
        if current ≠ expected then (.refused (.storage .conflict), rows)
        else if ∃ state ∈ current, state.cleanlyStopped = false then
          (.refused (.storage .busy), rows)
        else if ∃ state ∈ current, attemptId = state.handoff.attemptId then
          (.refused (.storage .conflict), rows)
        else
          match env.full with
          | some code => (.refused (.storage code), rows)
          | none =>
            if ∃ state ∈ current, env.token.val = state.handoff.instanceRef.instanceId then
              (.refused (.storage .conflict), rows)
            else
              let instanceRef := keys.refOf env.token.val env.token.property
              match nextRevision current with
              | .error code => (.refused (.storage code), rows)
              | .ok revision =>
                match makeState revision ⟨instanceRef, attemptId, .provisional, false, attemptHex⟩
                  ⟨instanceRef, false, false, false⟩ none none with
                | .error error => (.refused error, rows)
                | .ok state =>
                  match makeTransition instanceRef attemptId state.revision current with
                  | .error error => (.refused error, rows)
                  | .ok transition =>
                    settle env rows
                      { state := some (stateRow state)
                        transition := some ⟨env.token.val, attemptId, transition.startedRevision,
                          encodePrevious current⟩ }
                      state
  else (.refused .contract, rows)

/-- `_update`. -/
def updateService (rows : ServiceRows) (env : Surroundings) (instanceRef : ManagedInstanceRefV1)
    (update : ManagedServiceStateV1 → Except ManagedError ManagedServiceStateV1) :
    Outcome × ServiceRows :=
  match env.refuses with
  | some error => (.refused error, rows)
  | none =>
    checked (requireInstance keys instanceRef) rows <|
      match readService keys rows with
      | .error code => (.refused (.storage code), rows)
      | .ok none => (.refused (.storage .conflict), rows)
      | .ok (some current) =>
        if current.handoff.instanceRef ≠ instanceRef then (.refused (.storage .conflict), rows)
        else
          match update current with
          | .error .contract => (.refused (.storage .conflict), rows)
          | .error (.storage code) => (.refused (.storage code), rows)
          | .ok proposed =>
            if proposed = current then settle env rows rows current
            else
              match env.full, nextRevision (some current) with
              | some code, _ => (.refused (.storage code), rows)
              | none, .error code => (.refused (.storage code), rows)
              | none, .ok revision =>
                match makeState revision proposed.handoff proposed.evidence
                  proposed.nativeIdentity proposed.traceApplication with
                | .error error => (.refused error, rows)
                | .ok state => settle env rows (rows.save state) state

/-! ## What each call makes of the current state -/

abbrev Update := ManagedServiceStateV1 → Except ManagedError ManagedServiceStateV1

/-- `replace(current, handoff=handoff)`. -/
def replaceHandoff (current : ManagedServiceStateV1) (handoff : ManagedHandoffV1) :
    Except ManagedError ManagedServiceStateV1 :=
  makeState current.revision handoff current.evidence current.nativeIdentity current.traceApplication

/-- `replace(current, evidence=evidence)`. -/
def replaceEvidence (current : ManagedServiceStateV1) (evidence : ManagedStopEvidenceV1) :
    Except ManagedError ManagedServiceStateV1 :=
  makeState current.revision current.handoff evidence current.nativeIdentity current.traceApplication

def conflict {α : Type} : Except ManagedError α := .error (.storage .conflict)

/-- A stop was requested or the startup is aborted. -/
def ManagedServiceStateV1.ending (state : ManagedServiceStateV1) : Prop :=
  state.handoff.stopRequested = true ∨ state.handoff.phase = .aborting

instance (state : ManagedServiceStateV1) : Decidable state.ending :=
  inferInstanceAs (Decidable (_ ∨ _))

def registerNativeUpdate (attemptId : PyStr) (identity : LinuxServiceIdentityV1) : Update :=
  fun current =>
    if current.handoff.attemptId ≠ attemptId then conflict
    else if current.nativeIdentity = some identity then .ok current
    else if current.nativeIdentity ≠ none ∨ current.handoff.phase ≠ .provisional ∨
        current.handoff.stopRequested = true then conflict
    else
      makeState current.revision current.handoff current.evidence (some identity)
        current.traceApplication

def commitUpdate (attemptId : PyStr) (identity : LinuxServiceIdentityV1) : Update := fun current =>
  if current.handoff.attemptId ≠ attemptId ∨ current.nativeIdentity ≠ some identity then conflict
  else current.handoff.commit >>= replaceHandoff current

def traceUpdate (expired : Bool) (attemptId : PyStr) (identity : LinuxServiceIdentityV1)
    (receipt : ManagedTraceApplicationV1) : Update := fun current =>
  if current.handoff.attemptId ≠ attemptId ∨ current.nativeIdentity ≠ some identity then conflict
  else
    match current.traceApplication with
    | some recorded => if recorded ≠ receipt then conflict else .ok current
    | none =>
      if current.ending then conflict
      else if expired then .error (.storage .busy)
      else
        makeState current.revision current.handoff current.evidence current.nativeIdentity
          (some receipt)

def abortUpdate (attemptId : PyStr) (identity : Option LinuxServiceIdentityV1) : Update :=
  fun current =>
    if current.handoff.attemptId ≠ attemptId then conflict
    else if identity ≠ none ∧ current.nativeIdentity ≠ none ∧ identity ≠ current.nativeIdentity then
      conflict
    else current.handoff.abort >>= replaceHandoff current

def requestStopUpdate : Update := fun current =>
  replaceHandoff current current.handoff.requestStop

/-- `_match_child` refuses. -/
def strangeChild (current : ManagedServiceStateV1) (attemptId : PyStr)
    (native : LinuxServiceIdentityV1) : Prop :=
  current.handoff.attemptId ≠ attemptId ∨
    (current.nativeIdentity ≠ none ∧ current.nativeIdentity ≠ some native)

instance (current : ManagedServiceStateV1) (attemptId : PyStr) (native : LinuxServiceIdentityV1) :
    Decidable (strangeChild current attemptId native) :=
  inferInstanceAs (Decidable (_ ∨ _))

def requestChildStopUpdate (attemptId : PyStr) (native : LinuxServiceIdentityV1) : Update :=
  fun current =>
    if strangeChild current attemptId native then conflict
    else if current.handoff.phase = .provisional then
      current.handoff.abort >>= fun handoff => replaceHandoff current handoff.requestStop
    else replaceHandoff current current.handoff.requestStop

def recordChildCleanupUpdate (attemptId : PyStr) (native : LinuxServiceIdentityV1) : Update :=
  fun current =>
    if strangeChild current attemptId native then conflict
    else if ¬current.ending then conflict
    else replaceEvidence current { current.evidence with applicationCleanupCompleted := true }

def recordNativeStopUpdate (native : LinuxServiceIdentityV1)
    (processExited processScopeSettled : Bool) : Update := fun current =>
  if current.nativeIdentity ≠ some native ∨ ¬current.ending then conflict
  else
    replaceEvidence current
      { current.evidence with
        processExited := current.evidence.processExited || processExited
        processScopeSettled := current.evidence.processScopeSettled || processScopeSettled }

def recordStopEvidenceUpdate (evidence : ManagedStopEvidenceV1) : Update := fun current =>
  if ¬current.ending then conflict
  else
    replaceEvidence current
      { instanceRef := evidence.instanceRef
        processExited := current.evidence.processExited || evidence.processExited
        applicationCleanupCompleted :=
          current.evidence.applicationCleanupCompleted || evidence.applicationCleanupCompleted
        processScopeSettled :=
          current.evidence.processScopeSettled || evidence.processScopeSettled }

/-! ## Calls -/

variable (rows : ServiceRows) (env : Surroundings) (instanceRef : ManagedInstanceRefV1)
  (attemptId : PyStr)

def registerNative (identity : LinuxServiceIdentityV1) : Outcome × ServiceRows :=
  checked (isHex 32 attemptId && requireNative keys identity) rows <|
    updateService keys rows env instanceRef (registerNativeUpdate attemptId identity)

def commit (identity : Option LinuxServiceIdentityV1) : Outcome × ServiceRows :=
  match identity with
  | none => (.refused .contract, rows)
  | some identity =>
    checked (isHex 32 attemptId && requireNative keys identity) rows <|
      updateService keys rows env instanceRef (commitUpdate attemptId identity)

/-- The write of `record_trace_application`, behind its first look. -/
def publishTrace (identity : LinuxServiceIdentityV1) (deadlineMs : Int) : Outcome × ServiceRows :=
  checked (requireInstance keys instanceRef && requireNative keys identity) rows <|
    match makeTrace instanceRef.instanceId attemptId deadlineMs with
    | .error error => (.refused error, rows)
    | .ok receipt =>
      updateService keys rows env instanceRef (traceUpdate env.expired attemptId identity receipt)

/-- `record_trace_application` where nothing comes between its two transactions. -/
def recordTraceApplication (identity : LinuxServiceIdentityV1) (deadlineMs : Int) :
    Outcome × ServiceRows :=
  checked (requireInstance keys instanceRef && requireNative keys identity) rows <|
    match makeTrace instanceRef.instanceId attemptId deadlineMs, env.refuses with
    | .error error, _ => (.refused error, rows)
    | .ok _, some error => (.refused error, rows)
    | .ok receipt, none =>
      match readService keys rows with
      | .error code => (.refused (.storage code), rows)
      | .ok none => (.refused (.storage .conflict), rows)
      | .ok (some observed) =>
        if observed.handoff.instanceRef ≠ instanceRef then (.refused (.storage .conflict), rows)
        else if observed.traceApplication ≠ none then
          match traceUpdate env.expired attemptId identity receipt observed with
          | .error error => (.refused error, rows)
          | .ok state => (.returned state, rows)
        else publishTrace keys rows env instanceRef attemptId identity deadlineMs

def abort (identity : Option LinuxServiceIdentityV1) : Outcome × ServiceRows :=
  checked (isHex 32 attemptId && identity.all (requireNative keys)) rows <|
    updateService keys rows env instanceRef (abortUpdate attemptId identity)

def requestStop : Outcome × ServiceRows :=
  updateService keys rows env instanceRef requestStopUpdate

def requestChildStop (native : LinuxServiceIdentityV1) : Outcome × ServiceRows :=
  checked (isHex 32 attemptId && requireNative keys native) rows <|
    updateService keys rows env instanceRef (requestChildStopUpdate attemptId native)

def recordChildCleanup (native : LinuxServiceIdentityV1) : Outcome × ServiceRows :=
  checked (isHex 32 attemptId && requireNative keys native) rows <|
    updateService keys rows env instanceRef (recordChildCleanupUpdate attemptId native)

def recordNativeStop (native : LinuxServiceIdentityV1) (processExited processScopeSettled : Bool) :
    Outcome × ServiceRows :=
  checked (requireNative keys native && (!processScopeSettled || processExited)) rows <|
    updateService keys rows env instanceRef
      (recordNativeStopUpdate native processExited processScopeSettled)

def recordStopEvidence (evidence : ManagedStopEvidenceV1) : Outcome × ServiceRows :=
  updateService keys rows env evidence.instanceRef (recordStopEvidenceUpdate evidence)

/-- The calls of the journal. `publishTrace` is the second transaction of a
`recordTraceApplication` that others came into. -/
inductive JournalCall where
  | prepare (attemptId : PyStr) (expected : Option ManagedServiceStateV1)
  | registerNative (instanceRef : ManagedInstanceRefV1) (attemptId : PyStr)
    (identity : LinuxServiceIdentityV1)
  | commit (instanceRef : ManagedInstanceRefV1) (attemptId : PyStr)
    (identity : Option LinuxServiceIdentityV1)
  | recordTraceApplication (instanceRef : ManagedInstanceRefV1) (attemptId : PyStr)
    (identity : LinuxServiceIdentityV1) (deadlineMs : Int)
  | publishTrace (instanceRef : ManagedInstanceRefV1) (attemptId : PyStr)
    (identity : LinuxServiceIdentityV1) (deadlineMs : Int)
  | abort (instanceRef : ManagedInstanceRefV1) (attemptId : PyStr)
    (identity : Option LinuxServiceIdentityV1)
  | requestStop (instanceRef : ManagedInstanceRefV1)
  | requestChildStop (instanceRef : ManagedInstanceRefV1) (attemptId : PyStr)
    (native : LinuxServiceIdentityV1)
  | recordChildCleanup (instanceRef : ManagedInstanceRefV1) (attemptId : PyStr)
    (native : LinuxServiceIdentityV1)
  | recordNativeStop (instanceRef : ManagedInstanceRefV1) (native : LinuxServiceIdentityV1)
    (processExited processScopeSettled : Bool)
  | recordStopEvidence (evidence : ManagedStopEvidenceV1)

def callService (rows : ServiceRows) (call : JournalCall) (env : Surroundings) :
    Outcome × ServiceRows :=
  match call with
  | .prepare attemptId expected => prepare keys rows env attemptId expected
  | .registerNative ref attemptId identity => registerNative keys rows env ref attemptId identity
  | .commit ref attemptId identity => commit keys rows env ref attemptId identity
  | .recordTraceApplication ref attemptId identity deadlineMs =>
    recordTraceApplication keys rows env ref attemptId identity deadlineMs
  | .publishTrace ref attemptId identity deadlineMs =>
    publishTrace keys rows env ref attemptId identity deadlineMs
  | .abort ref attemptId identity => abort keys rows env ref attemptId identity
  | .requestStop ref => requestStop keys rows env ref
  | .requestChildStop ref attemptId native => requestChildStop keys rows env ref attemptId native
  | .recordChildCleanup ref attemptId native =>
    recordChildCleanup keys rows env ref attemptId native
  | .recordNativeStop ref native exited settled =>
    recordNativeStop keys rows env ref native exited settled
  | .recordStopEvidence evidence => recordStopEvidence keys rows env evidence

def journal : Machine ServiceRows (JournalCall × Surroundings) Outcome where
  step rows input := callService keys rows input.1 input.2

end Loushang.AppHost
