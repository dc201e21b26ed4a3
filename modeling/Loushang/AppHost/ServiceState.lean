import Loushang.AppHost.Contracts

/-!
# The durable service state

From `apphost/managed/lifecycle.py` and the identity of `hosting/service.py`: the values
that validate themselves, and the rows they are stored as. A row read from the database is
a list of the values that SQLite can return; the exceptions of a decoder all become
`invalid_record`, so that a decoder here answers with an option.
-/
namespace Loushang.AppHost
open Lib

/-- `_MAX_REVISION`. -/
def maxRevision : Int := 2 ^ 63 - 1

/-- `_UUID` of `hosting/service.py`. -/
def isUuid (text : PyStr) : Bool :=
  text.points.length == 36 && text.points.zipIdx.all fun entry =>
    if entry.2 ∈ [8, 13, 18, 23] then entry.1 = 0x2d else isHexPoint entry.1

/-- The check of `LinuxServiceIdentityV1.__post_init__`. -/
def IdentityAdmitted (pid startTicks : Int) (bootId : PyStr)
    (userId pidNamespaceDevice pidNamespaceInode : Int) : Prop :=
  (1 ≤ pid ∧ pid < 2 ^ 31) ∧ isUuid bootId = true ∧
    (∀ value ∈ [startTicks, userId, pidNamespaceDevice, pidNamespaceInode],
      0 ≤ value ∧ value < 2 ^ 64) ∧
    pidNamespaceInode ≠ 0

instance (pid startTicks : Int) (bootId : PyStr) (userId device inode : Int) :
    Decidable (IdentityAdmitted pid startTicks bootId userId device inode) :=
  inferInstanceAs (Decidable (_ ∧ _))

structure LinuxServiceIdentityV1 where
  pid : Int
  startTicks : Int
  bootId : PyStr
  userId : Int
  pidNamespaceDevice : Int
  pidNamespaceInode : Int
  admitted : IdentityAdmitted pid startTicks bootId userId pidNamespaceDevice pidNamespaceInode
  deriving DecidableEq

/-- The check of `ManagedTraceApplicationV1.__post_init__`. -/
def TraceAdmitted (instanceId attemptId : PyStr) (deadlineMs : Int) (configuration : PyStr) : Prop :=
  isHex 32 instanceId = true ∧ isHex 32 attemptId = true ∧
    (0 < deadlineMs ∧ deadlineMs ≤ 10 ^ 15) ∧ configuration = PyStr.ofString "aggregate/v1"

instance (instanceId attemptId : PyStr) (deadlineMs : Int) (configuration : PyStr) :
    Decidable (TraceAdmitted instanceId attemptId deadlineMs configuration) :=
  inferInstanceAs (Decidable (_ ∧ _))

structure ManagedTraceApplicationV1 where
  instanceId : PyStr
  attemptId : PyStr
  deadlineMs : Int
  configuration : PyStr
  admitted : TraceAdmitted instanceId attemptId deadlineMs configuration
  deriving DecidableEq

/-- The constructor with its default `configuration`. -/
def makeTrace (instanceId attemptId : PyStr) (deadlineMs : Int) :
    Except ManagedError ManagedTraceApplicationV1 :=
  if admitted : TraceAdmitted instanceId attemptId deadlineMs (PyStr.ofString "aggregate/v1") then
    .ok ⟨instanceId, attemptId, deadlineMs, PyStr.ofString "aggregate/v1", admitted⟩
  else .error .contract

/-- The check of `ManagedServiceStateV1.__post_init__`. -/
def StateAdmitted (revision : Int) (handoff : ManagedHandoffV1) (evidence : ManagedStopEvidenceV1)
    (nativeIdentity : Option LinuxServiceIdentityV1)
    (traceApplication : Option ManagedTraceApplicationV1) : Prop :=
  (1 ≤ revision ∧ revision ≤ maxRevision) ∧
    handoff.instanceRef = evidence.instanceRef ∧
    (handoff.phase = .committed → nativeIdentity ≠ none) ∧
    (∀ trace ∈ traceApplication, nativeIdentity ≠ none ∧
      trace.instanceId = handoff.instanceRef.instanceId ∧ trace.attemptId = handoff.attemptId) ∧
    (handoff.stopRequested = false → handoff.phase ≠ .aborting → evidence.any = false)

instance (revision : Int) (handoff : ManagedHandoffV1) (evidence : ManagedStopEvidenceV1)
    (nativeIdentity : Option LinuxServiceIdentityV1)
    (traceApplication : Option ManagedTraceApplicationV1) :
    Decidable (StateAdmitted revision handoff evidence nativeIdentity traceApplication) :=
  inferInstanceAs (Decidable (_ ∧ _))

@[ext]
structure ManagedServiceStateV1 where
  revision : Int
  handoff : ManagedHandoffV1
  evidence : ManagedStopEvidenceV1
  nativeIdentity : Option LinuxServiceIdentityV1
  traceApplication : Option ManagedTraceApplicationV1
  admitted : StateAdmitted revision handoff evidence nativeIdentity traceApplication
  deriving DecidableEq

/-- The constructor, which validates. -/
def makeState (revision : Int) (handoff : ManagedHandoffV1) (evidence : ManagedStopEvidenceV1)
    (nativeIdentity : Option LinuxServiceIdentityV1)
    (traceApplication : Option ManagedTraceApplicationV1) :
    Except ManagedError ManagedServiceStateV1 :=
  if admitted : StateAdmitted revision handoff evidence nativeIdentity traceApplication then
    .ok ⟨revision, handoff, evidence, nativeIdentity, traceApplication, admitted⟩
  else .error .contract

def ManagedServiceStateV1.cleanlyStopped (state : ManagedServiceStateV1) : Bool :=
  state.evidence.cleanlyStopped

/-- The check of `ManagedServiceTransitionV1.__post_init__`. -/
def TransitionAdmitted (instanceRef : ManagedInstanceRefV1) (attemptId : PyStr)
    (startedRevision : Int) (previous : Option ManagedServiceStateV1) : Prop :=
  (1 ≤ startedRevision ∧ startedRevision ≤ maxRevision) ∧ isHex 32 attemptId = true ∧
    (previous = none → startedRevision = 1) ∧
    ∀ state ∈ previous, state.cleanlyStopped = true ∧
      state.handoff.instanceRef.namespaceKey = instanceRef.namespaceKey ∧
      state.handoff.instanceRef.serviceId = instanceRef.serviceId ∧
      state.handoff.instanceRef ≠ instanceRef ∧
      state.handoff.attemptId ≠ attemptId ∧
      state.revision + 1 = startedRevision

instance (instanceRef : ManagedInstanceRefV1) (attemptId : PyStr) (startedRevision : Int)
    (previous : Option ManagedServiceStateV1) :
    Decidable (TransitionAdmitted instanceRef attemptId startedRevision previous) :=
  inferInstanceAs (Decidable (_ ∧ _))

structure ManagedServiceTransitionV1 where
  instanceRef : ManagedInstanceRefV1
  attemptId : PyStr
  startedRevision : Int
  previous : Option ManagedServiceStateV1
  admitted : TransitionAdmitted instanceRef attemptId startedRevision previous

def makeTransition (instanceRef : ManagedInstanceRefV1) (attemptId : PyStr)
    (startedRevision : Int) (previous : Option ManagedServiceStateV1) :
    Except ManagedError ManagedServiceTransitionV1 :=
  if admitted : TransitionAdmitted instanceRef attemptId startedRevision previous then
    .ok ⟨instanceRef, attemptId, startedRevision, previous, admitted⟩
  else .error .contract

/-- The keys a journal is bound to: those of its namespace and of its service, and the user
of its namespace. -/
structure JournalKeys where
  namespaceKey : PyStr
  serviceId : PyStr
  userId : Int
  namespaceKey_hex : isHex 64 namespaceKey = true
  serviceId_hex : isHex 64 serviceId = true

/-! ## Rows -/

def nativeFields (identity : LinuxServiceIdentityV1) : JsonValue :=
  .obj [(PyStr.ofString "boot_id", .str identity.bootId), (PyStr.ofString "pid", .int identity.pid),
    (PyStr.ofString "pid_namespace_device", .int identity.pidNamespaceDevice),
    (PyStr.ofString "pid_namespace_inode", .int identity.pidNamespaceInode),
    (PyStr.ofString "start_ticks", .int identity.startTicks),
    (PyStr.ofString "user_id", .int identity.userId)]

/-- `_encode_native`. -/
def encodeNative : Option LinuxServiceIdentityV1 → JsonValue
  | none => .null
  | some identity => .str (JsonText.dumps (nativeFields identity))

def traceFields (receipt : ManagedTraceApplicationV1) : JsonValue :=
  .obj [(PyStr.ofString "attempt_id", .str receipt.attemptId),
    (PyStr.ofString "configuration", .str receipt.configuration),
    (PyStr.ofString "deadline_ms", .int receipt.deadlineMs),
    (PyStr.ofString "instance_id", .str receipt.instanceId), (PyStr.ofString "v", .int 1)]

/-- `_encode_trace`. -/
def encodeTrace : Option ManagedTraceApplicationV1 → JsonValue
  | none => .null
  | some receipt => .str (JsonText.dumps (traceFields receipt))

/-- `int(flag)`. -/
def flagValue (flag : Bool) : JsonValue := .int (if flag then 1 else 0)

/-- `_state_row`. -/
def stateRow (state : ManagedServiceStateV1) : List JsonValue :=
  [.int state.revision, .str state.handoff.instanceRef.instanceId, .str state.handoff.attemptId,
    .str (PyStr.ofString state.handoff.phase.text), flagValue state.handoff.stopRequested,
    flagValue state.evidence.processExited, flagValue state.evidence.applicationCleanupCompleted,
    flagValue state.evidence.processScopeSettled, encodeNative state.nativeIdentity,
    encodeTrace state.traceApplication]

/-- The array of the `previous` column. -/
def previousFields (state : ManagedServiceStateV1) : JsonValue :=
  .arr (.str state.handoff.instanceRef.namespaceKey ::
    .str state.handoff.instanceRef.serviceId :: stateRow state)

/-- `_encode_previous`. -/
def encodePrevious : Option ManagedServiceStateV1 → Option PyStr
  | none => none
  | some state => some (JsonText.dumps (previousFields state))

def decodeFlag : JsonValue → Option Bool
  | .int value => if value = 0 then some false else if value = 1 then some true else none
  | _ => none

/-- `ManagedHandoffPhaseV1(value)`. -/
def decodePhase : JsonValue → Option ManagedHandoffPhaseV1
  | .str text => ManagedHandoffPhaseV1.all.find? fun phase => PyStr.ofString phase.text = text
  | _ => none

/-- `_match(value, _HEX32)`. -/
def decodeHex32 : JsonValue → Option {text : PyStr // isHex 32 text = true}
  | .str text => if hex : isHex 32 text = true then some ⟨text, hex⟩ else none
  | _ => none

/-- `LinuxServiceIdentityV1(**row)`. -/
def nativeOf : JsonValue → Option LinuxServiceIdentityV1
  | .obj entries =>
    if hasKeys entries ["boot_id", "pid", "pid_namespace_device", "pid_namespace_inode",
      "start_ticks", "user_id"] then
      match field entries "boot_id", field entries "pid", field entries "pid_namespace_device",
        field entries "pid_namespace_inode", field entries "start_ticks",
        field entries "user_id" with
      | some (.str bootId), some (.int pid), some (.int device), some (.int inode),
        some (.int startTicks), some (.int userId) =>
        if admitted : IdentityAdmitted pid startTicks bootId userId device inode then
          some ⟨pid, startTicks, bootId, userId, device, inode, admitted⟩
        else none
      | _, _, _, _, _, _ => none
    else none
  | _ => none

/-- `_decode_native`. -/
def decodeNative : JsonValue → Option (Option LinuxServiceIdentityV1)
  | .null => some none
  | .str text =>
    if 1024 < text.points.length then none
    else
      match (JsonText.loads text).bind nativeOf with
      | none => none
      | some identity =>
        if JsonText.dumps (nativeFields identity) = text then some (some identity) else none
  | _ => none

/-- The receipt of a parsed row, before its text is compared. -/
def traceOf : JsonValue → Option ManagedTraceApplicationV1
  | .obj entries =>
    if hasKeys entries ["v", "instance_id", "attempt_id", "deadline_ms", "configuration"] then
      match field entries "v", field entries "instance_id", field entries "attempt_id",
        field entries "deadline_ms", field entries "configuration" with
      | some (.int 1), some (.str instanceId), some (.str attemptId), some (.int deadlineMs),
        some (.str configuration) =>
        if admitted : TraceAdmitted instanceId attemptId deadlineMs configuration then
          some ⟨instanceId, attemptId, deadlineMs, configuration, admitted⟩
        else none
      | _, _, _, _, _ => none
    else none
  | _ => none

/-- `_decode_trace`. -/
def decodeTrace : JsonValue → Option (Option ManagedTraceApplicationV1)
  | .null => some none
  | .str text =>
    if 512 < text.points.length then none
    else
      match (JsonText.loads text).bind traceOf with
      | none => none
      | some receipt =>
        if JsonText.dumps (traceFields receipt) = text then some (some receipt) else none
  | _ => none

def JournalKeys.refOf (keys : JournalKeys) (instanceId : PyStr) (hex : isHex 32 instanceId = true) :
    ManagedInstanceRefV1 :=
  ⟨keys.namespaceKey, keys.serviceId, instanceId, keys.namespaceKey_hex, keys.serviceId_hex, hex⟩

/-- `_decode_state`. -/
def decodeState (keys : JournalKeys) : List JsonValue → Option ManagedServiceStateV1
  | [revision, instanceId, attemptId, phase, stopRequested, processExited, cleanupCompleted,
      scopeSettled, native, trace] => do
    let stopRequested ← decodeFlag stopRequested
    let processExited ← decodeFlag processExited
    let cleanupCompleted ← decodeFlag cleanupCompleted
    let scopeSettled ← decodeFlag scopeSettled
    let ⟨instanceId, instanceHex⟩ ← decodeHex32 instanceId
    let ⟨attemptId, attemptHex⟩ ← decodeHex32 attemptId
    let phase ← decodePhase phase
    let native ← decodeNative native
    let trace ← decodeTrace trace
    match revision with
    | .int revision =>
      if ∃ identity ∈ native, identity.userId ≠ keys.userId then none
      else
        let instanceRef := keys.refOf instanceId instanceHex
        (makeState revision ⟨instanceRef, attemptId, phase, stopRequested, attemptHex⟩
          ⟨instanceRef, processExited, cleanupCompleted, scopeSettled⟩ native trace).toOption
    | _ => none
  | _ => none

/-- The text of the `previous` column. -/
def decodePrevious (keys : JournalKeys) (text : PyStr) : Option ManagedServiceStateV1 :=
  if 4096 < text.points.length then none
  else
    match JsonText.loads text with
    | some (.arr (.str namespaceKey :: .str serviceId :: row)) =>
      if namespaceKey = keys.namespaceKey ∧ serviceId = keys.serviceId then
        match decodeState keys row with
        | none => none
        | some previous =>
          if encodePrevious (some previous) = some text then some previous else none
      else none
    | _ => none

/-! ## Rows are read back -/

variable {text : PyStr}

theorem isUuid_unescaped (uuid : isUuid text = true) : Unescaped text := by
  rw [isUuid, Bool.and_eq_true, List.all_eq_true] at uuid
  intro point member
  obtain ⟨place, inside, rfl⟩ := List.mem_iff_getElem.mp member
  have shape := uuid.2 _ (List.getElem_mem (by rw [List.length_zipIdx]; exact inside))
  rw [List.getElem_zipIdx] at shape
  dsimp only at shape
  split at shape
  · rw [of_decide_eq_true shape]
    decide
  · exact isHexPoint_unescaped shape

theorem isUuid_length (uuid : isUuid text = true) : text.points.length = 36 := by
  rw [isUuid, Bool.and_eq_true, beq_iff_eq] at uuid
  exact uuid.1

theorem length_dumpStr_unescaped (plain : Unescaped text) :
    (JsonText.dumpStr text).length = text.points.length + 2 := by
  rw [plain.dumpStr, List.length_cons, List.length_append, List.length_singleton]

/-- A number of at most `places` digits. -/
theorem length_dumpInt_le {value : Int} {places : Nat} (positive : 0 < places) (low : 0 ≤ value)
    (high : value < 10 ^ places) : (JsonText.dumpInt value).length ≤ places := by
  obtain ⟨n, rfl⟩ := Int.eq_ofNat_of_zero_le low
  rw [JsonText.dumpInt, if_neg (Int.not_lt.mpr low)]
  exact JsonText.length_digits positive (by exact_mod_cast high)

theorem plain_int {value : Int} {places : Nat} (positive : 0 < places) (few : places ≤ 4300)
    (low : 0 ≤ value) (high : value < 10 ^ places) : JsonText.Plain (.int value) := by
  have short := length_dumpInt_le positive low high
  rw [JsonText.dumpInt, if_neg (Int.not_lt.mpr low)] at short
  rw [JsonText.Plain]
  omega

section Native
variable (identity : LinuxServiceIdentityV1)

theorem LinuxServiceIdentityV1.ranges :
    (0 ≤ identity.pid ∧ identity.pid < 10 ^ 10) ∧
      (0 ≤ identity.startTicks ∧ identity.startTicks < 10 ^ 20) ∧
      (0 ≤ identity.userId ∧ identity.userId < 10 ^ 20) ∧
      (0 ≤ identity.pidNamespaceDevice ∧ identity.pidNamespaceDevice < 10 ^ 20) ∧
      0 ≤ identity.pidNamespaceInode ∧ identity.pidNamespaceInode < 10 ^ 20 := by
  obtain ⟨pid, -, numbers, -⟩ := identity.admitted
  simp only [List.forall_mem_cons] at numbers
  omega

theorem nativeFields_plain : JsonText.Plain (nativeFields identity) := by
  obtain ⟨pid, ticks, user, device, inode⟩ := identity.ranges
  have names : (["boot_id", "pid", "pid_namespace_device", "pid_namespace_inode", "start_ticks",
      "user_id"].map PyStr.ofString).Nodup := by decide
  have boot : JsonText.Plain (.str identity.bootId) := by
    rw [JsonText.Plain]
    exact (isUuid_unescaped identity.admitted.2.1).printable
  simp only [nativeFields]
  rw [JsonText.Plain]
  refine ⟨names, ?_⟩
  simp only [JsonText.PlainMembers, and_true]
  exact ⟨by decide, boot, by decide, plain_int (by decide) (by decide) pid.1 pid.2, by decide,
    plain_int (by decide) (by decide) device.1 device.2, by decide,
    plain_int (by decide) (by decide) inode.1 inode.2, by decide,
    plain_int (by decide) (by decide) ticks.1 ticks.2, by decide,
    plain_int (by decide) (by decide) user.1 user.2⟩

theorem length_nativeFields : (JsonText.dump (nativeFields identity)).length ≤ 220 := by
  obtain ⟨pid, ticks, user, device, inode⟩ := identity.ranges
  have boot := length_dumpStr_unescaped (isUuid_unescaped identity.admitted.2.1)
  rw [isUuid_length identity.admitted.2.1] at boot
  have pidLength := length_dumpInt_le (by decide) pid.1 pid.2
  have ticksLength := length_dumpInt_le (by decide) ticks.1 ticks.2
  have userLength := length_dumpInt_le (by decide) user.1 user.2
  have deviceLength := length_dumpInt_le (by decide) device.1 device.2
  have inodeLength := length_dumpInt_le (by decide) inode.1 inode.2
  have keys : (JsonText.dumpStr (PyStr.ofString "boot_id")).length = 9 ∧
      (JsonText.dumpStr (PyStr.ofString "pid")).length = 5 ∧
      (JsonText.dumpStr (PyStr.ofString "pid_namespace_device")).length = 22 ∧
      (JsonText.dumpStr (PyStr.ofString "pid_namespace_inode")).length = 21 ∧
      (JsonText.dumpStr (PyStr.ofString "start_ticks")).length = 13 ∧
      (JsonText.dumpStr (PyStr.ofString "user_id")).length = 9 := by decide
  obtain ⟨keyBoot, keyPid, keyDevice, keyInode, keyTicks, keyUser⟩ := keys
  simp only [nativeFields, JsonText.dump, JsonText.dumpMembers, List.length_cons,
    List.length_append, List.length_nil, keyBoot, keyPid, keyDevice, keyInode, keyTicks, keyUser, boot]
  omega

theorem nativeOf_nativeFields : nativeOf (nativeFields identity) = some identity :=
  dif_pos identity.admitted

end Native

section Trace
variable (receipt : ManagedTraceApplicationV1)

theorem ManagedTraceApplicationV1.deadline_range :
    0 ≤ receipt.deadlineMs ∧ receipt.deadlineMs < 10 ^ 16 := by
  obtain ⟨-, -, window, -⟩ := receipt.admitted
  omega

theorem traceFields_plain : JsonText.Plain (traceFields receipt) := by
  obtain ⟨instanceHex, attemptHex, -, configuration⟩ := receipt.admitted
  have names : (["attempt_id", "configuration", "deadline_ms", "instance_id", "v"].map
      PyStr.ofString).Nodup := by decide
  have deadline := receipt.deadline_range
  simp only [traceFields, configuration]
  rw [JsonText.Plain]
  refine ⟨names, ?_⟩
  simp only [JsonText.PlainMembers, and_true]
  refine ⟨by decide, ?_, by decide, ?_, by decide,
    plain_int (by decide) (by decide) deadline.1 deadline.2, by decide, ?_, by decide,
    plain_int (by decide) (by decide) (by decide) (show (1 : Int) < 10 ^ 1 by decide)⟩
  · rw [JsonText.Plain]
    exact (isHex_unescaped attemptHex).printable
  · rw [JsonText.Plain]
    decide
  · rw [JsonText.Plain]
    exact (isHex_unescaped instanceHex).printable

theorem length_traceFields : (JsonText.dump (traceFields receipt)).length ≤ 170 := by
  obtain ⟨instanceHex, attemptHex, -, configuration⟩ := receipt.admitted
  have deadline := receipt.deadline_range
  have deadlineLength := length_dumpInt_le (by decide) deadline.1 deadline.2
  have instanceLength := length_dumpStr_unescaped (isHex_unescaped instanceHex)
  have attemptLength := length_dumpStr_unescaped (isHex_unescaped attemptHex)
  rw [isHex_length instanceHex] at instanceLength
  rw [isHex_length attemptHex] at attemptLength
  have one : (JsonText.dumpInt 1).length = 1 := by decide
  have keys : (JsonText.dumpStr (PyStr.ofString "attempt_id")).length = 12 ∧
      (JsonText.dumpStr (PyStr.ofString "configuration")).length = 15 ∧
      (JsonText.dumpStr (PyStr.ofString "aggregate/v1")).length = 14 ∧
      (JsonText.dumpStr (PyStr.ofString "deadline_ms")).length = 13 ∧
      (JsonText.dumpStr (PyStr.ofString "instance_id")).length = 13 ∧
      (JsonText.dumpStr (PyStr.ofString "v")).length = 3 := by decide
  obtain ⟨keyAttempt, keyConfiguration, aggregate, keyDeadline, keyInstance, keyV⟩ := keys
  simp only [traceFields, configuration, JsonText.dump, JsonText.dumpMembers, List.length_cons,
    List.length_append, List.length_nil, keyAttempt, keyConfiguration, aggregate, keyDeadline,
    keyInstance, keyV, instanceLength, attemptLength, one]
  omega

theorem traceOf_traceFields : traceOf (traceFields receipt) = some receipt :=
  dif_pos receipt.admitted

end Trace

variable {value : JsonValue}

theorem loads_dumps (plain : JsonText.Plain value) : JsonText.loads (JsonText.dumps value) = some value := by
  have read := JsonText.loads_dumps plain (.inl rfl)
  rwa [List.append_nil] at read

theorem decodeNative_encodeNative (native : Option LinuxServiceIdentityV1) :
    decodeNative (encodeNative native) = some native := by
  cases native with
  | none => rfl
  | some identity =>
    have short : ¬1024 < (JsonText.dumps (nativeFields identity)).points.length :=
      Nat.not_lt.mpr (Nat.le_trans (length_nativeFields identity) (by decide))
    rw [encodeNative, decodeNative, if_neg short,
      loads_dumps (nativeFields_plain identity), Option.bind_some, nativeOf_nativeFields]
    exact if_pos rfl

theorem decodeTrace_encodeTrace (trace : Option ManagedTraceApplicationV1) :
    decodeTrace (encodeTrace trace) = some trace := by
  cases trace with
  | none => rfl
  | some receipt =>
    have short : ¬512 < (JsonText.dumps (traceFields receipt)).points.length :=
      Nat.not_lt.mpr (Nat.le_trans (length_traceFields receipt) (by decide))
    rw [encodeTrace, decodeTrace, if_neg short,
      loads_dumps (traceFields_plain receipt), Option.bind_some, traceOf_traceFields]
    exact if_pos rfl

theorem decodeFlag_flagValue (flag : Bool) : decodeFlag (flagValue flag) = some flag := by
  cases flag <;> rfl

theorem decodePhase_text (phase : ManagedHandoffPhaseV1) :
    decodePhase (.str (PyStr.ofString phase.text)) = some phase := by
  cases phase <;> rfl

/-- A state that the journal of `keys` may store. -/
structure Belongs (keys : JournalKeys) (state : ManagedServiceStateV1) : Prop where
  namespaceKey : state.handoff.instanceRef.namespaceKey = keys.namespaceKey
  serviceId : state.handoff.instanceRef.serviceId = keys.serviceId
  user : ∀ identity ∈ state.nativeIdentity, identity.userId = keys.userId

variable {keys : JournalKeys} {state : ManagedServiceStateV1}

theorem decodeState_stateRow (belongs : Belongs keys state) :
    decodeState keys (stateRow state) = some state := by
  obtain ⟨revision, ⟨⟨namespaceKey, serviceId, instanceId, _, _, instanceHex⟩, attemptId, phase,
    stopRequested, attemptHex⟩, ⟨evidenceRef, exited, cleanup, settled⟩, native, trace, admitted⟩ := state
  obtain ⟨rfl, rfl, user⟩ := belongs
  obtain rfl : _ = evidenceRef := admitted.2.1
  have sameUser : ¬∃ identity ∈ native, identity.userId ≠ keys.userId := by
    rintro ⟨identity, member, other⟩
    exact other (user identity member)
  have readInstance : decodeHex32 (.str instanceId) = some ⟨instanceId, instanceHex⟩ :=
    dif_pos instanceHex
  have readAttempt : decodeHex32 (.str attemptId) = some ⟨attemptId, attemptHex⟩ :=
    dif_pos attemptHex
  simp only [stateRow, decodeState, decodeFlag_flagValue, readInstance, readAttempt,
    decodePhase_text, decodeNative_encodeNative, decodeTrace_encodeTrace, Option.bind_eq_bind,
    Option.bind_some, if_neg sameUser, makeState]
  exact congrArg Except.toOption (dif_pos admitted)

theorem flagValue_plain (flag : Bool) : JsonText.Plain (flagValue flag) := by
  cases flag <;> exact plain_int (by decide) (by decide) (by decide) (show _ < (10 : Int) ^ 1 by decide)

theorem length_dump_flagValue (flag : Bool) : (JsonText.dump (flagValue flag)).length = 1 := by
  cases flag <;> decide

/-- The text of an optional column. -/
theorem optional_plain (plain : JsonText.Plain value) : JsonText.Plain (.str (JsonText.dumps value)) := by
  rw [JsonText.Plain]
  exact JsonText.printable_of_ascii (JsonText.dump_ascii value plain)

theorem length_dump_optional (plain : JsonText.Plain value) :
    (JsonText.dump (.str (JsonText.dumps value))).length ≤ 2 * (JsonText.dump value).length + 2 := by
  rw [JsonText.dump]
  exact JsonText.length_dumpStr_le (JsonText.printable_of_ascii (JsonText.dump_ascii value plain))

theorem encodeNative_plain (native : Option LinuxServiceIdentityV1) :
    JsonText.Plain (encodeNative native) ∧ (JsonText.dump (encodeNative native)).length ≤ 442 := by
  cases native with
  | none =>
    rw [encodeNative, JsonText.Plain, JsonText.dump]
    exact ⟨trivial, by decide⟩
  | some identity =>
    have plain := nativeFields_plain identity
    have short := length_dump_optional plain
    have fields := length_nativeFields identity
    exact ⟨optional_plain plain, by rw [encodeNative]; omega⟩

theorem encodeTrace_plain (trace : Option ManagedTraceApplicationV1) :
    JsonText.Plain (encodeTrace trace) ∧ (JsonText.dump (encodeTrace trace)).length ≤ 342 := by
  cases trace with
  | none =>
    rw [encodeTrace, JsonText.Plain, JsonText.dump]
    exact ⟨trivial, by decide⟩
  | some receipt =>
    have plain := traceFields_plain receipt
    have short := length_dump_optional plain
    have fields := length_traceFields receipt
    exact ⟨optional_plain plain, by rw [encodeTrace]; omega⟩

theorem hex_plain {length : Nat} (hex : isHex length text = true) :
    JsonText.Plain (.str text) ∧ (JsonText.dump (.str text)).length = length + 2 := by
  rw [JsonText.Plain, JsonText.dump, length_dumpStr_unescaped (isHex_unescaped hex), isHex_length hex]
  exact ⟨(isHex_unescaped hex).printable, rfl⟩

theorem phase_plain (phase : ManagedHandoffPhaseV1) :
    JsonText.Plain (.str (PyStr.ofString phase.text)) ∧
      (JsonText.dump (.str (PyStr.ofString phase.text))).length ≤ 13 := by
  rw [JsonText.Plain, JsonText.dump]
  cases phase <;> decide

theorem revision_plain (state : ManagedServiceStateV1) :
    JsonText.Plain (.int state.revision) ∧ (JsonText.dump (.int state.revision)).length ≤ 19 := by
  have inside := state.admitted.1
  unfold maxRevision at inside
  rw [JsonText.dump]
  exact ⟨plain_int (by decide) (by decide) (by omega) (show _ < (10 : Int) ^ 19 by omega),
    length_dumpInt_le (by decide) (by omega) (by omega)⟩

theorem previousFields_plain (state : ManagedServiceStateV1) :
    JsonText.Plain (previousFields state) ∧ (JsonText.dump (previousFields state)).length ≤ 4096 := by
  obtain ⟨namespacePlain, namespaceLength⟩ := hex_plain state.handoff.instanceRef.namespaceKey_hex
  obtain ⟨servicePlain, serviceLength⟩ := hex_plain state.handoff.instanceRef.serviceId_hex
  obtain ⟨instancePlain, instanceLength⟩ := hex_plain state.handoff.instanceRef.instanceId_hex
  obtain ⟨attemptPlain, attemptLength⟩ := hex_plain state.handoff.attemptId_hex
  obtain ⟨phasePlain, phaseLength⟩ := phase_plain state.handoff.phase
  obtain ⟨revisionPlain, revisionLength⟩ := revision_plain state
  obtain ⟨nativePlain, nativeLength⟩ := encodeNative_plain state.nativeIdentity
  obtain ⟨tracePlain, traceLength⟩ := encodeTrace_plain state.traceApplication
  constructor
  · simp only [previousFields, stateRow, JsonText.Plain, JsonText.PlainItems, and_true] at *
    exact ⟨namespacePlain, servicePlain, revisionPlain, instancePlain, attemptPlain, phasePlain,
      flagValue_plain _, flagValue_plain _, flagValue_plain _, flagValue_plain _, nativePlain, tracePlain⟩
  · simp only [previousFields, stateRow]
    rw [JsonText.dump]
    simp only [JsonText.dumpItems, List.length_cons, List.length_append, List.length_nil,
      length_dump_flagValue, namespaceLength, serviceLength, instanceLength, attemptLength]
    omega

theorem decodePrevious_encodePrevious (belongs : Belongs keys state) :
    ∃ text, encodePrevious (some state) = some text ∧ decodePrevious keys text = some state := by
  refine ⟨JsonText.dumps (previousFields state), rfl, ?_⟩
  obtain ⟨plain, length⟩ := previousFields_plain state
  have short : ¬4096 < (JsonText.dumps (previousFields state)).points.length := Nat.not_lt.mpr length
  unfold decodePrevious
  rw [if_neg short, loads_dumps plain]
  simp only [previousFields]
  rw [if_pos ⟨belongs.namespaceKey, belongs.serviceId⟩, decodeState_stateRow belongs]
  exact if_pos rfl

end Loushang.AppHost
