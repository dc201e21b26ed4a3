import Loushang.Lib.Run
import Loushang.Lib.Text
import Loushang.Multiagent.Registry

/-!
# Control of the agent tree

`MultiAgentControl` of `multiagent/control.py`. The authority policy is a parameter; message
routing, the reads of notices, the subscribed consumers, the error texts and the timestamps of the
facts are left out.
-/
namespace Loushang.Multiagent
open Loushang.Lib

inductive AgentFactKind where
  | spawned
  | statusChanged
  | workspace
  | progress
  | terminal
  | closed
  deriving DecidableEq

structure TerminalPayload where
  status : TerminalStatus
  finalMessage : String
  usage : AgentUsage
  durationMs : Nat
  toolUses : Nat

/-- The constructor of `TerminalPayload`, which turns a negative duration down. -/
def terminalPayload (status : TerminalStatus) (finalMessage : String) (progress : AgentProgress)
    (durationMs : Int) : Except ControlError TerminalPayload :=
  if durationMs < 0 then .error .value
  else .ok ⟨status, finalMessage, progress.usage, durationMs.toNat, progress.toolUses⟩

structure AgentFact where
  sequence : Nat
  kind : AgentFactKind
  ref : AgentRef
  parentRef : Option AgentRef
  agentType : AgentName
  status : AgentStatus
  roundId : Nat
  progress : Option AgentProgress
  terminal : Option TerminalPayload
  workspaceRef : Option String
  artifactRefs : List String
  changeSetRef : Option String

structure AgentCompletionNotice where
  noticeId : String
  senderRef : AgentRef
  recipientRef : AgentRef
  roundId : Nat
  terminal : TerminalPayload
  summary : Option String
  workspaceRef : Option String
  artifactRefs : List String
  changeSetRef : Option String

inductive TransitionReason where
  | applied
  | duplicate
  | staleRef
  | staleRound
  | closed
  | invalidState

structure AgentTransition where
  applied : Bool
  reason : TransitionReason
  record : Option AgentRecord
  notice : Option AgentCompletionNotice := none

/-- `WorkspaceLeaseSnapshot`, as far as the control plane reads it. -/
structure WorkspaceLeaseSnapshot where
  workspaceRef : Option String
  artifactRefs : List String
  changeSetRef : Option String

structure MultiAgentControl where
  registry : AgentRegistry
  facts : List AgentFact
  notices : List AgentCompletionNotice
  notifiedRounds : List (AgentRef × Nat)
  factSequence : Nat

/-- Who may control which agents. -/
abbrev AgentAuthority := ControlCaller → AgentRecord → Bool

/-- `DefaultAgentAuthorityPolicy.allows_control`. -/
def defaultAuthority : AgentAuthority
  | .host, _ => true
  | .agent ref, target => target.path.isWithin ref.path

namespace MultiAgentControl

def initial : MultiAgentControl := ⟨.initial, [], [], [], 0⟩

/-- `_emit_fact`. -/
def emitFact (c : MultiAgentControl) (kind : AgentFactKind) (record : AgentRecord)
    (progress : Option AgentProgress) (terminal : Option TerminalPayload) : MultiAgentControl :=
  { c with
    facts := c.facts ++ [⟨c.factSequence + 1, kind, record.ref, record.parentRef, record.agentType,
      record.status, record.roundId, progress, terminal, record.workspaceRef, record.artifactRefs,
      record.changeSetRef⟩]
    factSequence := c.factSequence + 1 }

/-- `_publish_notice`. -/
def publishNotice (c : MultiAgentControl) (notice : AgentCompletionNotice) : MultiAgentControl :=
  { c with notices := c.notices ++ [notice] }

/-- `_validate_caller`. -/
def validateCaller (c : MultiAgentControl) : ControlCaller → Except ControlError (Option AgentRecord)
  | .host => .ok none
  | .agent ref =>
    match c.registry.getOpen? ref with
    | none => .error (.rejected "stale_caller")
    | some record => .ok (some record)

/-- `_require_path`. -/
def requirePath (c : MultiAgentControl) (path : AgentPath) : Except ControlError AgentRecord :=
  match c.registry.current path with
  | some record => .ok record
  | none =>
    .error (.rejected (if (c.registry.records.get? path).isSome then "agent_not_addressable"
      else "agent_not_found"))

section

variable (types : AgentTypeRegistry) (authority : AgentAuthority) (limits : ControlLimits)

/-- `_require_control`. -/
def requireControl (caller : ControlCaller) (target : AgentRecord) : Except ControlError Unit :=
  if authority caller target then .ok () else .error (.rejected "agent_authority_denied")

/-- The check of `check_spawn` on the caller's own type. -/
def requireSpawner (caller : Option AgentRecord) : Except ControlError Unit :=
  match caller with
  | none => .ok ()
  | some record =>
    if record.path = .root then .ok ()
    else if (types.resolve record.agentType.val).any AgentTypeSpec.canSpawn then .ok ()
    else .error (.rejected "spawn_not_allowed")

/-- `check_spawn`. -/
def checkSpawn (c : MultiAgentControl) (caller : ControlCaller) (parentPath : AgentPath)
    (agentType : String) : Except ControlError AgentRecord := do
  let callerRecord ← c.validateCaller caller
  let parent ← c.requirePath parentPath
  requireControl authority caller parent
  match types.resolve agentType with
  | none => .error (.rejected "invalid_agent_type")
  | some spec =>
    requireSpawner types callerRecord
    if parent.path.depth + 1 > limits.maxSpawnDepth then .error (.rejected "agent_depth_exceeded")
    else if c.registry.openCount + c.registry.reservedCount ≥ limits.maxOpenAgents then
      .error (.rejected "agent_limit_reached")
    else
      let children ← c.registry.children parent.ref
      if (children.filter fun record => record.agentType.val = agentType).length ≥ spec.maximumChildren then
        .error (.rejected "agent_type_limit_reached")
      else .ok parent

/-- `spawn`. -/
def spawn (c : MultiAgentControl) (caller : ControlCaller) (parentPath : AgentPath)
    (name agentType : String) : Except ControlError AgentRecord × MultiAgentControl :=
  match c.checkSpawn types authority limits caller parentPath agentType with
  | .error error => (.error error, c)
  | .ok parent =>
    match c.registry.reserve parent.ref name agentType with
    | .error error => (.error error, c)
    | .ok (reservation, registry) =>
      match registry.commit reservation with
      | (.error error, registry) => (.error error, { c with registry })
      | (.ok record, registry) => (.ok record, { c with registry }.emitFact .spawned record none none)

/-- `plan_close_tree`. -/
def planCloseTree (c : MultiAgentControl) (caller : ControlCaller) (target : AgentPath) :
    Except ControlError (List AgentRecord) := do
  let _ ← c.validateCaller caller
  let record ← c.requirePath target
  requireControl authority caller record
  .ok ((c.registry.subtree record.ref).mergeSort fun item other => other.path.depth ≤ item.path.depth)

end

/-- `begin_round`. -/
def beginRound (c : MultiAgentControl) (ref : AgentRef) :
    Except ControlError AgentTransition × MultiAgentControl :=
  match c.registry.get? ref with
  | none => (.ok { applied := false, reason := .staleRef, record := none }, c)
  | some current =>
    if current.status = .closed then (.ok { applied := false, reason := .closed, record := some current }, c)
    else if current.status = .running then
      (.ok { applied := false, reason := .invalidState, record := some current }, c)
    else
      match c.registry.update ref { status := some .running, roundId := some (current.roundId + 1) } with
      | .error error => (.error error, c)
      | .ok (record, registry) =>
        (.ok { applied := true, reason := .applied, record := some record },
          { c with registry }.emitFact .statusChanged record none none)

/-- `_active_round`. -/
def activeRound (c : MultiAgentControl) (ref : AgentRef) (roundId : Int) :
    Except TransitionReason AgentRecord :=
  match c.registry.get? ref with
  | none => .error .staleRef
  | some current =>
    if current.status = .closed then .error .closed
    else if (current.roundId : Int) ≠ roundId then .error .staleRound
    else if current.status ≠ .running then .error .invalidState
    else .ok current

/-- The arguments of `record_progress` after the round; `summary` is there unless it is kept. -/
structure ProgressUpdate where
  latestInputTokens : Option Int
  outputTokensDelta : Int
  toolUsesDelta : Int
  recentActivity : Option String
  summary : Option (Option String)

/-- `record_progress`. -/
def recordProgress (c : MultiAgentControl) (ref : AgentRef) (roundId : Int) (update : ProgressUpdate) :
    Except ControlError AgentTransition × MultiAgentControl :=
  match c.activeRound ref roundId with
  | .error reason => (.ok { applied := false, reason, record := c.registry.records.get? ref.path }, c)
  | .ok current =>
    if update.latestInputTokens.any (· < 0) then (.error .value, c)
    else if update.outputTokensDelta < 0 then (.error .value, c)
    else if update.toolUsesDelta < 0 then (.error .value, c)
    else
      let previous := current.progress
      let progress : AgentProgress :=
        { usage :=
            { latestInputTokens := (update.latestInputTokens.map Int.toNat).getD previous.usage.latestInputTokens
              cumulativeOutputTokens :=
                previous.usage.cumulativeOutputTokens + update.outputTokensDelta.toNat }
          toolUses := previous.toolUses + update.toolUsesDelta.toNat
          recentActivity := update.recentActivity.or previous.recentActivity
          summary := update.summary.getD previous.summary }
      match c.registry.update ref { progress := some progress } with
      | .error error => (.error error, c)
      | .ok (record, registry) =>
        (.ok { applied := true, reason := .applied, record := some record },
          { c with registry }.emitFact .progress record (some progress) none)

/-- `bind_workspace`. -/
def bindWorkspace (c : MultiAgentControl) (ref : AgentRef) (workspaceRef : String) :
    Except ControlError AgentRecord × MultiAgentControl :=
  if (PyStr.ofString workspaceRef).strip.points = [] then (.error .value, c)
  else
    match c.registry.update ref { workspace := some (some workspaceRef, none) } with
    | .error error => (.error error, c)
    | .ok (record, registry) => (.ok record, { c with registry }.emitFact .workspace record none none)

/-- `record_workspace_snapshot`. -/
def recordWorkspaceSnapshot (c : MultiAgentControl) (ref : AgentRef) (snapshot : WorkspaceLeaseSnapshot) :
    Except ControlError AgentRecord × MultiAgentControl :=
  match c.registry.update ref
      { artifactRefs := some snapshot.artifactRefs
        workspace := some (snapshot.workspaceRef, snapshot.changeSetRef) } with
  | .error error => (.error error, c)
  | .ok (record, registry) => (.ok record, { c with registry }.emitFact .workspace record none none)

/-- The arguments of `finish_round` after the round. -/
structure RoundResult where
  status : TerminalStatus
  finalMessage : String
  durationMs : Int
  summary : Option String := none
  workspaceRef : Option String := none
  artifactRefs : List String := []
  changeSetRef : Option String := none

/-- The notice of a finished round. -/
def completionNotice (record : AgentRecord) (recipient : AgentRef) (terminal : TerminalPayload) :
    AgentCompletionNotice :=
  ⟨record.ref.text ++ ":" ++ toString record.roundId, record.ref, recipient, record.roundId, terminal,
    record.progress.summary, record.workspaceRef, record.artifactRefs, record.changeSetRef⟩

/-- The progress a finished round ends with. -/
def finishedProgress (previous : AgentProgress) : Option String → AgentProgress
  | none => previous
  | some summary => { previous with summary := some summary }

/-- `finish_round`. The payload is built after the registry is updated. -/
def finishRound (c : MultiAgentControl) (ref : AgentRef) (roundId : Int) (result : RoundResult) :
    Except ControlError AgentTransition × MultiAgentControl :=
  match c.registry.get? ref with
  | none => (.ok { applied := false, reason := .staleRef, record := none }, c)
  | some current =>
    if current.status = .closed then (.ok { applied := false, reason := .closed, record := some current }, c)
    else if (current.roundId : Int) ≠ roundId then
      (.ok { applied := false, reason := .staleRound, record := some current }, c)
    else if current.status = .completed ∨ current.status = .failed ∨ current.status = .interrupted then
      (.ok
        { applied := false
          reason := if (ref, current.roundId) ∈ c.notifiedRounds then .duplicate else .invalidState
          record := some current }, c)
    else if current.status ≠ .running then
      (.ok { applied := false, reason := .invalidState, record := some current }, c)
    else
      let progress := finishedProgress current.progress result.summary
      match c.registry.update ref
          { status := some result.status.status, progress := some progress
            artifactRefs := some result.artifactRefs
            workspace := some (result.workspaceRef, result.changeSetRef) } with
      | .error error => (.error error, c)
      | .ok (record, registry) =>
        match terminalPayload result.status result.finalMessage progress result.durationMs with
        | .error error => (.error error, { c with registry })
        | .ok terminal =>
          let c := { c with registry, notifiedRounds := c.notifiedRounds ++ [(ref, current.roundId)] }
          let c := c.emitFact .terminal record (some progress) (some terminal)
          match record.parentRef with
          | none => (.ok { applied := true, reason := .applied, record := some record }, c)
          | some recipient =>
            let notice := completionNotice record recipient terminal
            (.ok { applied := true, reason := .applied, record := some record, notice := some notice },
              c.publishNotice notice)

/-- `record_interrupted`. -/
def recordInterrupted (c : MultiAgentControl) (ref : AgentRef) (roundId : Int) (summary : Option String) :
    Except ControlError AgentTransition × MultiAgentControl :=
  c.finishRound ref roundId
    { status := .interrupted, finalMessage := "Agent run interrupted.", durationMs := 0, summary }

/-- `commit_closed`. -/
def commitClosed (c : MultiAgentControl) (ref : AgentRef) :
    Except ControlError AgentTransition × MultiAgentControl :=
  match c.registry.get? ref with
  | none => (.ok { applied := false, reason := .staleRef, record := none }, c)
  | some current =>
    if current.status = .closed then
      (.ok { applied := false, reason := .duplicate, record := some current }, c)
    else
      match c.registry.close ref with
      | .error error => (.error error, c)
      | .ok (record, registry) =>
        (.ok { applied := true, reason := .applied, record := some record },
          { c with registry }.emitFact .closed record none none)

end MultiAgentControl

/-! ## The calls -/

inductive ControlCall where
  | spawn (caller : ControlCaller) (parentPath : AgentPath) (name agentType : String)
  | beginRound (ref : AgentRef)
  | recordProgress (ref : AgentRef) (roundId : Int) (update : MultiAgentControl.ProgressUpdate)
  | bindWorkspace (ref : AgentRef) (workspaceRef : String)
  | recordWorkspaceSnapshot (ref : AgentRef) (snapshot : WorkspaceLeaseSnapshot)
  | finishRound (ref : AgentRef) (roundId : Int) (result : MultiAgentControl.RoundResult)
  | recordInterrupted (ref : AgentRef) (roundId : Int) (summary : Option String)
  | commitClosed (ref : AgentRef)

inductive ControlAnswer where
  | record (record : AgentRecord)
  | transition (transition : AgentTransition)

section

variable (types : AgentTypeRegistry) (authority : AgentAuthority) (limits : ControlLimits)

def runCall (c : MultiAgentControl) (call : ControlCall) : Except ControlError ControlAnswer × MultiAgentControl :=
  match call with
  | .spawn caller parentPath name agentType =>
    (c.spawn types authority limits caller parentPath name agentType).map (·.map .record) id
  | .beginRound ref => (c.beginRound ref).map (·.map .transition) id
  | .recordProgress ref roundId update => (c.recordProgress ref roundId update).map (·.map .transition) id
  | .bindWorkspace ref workspaceRef => (c.bindWorkspace ref workspaceRef).map (·.map .record) id
  | .recordWorkspaceSnapshot ref snapshot => (c.recordWorkspaceSnapshot ref snapshot).map (·.map .record) id
  | .finishRound ref roundId result => (c.finishRound ref roundId result).map (·.map .transition) id
  | .recordInterrupted ref roundId summary =>
    (c.recordInterrupted ref roundId summary).map (·.map .transition) id
  | .commitClosed ref => (c.commitClosed ref).map (·.map .transition) id

/-- The control plane of one tree. -/
def agentTree : Machine MultiAgentControl ControlCall (Except ControlError ControlAnswer) :=
  ⟨runCall types authority limits⟩

end

end Loushang.Multiagent
