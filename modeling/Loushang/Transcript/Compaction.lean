import Loushang.Lib.Run
import Loushang.Transcript.Planner

/-!
# Turn-aware compaction of a transcript

The record semantics of `transcript/profile.py`, the planner and the preparation of
`transcript/compaction.py`, and a transcript that grows by appends and compactions. A record that
shows text holds the text it shows; kinds with neither role nor context are one kind. The token
estimates are a parameter. The reduced state, timestamps, provider windows and the details of a
preparation are left out.
-/
namespace Loushang.Transcript
open Loushang.Lib

/-- `UserMessage`, `AssistantMessage` and `ToolResultMessage`, with their texts and call ids. -/
inductive AgentMessage where
  | user (text : String)
  | assistant (text : String) (toolCallIds : List String)
  | toolResult (toolCallId : String) (text : String)
  deriving DecidableEq

def AgentMessage.role : AgentMessage → String
  | .user _ => "user"
  | .assistant _ _ => "assistant"
  | .toolResult _ _ => "toolResult"

/-- A record's decoded payload, by the kinds of `_register_default_semantics`. -/
inductive Payload where
  | agentMessage (message : AgentMessage)
  | commandExecution (shown : String) (excludeFromContext : Bool)
  | compactionCheckpoint (firstKeptRecordId summary : String)
  | branchSummary (summary : String)
  | applicationMessage (text : String)
  | inert
  deriving DecidableEq

structure TranscriptRecord where
  recordId : String
  payload : Payload

/-- An item of the context: a message as it stands, or a text told as the user's. -/
inductive ContextItem where
  | message (message : AgentMessage)
  | application (text : String)
  | told (text : String)

def compactionSummaryPrefix : String :=
  "The conversation history before this point was compacted into the following summary:\n\n<summary>\n"
def compactionSummarySuffix : String := "\n</summary>"
def branchSummaryPrefix : String :=
  "The following is a summary of a branch that this conversation came back from:\n\n<summary>\n"
def branchSummarySuffix : String := "</summary>"

namespace TranscriptRecord

/-- `record_to_context_item`. -/
def contextItem? (record : TranscriptRecord) : Option ContextItem :=
  match record.payload with
  | .agentMessage message => some (.message message)
  | .commandExecution shown exclude => if exclude then none else some (.told shown)
  | .branchSummary summary => some (.told (branchSummaryPrefix ++ summary ++ branchSummarySuffix))
  | .applicationMessage text => some (.application text)
  | .compactionCheckpoint _ _ => none
  | .inert => none

/-- `record_is_visible`. -/
def isVisible (record : TranscriptRecord) : Bool := record.contextItem?.isSome

/-- `record_role`. -/
def role (record : TranscriptRecord) : Option String :=
  match record.payload with
  | .agentMessage message => some message.role
  | .commandExecution _ _ => some "user"
  | .branchSummary _ => some "user"
  | .applicationMessage _ => some "user"
  | .compactionCheckpoint _ _ => none
  | .inert => none

/-- `separates_cut_group`. -/
def separatesCutGroup (record : TranscriptRecord) : Bool :=
  match record.payload with
  | .agentMessage _ => true
  | .compactionCheckpoint _ _ => true
  | _ => false

/-- `resolve_checkpoint`. -/
def checkpoint? (record : TranscriptRecord) : Option (Checkpoint ContextItem) :=
  match record.payload with
  | .compactionCheckpoint firstKept summary =>
    some ⟨firstKept, .told (compactionSummaryPrefix ++ summary ++ compactionSummarySuffix)⟩
  | _ => none

/-- `previous_summary`. -/
def previousSummary? (record : TranscriptRecord) : Option (PreviousSummary String) :=
  match record.payload with
  | .compactionCheckpoint firstKept summary => some ⟨firstKept, summary, 0⟩
  | _ => none

def isCheckpoint (record : TranscriptRecord) : Bool := record.checkpoint?.isSome

end TranscriptRecord

/-- `replay_ports`. -/
def replayPorts : ReplayPorts TranscriptRecord ContextItem Unit where
  recordId := TranscriptRecord.recordId
  projectVisibleItem := TranscriptRecord.contextItem?
  initializeState := ()
  reduceState := fun _ _ => ()
  resolveCheckpoint := some TranscriptRecord.checkpoint?

/-- `replay_projection`. -/
def replayProjection (records : List TranscriptRecord) : Except String (ReplayProjection ContextItem Unit) :=
  replay replayPorts true records

/-- How many tokens a record and a context are estimated at. -/
structure TokenEstimates where
  record : TranscriptRecord → Nat
  context : List ContextItem → Nat

section

variable (tokens : TokenEstimates)

/-- `record_ports`. -/
def recordPorts : RecordPorts TranscriptRecord String where
  recordId := TranscriptRecord.recordId
  isVisible := TranscriptRecord.isVisible
  role := TranscriptRecord.role
  estimateTokens := tokens.record
  estimateContextTokens := some fun records => tokens.context (records.filterMap TranscriptRecord.contextItem?)
  separatesCutGroup := some TranscriptRecord.separatesCutGroup
  previousSummary := some TranscriptRecord.previousSummary?

/-- `_turn_aware_planner`. -/
def turnAwareOptions : PlannerOptions := ⟨["user"], ["toolResult"], true⟩

/-- `CompactionPlan` of `transcript/maintenance.py`. -/
structure TranscriptPlan where
  previousCompactionId : Option String
  previousFirstKeptEntryId : Option String
  firstKeptEntryId : String
  summarizedEntryIds : List String
  turnPrefixEntryIds : List String
  keptEntryIds : List String
  isSplitTurn : Bool
  tokensBefore : Nat
  keepRecentTokens : Nat

/-- The checkpoint that `_previous_first_kept_entry_id` and `_previous_summary` look up. -/
def checkpointPayload (entries : List TranscriptRecord) (id : String) : Option (PreviousSummary String) :=
  entries.findSome? fun entry => if entry.recordId = id then entry.previousSummary? else none

/-- `plan_turn_aware_compaction`. -/
def planTurnAwareCompaction (entries : List TranscriptRecord) (keepRecentTokens : Int) :
    Except String TranscriptPlan :=
  if keepRecentTokens < 0 then .error "keep_recent_tokens must be a non-negative integer"
  else if entries.any TranscriptRecord.isVisible then
    (plan (recordPorts tokens) turnAwareOptions entries keepRecentTokens).map fun shared =>
      let previousId := shared.previousSummary.map SummaryBoundary.recordId
      { previousCompactionId := previousId
        previousFirstKeptEntryId :=
          (previousId.bind (checkpointPayload entries)).map PreviousSummary.firstKeptRecordId
        firstKeptEntryId := shared.firstKeptRecordId
        summarizedEntryIds := shared.summarizedRecordIds
        turnPrefixEntryIds := shared.turnPrefixRecordIds
        keptEntryIds := shared.keptRecordIds
        isSplitTurn := shared.isSplitTurn
        tokensBefore := shared.tokensBefore
        keepRecentTokens := shared.keepRecentTokens }
  else .error "Compaction requires at least one visible message entry."

/-- `CompactionPreparation`. -/
structure CompactionPreparation where
  firstKeptEntryId : String
  messagesToSummarize : List ContextItem
  turnPrefixMessages : List ContextItem
  isSplitTurn : Bool
  tokensBefore : Nat
  previousSummary : Option String
  plan : TranscriptPlan

/-- The context items of the entries with these ids. -/
def messagesOf (entries : List TranscriptRecord) (ids : List String) : List ContextItem :=
  ids.flatMap fun id => (entries.filter fun entry => entry.recordId = id).filterMap TranscriptRecord.contextItem?

/-- `prepare_turn_aware_compaction`. -/
def prepareTurnAwareCompaction (entries : List TranscriptRecord) (keepRecentTokens : Int) :
    Except String CompactionPreparation :=
  (planTurnAwareCompaction tokens entries keepRecentTokens).map fun plan =>
    { firstKeptEntryId := plan.firstKeptEntryId
      messagesToSummarize := messagesOf entries plan.summarizedEntryIds
      turnPrefixMessages := messagesOf entries plan.turnPrefixEntryIds
      isSplitTurn := plan.isSplitTurn
      tokensBefore := plan.tokensBefore
      previousSummary := (plan.previousCompactionId.bind (checkpointPayload entries)).map PreviousSummary.content
      plan }

/-! ## A transcript that is compacted -/

/-- The records of one path, and the ids that were handed to each summary so far. -/
structure ActivePath where
  path : List TranscriptRecord
  handed : List (List String)

def ActivePath.empty : ActivePath := ⟨[], []⟩

/-- A record whose id is blank or used is turned away; checkpoints come from compactions only. -/
def ActivePath.admits (t : ActivePath) (record : TranscriptRecord) : Bool :=
  !isBlankText record.recordId && record.recordId ∉ t.path.map TranscriptRecord.recordId

inductive TranscriptInput where
  | append (record : TranscriptRecord)
  | compact (keepRecentTokens : Int) (checkpointId summary : String)

/-- An append, or a compaction whose checkpoint is committed before anything else is appended. -/
def ActivePath.step (t : ActivePath) : TranscriptInput → Option CompactionPreparation × ActivePath
  | .append record =>
    if t.admits record && !record.isCheckpoint then (none, { t with path := t.path ++ [record] }) else (none, t)
  | .compact keepRecentTokens checkpointId summary =>
    match prepareTurnAwareCompaction tokens t.path keepRecentTokens with
    | .error _ => (none, t)
    | .ok preparation =>
      let record : TranscriptRecord := ⟨checkpointId, .compactionCheckpoint preparation.firstKeptEntryId summary⟩
      if t.admits record then
        (some preparation, ⟨t.path ++ [record],
          t.handed ++ [preparation.plan.summarizedEntryIds ++ preparation.plan.turnPrefixEntryIds]⟩)
      else (none, t)

def compactedTranscript : Machine ActivePath TranscriptInput (Option CompactionPreparation) :=
  ⟨ActivePath.step tokens⟩

end

end Loushang.Transcript
