import Loushang.Transcript.RaisingReplay
import Loushang.UnitOfWork.Records

/-!
# The transcript profile

`transcript/profile.py`: what each kind of record means to a replay. Semantics that a product
registers may read anything outside, so their functions take the moment at which they are called;
the built-in ones do not. Roles, token estimates, cut groups and previous summaries are left out.
-/
namespace Loushang.UnitOfWork
open Loushang.Lib Loushang.Transcript

/-- An item of the context: a payload as it stands, or a text told as the user's. -/
inductive ContextItem (B τ : Type) where
  | payload (payload : DecodedPayload B)
  | told (text : String) (timestamp : τ)

/-- `AgentTranscriptState`. -/
structure TranscriptState where
  thinkingSelection : String
  modelSelection : Option ModelSelection
  conversationMetadata : Dict String Json
  annotations : Dict String (Dict String Json)

def TranscriptState.initial : TranscriptState := ⟨"off", none, .empty, .empty⟩

/-- `AgentTranscriptContext`. -/
structure TranscriptContext (B τ : Type) where
  messages : List (ContextItem B τ)
  state : TranscriptState
  providerWindow : Option B

inductive ProfileFault where
  | unexpectedPayload (kind : String) (payloadType : PayloadType)
  | raised (message : String)

/-- `RecordSemantics`, whose functions are called at a moment. -/
structure RecordSemantics (W B τ : Type) where
  payloadTypes : List PayloadType
  projectContext : Option (W → TranscriptRecord B → Except ProfileFault (Option (ContextItem B τ))) := none
  reduceState : Option (W → TranscriptState → TranscriptRecord B → Except ProfileFault TranscriptState) := none
  resolveCheckpoint :
    Option (W → TranscriptRecord B → Except ProfileFault (Option (Checkpoint (ContextItem B τ)))) := none

/-! ## Built-in reducers and projectors -/

def compactionSummaryPrefix : String :=
  "The conversation history before this point was compacted into the following summary:\n\n<summary>\n"
def compactionSummarySuffix : String := "\n</summary>"
def branchSummaryPrefix : String :=
  "The following is a summary of a branch that this conversation came back from:\n\n<summary>\n"
def branchSummarySuffix : String := "</summary>"

/-- `command_execution_to_text`. -/
def commandExecutionToText (command : CommandExecution) : String :=
  let output := if command.output = "" then "(no output)" else "```\n" ++ command.output ++ "\n```"
  let ending :=
    if command.cancelled then "\n\n(command cancelled)"
    else
      match command.exitCode with
      | none => ""
      | some code => if code = 0 then "" else "\n\nCommand exited with code " ++ toString code
  let retained := command.outputBlobs
  let truncation :=
    if command.truncated && !retained.isEmpty then
      "\n\n[Output truncated. Full output retained as session blob" ++ (if retained.length > 1 then "s" else "") ++
        ": " ++ ", ".intercalate retained ++ "]"
    else if command.truncated && command.fullOutputPath.any (· ≠ "") then
      "\n\n[Output truncated. Legacy full output is not portable.]"
    else ""
  "Ran `" ++ command.command ++ "`\n" ++ output ++ ending ++ truncation

section

variable {W B τ : Type}

/-- `_payload_as_agent_message`. -/
def payloadAsAgentMessage (record : TranscriptRecord B) : Except ProfileFault (Option (ContextItem B τ)) :=
  .ok (some (.payload record.payload))

/-- `_reduce_agent_message`; an assistant message's names are not blank, so its snapshot is built. -/
def reduceAgentMessage (state : TranscriptState) (record : TranscriptRecord B) : TranscriptState :=
  match record.payload.content with
  | .assistantMessage _ selection => { state with modelSelection := some selection }
  | _ => state

/-- `_reduce_thinking_selection`. -/
def reduceThinkingSelection (state : TranscriptState) (record : TranscriptRecord B) : TranscriptState :=
  match record.payload.content with
  | .thinkingSelection level => { state with thinkingSelection := level }
  | _ => state

/-- `_reduce_model_selection`. -/
def reduceModelSelection (state : TranscriptState) (record : TranscriptRecord B) : TranscriptState :=
  match record.payload.content with
  | .modelSelection selection => { state with modelSelection := some selection }
  | _ => state

/-- `_reduce_metadata_patch`. -/
def reduceMetadataPatch (state : TranscriptState) (record : TranscriptRecord B) : TranscriptState :=
  match record.payload.content with
  | .metadataPatch values removedKeys =>
    let metadata := state.conversationMetadata.update values.entries
    { state with conversationMetadata := removedKeys.foldl Dict.pop metadata }
  | _ => state

/-- `_reduce_annotation_patch`. -/
def reduceAnnotationPatch (state : TranscriptState) (record : TranscriptRecord B) : TranscriptState :=
  match record.payload.content with
  | .annotationPatch target annotationNamespace operation =>
    let own := (state.annotations.get? target).getD .empty
    match operation with
    | .set value => { state with annotations := state.annotations.set target (own.set annotationNamespace value) }
    | .remove =>
      let left := own.pop annotationNamespace
      if left.keys = [] then { state with annotations := state.annotations.pop target }
      else { state with annotations := state.annotations.set target left }
  | _ => state

variable (timestampFromIso : String → Except String τ)

/-- `_user_message`. -/
def userMessage (text createdAt : String) : Except ProfileFault (ContextItem B τ) :=
  match timestampFromIso createdAt with
  | .error message => .error (.raised message)
  | .ok timestamp => .ok (.told text timestamp)

/-- `_project_command`. -/
def projectCommand (record : TranscriptRecord B) : Except ProfileFault (Option (ContextItem B τ)) :=
  match record.payload.content with
  | .commandExecution command =>
    if command.excludeFromContext then .ok none
    else (userMessage timestampFromIso (commandExecutionToText command) record.createdAt).map some
  | _ => .ok none

/-- `_project_branch_summary`. -/
def projectBranchSummary (record : TranscriptRecord B) : Except ProfileFault (Option (ContextItem B τ)) :=
  match record.payload.content with
  | .branchSummary summary _ =>
    (userMessage timestampFromIso (branchSummaryPrefix ++ summary ++ branchSummarySuffix) record.createdAt).map some
  | _ => .ok none

/-- `_resolve_compaction_checkpoint`. -/
def resolveCompactionCheckpoint (record : TranscriptRecord B) :
    Except ProfileFault (Option (Checkpoint (ContextItem B τ))) :=
  match record.payload.content with
  | .compactionCheckpoint summary firstKept _ _ =>
    (userMessage timestampFromIso (compactionSummaryPrefix ++ summary ++ compactionSummarySuffix)
      record.createdAt).map fun item => some ⟨firstKept, item⟩
  | _ => .ok none

end

/-! ## Semantics by kind -/

/-- The objects `_register_default_semantics` builds, one for each standard kind. -/
inductive BuiltinSemantics where
  | agentMessage
  | thinkingSelection
  | modelSelection
  | commandExecution
  | contextCompactionCheckpoint
  | contextBranchSummary
  | applicationMessage
  | extensionData
  | recordAnnotationPatch
  | conversationMetadataPatch
  | modelInputComponent
  | modelInputPrepared
  | modelCallOutcome
  | modelCallAttemptUsage
  deriving DecidableEq

def BuiltinSemantics.all : List BuiltinSemantics :=
  [.agentMessage, .thinkingSelection, .modelSelection, .commandExecution, .contextCompactionCheckpoint,
    .contextBranchSummary, .applicationMessage, .extensionData, .recordAnnotationPatch,
    .conversationMetadataPatch, .modelInputComponent, .modelInputPrepared, .modelCallOutcome,
    .modelCallAttemptUsage]

def BuiltinSemantics.kind : BuiltinSemantics → String
  | .agentMessage => agentMessageKind
  | .thinkingSelection => thinkingSelectionKind
  | .modelSelection => modelSelectionKind
  | .commandExecution => commandExecutionKind
  | .contextCompactionCheckpoint => contextCompactionCheckpointKind
  | .contextBranchSummary => contextBranchSummaryKind
  | .applicationMessage => applicationMessageKind
  | .extensionData => extensionDataKind
  | .recordAnnotationPatch => recordAnnotationPatchKind
  | .conversationMetadataPatch => conversationMetadataPatchKind
  | .modelInputComponent => modelInputComponentKind
  | .modelInputPrepared => modelInputPreparedKind
  | .modelCallOutcome => modelCallOutcomeKind
  | .modelCallAttemptUsage => modelCallAttemptUsageKind

section

variable {W B τ : Type} (timestampFromIso : String → Except String τ)

def BuiltinSemantics.fields : BuiltinSemantics → RecordSemantics W B τ
  | .agentMessage =>
    { payloadTypes := [["UserMessage"], ["AssistantMessage"], ["ToolResultMessage"]]
      projectContext := some fun _ => payloadAsAgentMessage
      reduceState := some fun _ state record => .ok (reduceAgentMessage state record) }
  | .thinkingSelection =>
    { payloadTypes := [["ThinkingSelectionSnapshot"]]
      reduceState := some fun _ state record => .ok (reduceThinkingSelection state record) }
  | .modelSelection =>
    { payloadTypes := [["ModelSelectionSnapshot"]]
      reduceState := some fun _ state record => .ok (reduceModelSelection state record) }
  | .commandExecution =>
    { payloadTypes := [["CommandExecutionRecord"]]
      projectContext := some fun _ => projectCommand timestampFromIso }
  | .contextCompactionCheckpoint =>
    { payloadTypes := [["ContextCompactionCheckpoint"]]
      resolveCheckpoint := some fun _ => resolveCompactionCheckpoint timestampFromIso }
  | .contextBranchSummary =>
    { payloadTypes := [["BranchContextSummary"]]
      projectContext := some fun _ => projectBranchSummary timestampFromIso }
  | .applicationMessage =>
    { payloadTypes := [["CustomAgentMessage", "ApplicationMessage"]]
      projectContext := some fun _ => payloadAsAgentMessage }
  | .extensionData => { payloadTypes := [["ExtensionData"]] }
  | .recordAnnotationPatch =>
    { payloadTypes := [["RecordAnnotationPatch"]]
      reduceState := some fun _ state record => .ok (reduceAnnotationPatch state record) }
  | .conversationMetadataPatch =>
    { payloadTypes := [["ConversationMetadataPatch"]]
      reduceState := some fun _ state record => .ok (reduceMetadataPatch state record) }
  | .modelInputComponent => { payloadTypes := [["ModelInputComponent"], ["ModelInputNodeBundle"]] }
  | .modelInputPrepared => { payloadTypes := [["ModelInputSnapshot"], ["ModelInputSnapshotV2"]] }
  | .modelCallOutcome => { payloadTypes := [["ModelCallOutcome"]] }
  | .modelCallAttemptUsage => { payloadTypes := [["ModelCallAttemptUsage"]] }

/-- A semantics object: a built-in one, known by itself, or one a product registered. -/
inductive SemanticsObject (W B τ : Type) where
  | builtin (semantics : BuiltinSemantics)
  | registered (semantics : RecordSemantics W B τ)

def SemanticsObject.fields : SemanticsObject W B τ → RecordSemantics W B τ
  | .builtin semantics => semantics.fields timestampFromIso
  | .registered semantics => semantics

/-- `AgentTranscriptProfile`; `exact` tells that its class is that one and none derived from it. -/
structure Profile (W B τ : Type) where
  exact : Bool
  semantics : Dict String (SemanticsObject W B τ)
  replayRevision : Nat

/-- `_default_replay_semantics`. -/
def defaultReplaySemantics : Dict String (SemanticsObject W B τ) :=
  Dict.empty.update (BuiltinSemantics.all.map fun semantics => (semantics.kind, .builtin semantics))

namespace Profile

/-- `AgentTranscriptProfile()`, or an instance of a derived class. -/
def create (exact : Bool) : Profile W B τ := ⟨exact, defaultReplaySemantics, BuiltinSemantics.all.length⟩

variable (profile : Profile W B τ)

/-- `self._semantics.get(kind) is semantics`, for a built-in object. -/
def holds (semantics : BuiltinSemantics) : Bool :=
  match profile.semantics.get? semantics.kind with
  | some (.builtin own) => own = semantics
  | _ => false

/-- `has_default_replay_semantics`. -/
def hasDefaultReplaySemantics : Bool :=
  profile.exact && profile.semantics.entries.length = BuiltinSemantics.all.length &&
    BuiltinSemantics.all.all profile.holds

/-- `register_record_profile`, with `kind.strip()` looked at only. -/
def registerRecordProfile (kind : String) (semantics : SemanticsObject W B τ) (replace : Bool) :
    Except String (Profile W B τ) :=
  if isBlankText kind then .error "record semantic kind must be a non-empty string"
  else if kind ∈ profile.semantics.keys ∧ ¬replace then .error "record semantics are already registered"
  else .ok { profile with semantics := profile.semantics.set kind semantics, replayRevision := profile.replayRevision + 1 }

/-- `_semantics_for`. -/
def semanticsFor (record : TranscriptRecord B) : Except ProfileFault (Option (RecordSemantics W B τ)) :=
  if record.payload.isOpaque then .ok none
  else
    match profile.semantics.get? record.kind with
    | none => .ok none
    | some object =>
      let semantics := object.fields timestampFromIso
      if record.payload.isInstance semantics.payloadTypes then .ok (some semantics)
      else .error (.unexpectedPayload record.kind record.payload.type)

/-- `record_to_context_item`. -/
def recordToContextItem (moment : W) (record : TranscriptRecord B) :
    Except ProfileFault (Option (ContextItem B τ)) :=
  match profile.semanticsFor timestampFromIso record with
  | .error fault => .error fault
  | .ok semantics =>
    match semantics.bind RecordSemantics.projectContext with
    | none => .ok none
    | some projectContext => projectContext moment record

/-- `reduce_state`. -/
def reduceState (moment : W) (state : TranscriptState) (record : TranscriptRecord B) :
    Except ProfileFault TranscriptState :=
  match profile.semanticsFor timestampFromIso record with
  | .error fault => .error fault
  | .ok semantics =>
    match semantics.bind RecordSemantics.reduceState with
    | none => .ok state
    | some reduceState => reduceState moment state record

/-- `resolve_checkpoint`. -/
def resolveCheckpoint (moment : W) (record : TranscriptRecord B) :
    Except ProfileFault (Option (Checkpoint (ContextItem B τ))) :=
  match profile.semanticsFor timestampFromIso record with
  | .error fault => .error fault
  | .ok semantics =>
    match semantics.bind RecordSemantics.resolveCheckpoint with
    | none => .ok none
    | some resolveCheckpoint => resolveCheckpoint moment record

/-- `replay_ports`. -/
def replayPorts (moment : W) :
    RaisingPorts ProfileFault (TranscriptRecord B) (ContextItem B τ) TranscriptState where
  recordId := TranscriptRecord.recordId
  projectVisibleItem := profile.recordToContextItem timestampFromIso moment
  initializeState := .initial
  reduceState := profile.reduceState timestampFromIso moment
  resolveCheckpoint := profile.resolveCheckpoint timestampFromIso moment

/-- `replay_projection`. -/
def replayProjection (moment : W) (records : List (TranscriptRecord B)) :
    Except (ReplayFault ProfileFault) (ReplayProjection (ContextItem B τ) TranscriptState) :=
  raisingReplay (profile.replayPorts timestampFromIso moment) records

/-- A context whose first item is a checkpoint's summary if a window stands for it. -/
def contextOf (projection : ReplayProjection (ContextItem B τ) TranscriptState) (window : Option B) :
    TranscriptContext B τ :=
  match window with
  | none => ⟨projection.items, projection.state, none⟩
  | some window => ⟨projection.items.tail, projection.state, some window⟩

/-- `replay`. -/
def replay (moment : W) (records : List (TranscriptRecord B)) :
    Except (ReplayFault ProfileFault) (TranscriptContext B τ) :=
  (profile.replayProjection timestampFromIso moment records).map fun projection =>
    contextOf projection (projection.itemRecordIds.head?.bind fun firstId =>
      (records.findSome? fun record =>
        if record.recordId = firstId then record.payload.checkpointWindow? else none).join)

/-- A value whose nested JSON a reader could change. -/
def isNested : Json → Bool
  | .arr _ | .obj _ => true
  | _ => false

/-- The payloads whose projected state would share nested JSON. -/
def sharesNested (record : TranscriptRecord B) : Bool :=
  match record.payload.content with
  | .annotationPatch _ _ (.set value) => isNested value
  | .metadataPatch values _ => values.values.any isNested
  | _ => false

/-- The loop of `supports_incremental_replay`. -/
def supportsAll : List (TranscriptRecord B) → Except ProfileFault Bool
  | [] => .ok true
  | record :: rest =>
    match profile.semanticsFor timestampFromIso record with
    | .error fault => .error fault
    | .ok semantics =>
      -- A derived class can override how its fields are read or projected.
      if semantics.any fun semantics =>
          (semantics.projectContext.isSome || semantics.reduceState.isSome || semantics.resolveCheckpoint.isSome) &&
            record.payload.type ∉ semantics.payloadTypes then .ok false
      else if sharesNested record then .ok false
      else supportsAll rest

/-- `supports_incremental_replay`. -/
def supportsIncrementalReplay (records : List (TranscriptRecord B)) : Except ProfileFault Bool :=
  if profile.hasDefaultReplaySemantics then profile.supportsAll timestampFromIso records else .ok false

end Profile

end

end Loushang.UnitOfWork
