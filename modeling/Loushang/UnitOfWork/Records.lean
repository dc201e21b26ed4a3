import Loushang.Lib.Dict
import Loushang.Lib.Json
import Loushang.Transcript.Planner

/-!
# Transcript records and their payloads

The records a transcript unit of work keeps: `conversation/types.py` and `transcript/types.py`, with
the fields that replay, lineage checks and commits read. Bodies of messages and provider windows are
carried along unread, so they are of any type. Metadata and payload versions are left out.
-/
namespace Loushang.UnitOfWork
open Loushang.Lib Loushang.Transcript

/-- `ModelSelectionSnapshot`. -/
structure ModelSelection where
  provider : String
  endpointId : String
  modelId : String
  deriving DecidableEq

/-- `CommandExecutionRecord`; its blobs are known by their logical names. -/
structure CommandExecution where
  command : String
  output : String
  exitCode : Option Int
  cancelled : Bool
  truncated : Bool
  fullOutputPath : Option String
  excludeFromContext : Bool
  stdoutBlob : Option String
  stderrBlob : Option String
  fullOutputBlob : Option String
  deriving DecidableEq

/-- `output_blobs`. -/
def CommandExecution.outputBlobs (command : CommandExecution) : List String :=
  [command.stdoutBlob, command.stderrBlob, command.fullOutputBlob].filterMap id

inductive AnnotationOperation where
  | set (value : Json)
  | remove
  deriving DecidableEq

/-- What a prepared Model Input snapshot says of its call. -/
structure SnapshotFacts where
  snapshotId : String
  invocationId : String
  attempt : Int
  purpose : String
  deriving DecidableEq

/-- `ModelCallOutcome`. -/
structure OutcomeFacts where
  invocationId : String
  modelInputSnapshotIds : List String
  deriving DecidableEq

/-- `ModelCallAttemptUsage`. -/
structure UsageFacts where
  invocationId : String
  attempt : Int
  modelInputSnapshotId : String
  terminal : Bool
  deriving DecidableEq

/-- A class, as the names on the way down to it from `object`. -/
abbrev PayloadType := List String

/-- A decoded payload by the standard class it belongs to; `other` is of any further class. -/
inductive Payload (B : Type) where
  | userMessage (body : B)
  | assistantMessage (body : B) (selection : ModelSelection)
  | toolResultMessage (body : B)
  | thinkingSelection (level : String)
  | modelSelection (selection : ModelSelection)
  | commandExecution (command : CommandExecution)
  | compactionCheckpoint (summary firstKeptRecordId : String) (modelInputSnapshotIds : List String)
      (providerWindow : Option B)
  | branchSummary (summary : String) (modelInputSnapshotIds : List String)
  | applicationMessage (body : B)
  | extensionData
  | annotationPatch (targetRecordId annotationNamespace : String) (operation : AnnotationOperation)
  | metadataPatch (values : Dict String Json) (removedKeys : List String)
  | modelInputComponent
  | modelInputNodeBundle
  | modelInputSnapshot (facts : SnapshotFacts)
  | modelInputSnapshotV2 (facts : SnapshotFacts)
  | modelCallOutcome (facts : OutcomeFacts)
  | modelCallAttemptUsage (facts : UsageFacts)
  | opaquePayload
  | other (className : String)
  deriving DecidableEq

def Payload.standardType {B : Type} : Payload B → PayloadType
  | .userMessage _ => ["UserMessage"]
  | .assistantMessage _ _ => ["AssistantMessage"]
  | .toolResultMessage _ => ["ToolResultMessage"]
  | .thinkingSelection _ => ["ThinkingSelectionSnapshot"]
  | .modelSelection _ => ["ModelSelectionSnapshot"]
  | .commandExecution _ => ["CommandExecutionRecord"]
  | .compactionCheckpoint _ _ _ _ => ["ContextCompactionCheckpoint"]
  | .branchSummary _ _ => ["BranchContextSummary"]
  | .applicationMessage _ => ["CustomAgentMessage", "ApplicationMessage"]
  | .extensionData => ["ExtensionData"]
  | .annotationPatch _ _ _ => ["RecordAnnotationPatch"]
  | .metadataPatch _ _ => ["ConversationMetadataPatch"]
  | .modelInputComponent => ["ModelInputComponent"]
  | .modelInputNodeBundle => ["ModelInputNodeBundle"]
  | .modelInputSnapshot _ => ["ModelInputSnapshot"]
  | .modelInputSnapshotV2 _ => ["ModelInputSnapshotV2"]
  | .modelCallOutcome _ => ["ModelCallOutcome"]
  | .modelCallAttemptUsage _ => ["ModelCallAttemptUsage"]
  | .opaquePayload => ["OpaquePayload"]
  | .other className => [className]

/-- A payload object: an instance of its standard class or of classes derived from it. -/
structure DecodedPayload (B : Type) where
  content : Payload B
  derivation : List String
  deriving DecidableEq

namespace DecodedPayload

variable {B : Type} (payload : DecodedPayload B)

/-- `type(payload)`. -/
def type : PayloadType := payload.content.standardType ++ payload.derivation

/-- `isinstance(payload, types)`. -/
def isInstance (types : List PayloadType) : Bool := types.any (·.isPrefixOf payload.type)

def isOpaque : Bool :=
  match payload.content with
  | .opaquePayload => true
  | _ => false

/-- A `ContextCompactionCheckpoint`'s provider window; none for any other payload. -/
def checkpointWindow? : Option (Option B) :=
  match payload.content with
  | .compactionCheckpoint _ _ _ window => some window
  | _ => none

def outcome? : Option OutcomeFacts :=
  match payload.content with
  | .modelCallOutcome facts => some facts
  | _ => none

end DecodedPayload

/-- `AgentTranscriptRecord`, whose id is never blank. -/
structure TranscriptRecord (B : Type) where
  recordId : String
  parentId : Option String
  kind : String
  createdAt : String
  payload : DecodedPayload B
  recordIdText : isBlankText recordId = false
  deriving DecidableEq

/-- Object identity of records: two references to one object read the same. -/
structure ObjectIdentity (R : Type) where
  same : R → R → Bool
  reads : ∀ a b, same a b = true → a = b

/-! ## Record kinds -/

def agentMessageKind : String := "agent.message"
def thinkingSelectionKind : String := "agent.thinking_selection"
def modelSelectionKind : String := "agent.model_selection"
def commandExecutionKind : String := "command.execution"
def contextCompactionCheckpointKind : String := "context.compaction_checkpoint"
def contextBranchSummaryKind : String := "context.branch_summary"
def applicationMessageKind : String := "application.message"
def extensionDataKind : String := "extension.data"
def recordAnnotationPatchKind : String := "record.annotation_patch"
def conversationMetadataPatchKind : String := "conversation.metadata_patch"
def modelInputComponentKind : String := "model.input.component"
def modelInputPreparedKind : String := "model.input.prepared"
def modelCallOutcomeKind : String := "model.call.outcome"
def modelCallAttemptUsageKind : String := "model.call.attempt_usage"

end Loushang.UnitOfWork
