import Loushang.Ai.Messages

/-!
# Pairing tool calls with their results

`transform_messages_result` of `ai/tool/transform.py`: the loop over the messages with its
tables, and the synthetic results of repair mode. The conversion between providers in the
same file is not part of it and is left out.
-/
namespace Loushang.Ai
open Lib

inductive PairingMode where
  | strict
  | repair
  deriving DecidableEq

/-- The local variables of the loop; sets are lists. -/
structure Transformer where
  transformed : List Message := []
  transformedPaths : List String := []
  diagnostics : List NormalizationDiagnostic := []
  pendingToolCalls : List (ObjectId × ToolCall) := []
  pendingToolCallMap : Dict PyStr ToolCall := .empty
  pendingToolCallPaths : Dict ObjectId String := .empty
  existingToolResultIds : List PyStr := []
  closedToolCallIds : List PyStr := []
  toolCallIdMap : Dict PyStr PyStr := .empty

def pairingError {A : Type} (code : DiagnosticCode) (path : String) (message : List MessagePiece) :
    Except TransformError A :=
  .error (.pairing ⟨code, path, message⟩)

/-- `_missing_tool_calls`. -/
def missingToolCalls (toolCalls : List (ObjectId × ToolCall)) (existing : List PyStr) :
    List (ObjectId × ToolCall) :=
  toolCalls.filter fun block => block.2.id ∉ existing

/-- `_first_tool_call_path`. -/
def firstToolCallPath (toolCalls : List (ObjectId × ToolCall)) (paths : Dict ObjectId String)
    (fallback : String) : String :=
  match toolCalls with
  | [] => fallback
  | block :: _ => (paths.get? block.1).getD fallback

def missingToolResultText : String := "No result provided"

def syntheticResult (call : ToolCall) : ToolResultMessage where
  toolCallId := call.id
  toolName := call.name
  content := [.text missingToolResultText none]
  isError := true
  timestamp := 0
  details := .obj [("reason", .str "missing_tool_result"), ("synthetic", .bool true)]

/-- One round of `_append_synthetic_tool_results`. -/
def Transformer.appendSynthetic (t : Transformer) (block : ObjectId × ToolCall) : Transformer :=
  if block.2.id ∈ t.existingToolResultIds then t
  else
    let path := (t.pendingToolCallPaths.get? block.1).getD "messages"
    { t with
      transformed := t.transformed ++ [.toolResult (syntheticResult block.2)]
      transformedPaths := t.transformedPaths ++ [path]
      diagnostics := t.diagnostics ++ [⟨.missingToolResultRepaired, path,
        [.lit "Inserted synthetic error result for missing tool call ", .repr block.2.id, .lit "."]⟩] }

def Transformer.clearPending (t : Transformer) : Transformer :=
  { t with
    closedToolCallIds := t.closedToolCallIds ++ t.pendingToolCalls.map fun block => block.2.id
    pendingToolCalls := []
    pendingToolCallMap := .empty
    pendingToolCallPaths := .empty
    existingToolResultIds := [] }

/-- What happens to pending calls at the next message that is not a tool result, and at the end. -/
def Transformer.closePending (mode : PairingMode) (fallback : String) (t : Transformer) :
    Except TransformError Transformer :=
  if t.pendingToolCalls = [] then .ok t
  else
    let missing := missingToolCalls t.pendingToolCalls t.existingToolResultIds
    if missing ≠ [] ∧ mode = .strict then
      pairingError .missingToolResult (firstToolCallPath missing t.pendingToolCallPaths fallback)
        [.lit "Missing tool results before next message"]
    else if missing ≠ [] then
      .ok (t.pendingToolCalls.foldl Transformer.appendSynthetic t).clearPending
    else .ok t.clearPending

/-- The ids of `_record_tool_call_id_mappings`, one block of its loop. -/
def Transformer.recordMapping (resolutions : Dict ObjectId PyStr) (t : Transformer)
    (block : ObjectId × ToolCall) : Transformer :=
  let next := nextId resolutions block.1 block.2
  { t with
    toolCallIdMap := if next ≠ block.2.id then t.toolCallIdMap.set block.2.id next else t.toolCallIdMap
    closedToolCallIds := t.closedToolCallIds.filter (· ≠ next) }

/-- `_record_tool_call_id_mappings`. -/
def Transformer.recordToolCallIdMappings (normalize : Option IdNormalizer) (message : AssistantMessage)
    (t : Transformer) : Except TransformError Transformer :=
  match resolveToolCallIds normalize message with
  | .error e => .error e
  | .ok resolutions => .ok ((toolCallBlocks message.content).foldl (recordMapping resolutions) t)

/-- `_assistant_text`. -/
def assistantText (message : AssistantMessage) : PyStr :=
  PyStr.join ("\n" : String) (message.content.filterMap fun part =>
    match part with
    | .text text _ => if text.strip.truthy then some text.strip else none
    | _ => none)

/-- `_aborted_boundary_message`. -/
def abortedBoundaryMessage (message : AssistantMessage) : AssistantMessage :=
  let text := if (assistantText message).truthy then assistantText message
    else match message.errorMessage with
      | some error => if error.truthy then error else ("Request aborted by user" : String)
      | none => ("Request aborted by user" : String)
  { message with
    content := [.text text none], stopReason := .stop, errorMessage := none, errorInfo := none }

def ContentPart.visible : ContentPart → Bool
  | .toolCall _ _ => true
  | .text body _ => body.strip.truthy
  | _ => false

/-- The variables of the loop over the content of one assistant message. -/
structure Turn where
  normalizedContent : List ContentPart := []
  currentToolCalls : List (ObjectId × ToolCall) := []
  currentToolCallPaths : Dict ObjectId String := .empty
  changed : Bool := false
  diagnostics : List NormalizationDiagnostic
  closedToolCallIds : List PyStr
  toolCallIdMap : Dict PyStr PyStr

/-- The block under its new id, without its signature; an unchanged block is the same object. -/
def renameBlock (resolutions : Dict ObjectId PyStr) (blockIndex : Nat) (block : ObjectId × ToolCall) :
    ObjectId × ToolCall :=
  let next := nextId resolutions block.1 block.2
  if next ≠ block.2.id then
    (.rebuilt blockIndex, { id := next, name := block.2.name, arguments := block.2.arguments })
  else block

def Turn.takePart (resolutions : Dict ObjectId PyStr) (messagePath : String) (turn : Turn)
    (entry : ContentPart × Nat) : Turn :=
  match entry.1 with
  | .toolCall object call =>
    let path := s!"{messagePath}.content[{entry.2}]"
    let next := nextId resolutions object call
    let block := renameBlock resolutions entry.2 (object, call)
    let removed : List NormalizationDiagnostic := if call.thoughtSignature = none then [] else
      [⟨.toolCallThoughtSignatureRemoved, path,
        [.lit "Removed provider-specific tool call thought signature."]⟩]
    let renamed : List NormalizationDiagnostic := if next = call.id then [] else
      ⟨.toolCallIdNormalized, path,
        [.lit "Normalized tool call id ", .repr call.id, .lit " to ", .repr next, .lit "."]⟩ :: removed
    { normalizedContent := turn.normalizedContent ++ [.toolCall block.1 block.2]
      currentToolCalls := turn.currentToolCalls ++ [block]
      currentToolCallPaths := turn.currentToolCallPaths.set block.1 path
      changed := turn.changed || next ≠ call.id
      diagnostics := turn.diagnostics ++ renamed
      closedToolCallIds := turn.closedToolCallIds.filter (· ≠ block.2.id)
      toolCallIdMap := if next ≠ call.id then turn.toolCallIdMap.set call.id next else turn.toolCallIdMap }
  | part => { turn with normalizedContent := turn.normalizedContent ++ [part] }

def Turn.takeContent (resolutions : Dict ObjectId PyStr) (messagePath : String)
    (content : List ContentPart) (turn : Turn) : Turn :=
  content.zipIdx.foldl (takePart resolutions messagePath) turn

/-- The message with its new content; a rebuilt message has no `error_info`. -/
def Turn.normalizedMessage (turn : Turn) (message : AssistantMessage) : AssistantMessage :=
  if turn.changed then { message with content := turn.normalizedContent, errorInfo := none }
  else message

def Transformer.append (t : Transformer) (message : Message) (path : String) : Transformer :=
  { t with transformed := t.transformed ++ [message], transformedPaths := t.transformedPaths ++ [path] }

def Transformer.diagnose (t : Transformer) (code : DiagnosticCode) (path : String)
    (message : List MessagePiece) : Transformer :=
  { t with diagnostics := t.diagnostics ++ [⟨code, path, message⟩] }

def Transformer.beginTurn (t : Transformer) : Turn where
  diagnostics := t.diagnostics
  closedToolCallIds := t.closedToolCallIds
  toolCallIdMap := t.toolCallIdMap

/-- The rest of an assistant message's turn, once its ids are resolved. -/
def Transformer.openTurn (resolutions : Dict ObjectId PyStr) (message : AssistantMessage)
    (path : String) (t : Transformer) : Transformer :=
  let turn := Turn.takeContent resolutions path message.content t.beginTurn
  { transformed := t.transformed ++ [.assistant (turn.normalizedMessage message)]
    transformedPaths := t.transformedPaths ++ [path]
    diagnostics := turn.diagnostics
    pendingToolCalls := turn.currentToolCalls
    pendingToolCallMap := Dict.empty.update (turn.currentToolCalls.map fun block => (block.2.id, block.2))
    pendingToolCallPaths := turn.currentToolCallPaths
    existingToolResultIds := []
    closedToolCallIds := turn.closedToolCallIds
    toolCallIdMap := turn.toolCallIdMap }

def Transformer.assistantTurn (normalize : Option IdNormalizer) (message : AssistantMessage)
    (path : String) (t : Transformer) : Except TransformError Transformer :=
  if message.stopReason = .aborted then
    match t.recordToolCallIdMappings normalize message with
    | .error e => .error e
    | .ok t => .ok ((t.append (.assistant (abortedBoundaryMessage message)) path).diagnose
        .abortedAssistantRepaired path
        [.lit "Repaired aborted assistant message as a text turn boundary."])
  else if message.stopReason = .error then
    match t.recordToolCallIdMappings normalize message with
    | .error e => .error e
    | .ok t => .ok (t.diagnose .errorAssistantDropped path
        [.lit "Dropped error assistant message during normalization."])
  else if ¬ message.content.any ContentPart.visible then
    .ok (t.diagnose .nonVisibleAssistantDropped path
      [.lit "Dropped assistant message without visible text or tool calls during normalization."])
  else
    match resolveToolCallIds normalize message with
    | .error e => .error e
    | .ok resolutions => .ok (t.openTurn resolutions message path)

/-- The checks of one tool result under its new id, and its place in the output. -/
def Transformer.acceptResult (mode : PairingMode) (message : ToolResultMessage) (path : String)
    (t : Transformer) : Except TransformError Transformer :=
  let id := message.toolCallId
  if id ∈ t.closedToolCallIds then
    pairingError .lateToolResult path [.lit "Late tool result for closed tool call: ", .repr id]
  else
    match t.pendingToolCallMap.get? id with
    | none =>
      if mode = .strict ∧ t.pendingToolCalls = [] then
        pairingError .orphanedToolResult path
          [.lit "Orphaned tool result without pending tool call: ", .repr id]
      else if t.pendingToolCalls ≠ [] then
        pairingError .unknownToolResult path
          [.lit "Unknown tool result for pending tool calls: ", .repr id]
      else
        .ok { t.append (.toolResult message) path with
          existingToolResultIds := t.existingToolResultIds ++ [id] }
    | some matched =>
      if matched.name ≠ message.toolName then
        pairingError .toolResultNameMismatch path
          [.lit "Tool result name mismatch for ", .repr id, .lit ": expected ", .repr matched.name,
            .lit ", got ", .repr message.toolName]
      else if id ∈ t.existingToolResultIds then
        pairingError .duplicateToolResult path [.lit "Duplicate tool result for ", .repr id]
      else
        .ok { t.append (.toolResult message) path with
          existingToolResultIds := t.existingToolResultIds ++ [id] }

/-- `tool_call_id_map.get(id, id)`. -/
def newestId (toolCallIdMap : Dict PyStr PyStr) (id : PyStr) : PyStr := (toolCallIdMap.get? id).getD id

def Transformer.toolResult (mode : PairingMode) (message : ToolResultMessage) (path : String)
    (t : Transformer) : Except TransformError Transformer :=
  let next := newestId t.toolCallIdMap message.toolCallId
  if next ≠ message.toolCallId then
    (t.diagnose .toolResultIdNormalized path
      [.lit "Normalized tool result id ", .repr message.toolCallId, .lit " to ", .repr next,
        .lit "."]).acceptResult mode { message with toolCallId := next } path
  else t.acceptResult mode message path

/-- One round of the loop. -/
def Transformer.step (normalize : Option IdNormalizer) (mode : PairingMode) (t : Transformer)
    (entry : Message × String) : Except TransformError Transformer :=
  match entry.1 with
  | .assistant message =>
    match t.closePending mode entry.2 with
    | .error e => .error e
    | .ok t => t.assistantTurn normalize message entry.2
  | .toolResult message => t.toolResult mode message entry.2
  | .other object =>
    match t.closePending mode entry.2 with
    | .error e => .error e
    | .ok t => .ok (t.append (.other object) entry.2)

def Transformer.run (normalize : Option IdNormalizer) (mode : PairingMode) :
    List (Message × String) → Transformer → Except TransformError Transformer
  | [], t => .ok t
  | entry :: rest, t =>
    match t.step normalize mode entry with
    | .error e => .error e
    | .ok t => t.run normalize mode rest

/-- `message_paths or [f"messages[{index}]" …]`. -/
def pathsOf (messagePaths : Option (List String)) (messages : List Message) : List String :=
  match messagePaths with
  | some (path :: rest) => path :: rest
  | _ => (List.range messages.length).map fun index => s!"messages[{index}]"

structure MessageTransformResult where
  messages : List Message
  diagnostics : List NormalizationDiagnostic
  messagePaths : List String
  deriving DecidableEq

/-- `transform_messages_result`. -/
def transformMessagesResult (normalize : Option IdNormalizer) (mode : PairingMode)
    (messagePaths : Option (List String)) (messages : List Message) :
    Except TransformError MessageTransformResult :=
  let paths := pathsOf messagePaths messages
  if paths.length ≠ messages.length then .error .pathsMismatch
  else
    match Transformer.run normalize mode (messages.zip paths) {} with
    | .error e => .error e
    | .ok t =>
      match t.closePending mode (paths.getLastD "messages") with
      | .error e => .error e
      | .ok t => .ok ⟨t.transformed, t.diagnostics, t.transformedPaths⟩

end Loushang.Ai
