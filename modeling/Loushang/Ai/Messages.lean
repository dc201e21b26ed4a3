import Loushang.Lib.Text
import Loushang.Lib.Json
import Loushang.Lib.Dict
import Loushang.Lib.Sha256

/-!
# Messages of a model request

The message classes of `ai/types.py` and the diagnostics of `ai/diagnostics.py`. Values that are
only carried along (arguments, costs) stand as JSON, a time stamp as the bits of its float. A content
block that is a tool call carries its object identity, which `ai/tool/transform.py` uses as a
key; blocks of one content list with one identity are one object.
-/
namespace Loushang.Ai
open Lib

/-- `id(block)`: a block built by the normalization is a new object, told apart by its place. -/
inductive ObjectId where
  | given (n : Nat)
  | rebuilt (blockIndex : Nat)
  deriving DecidableEq

structure ToolCall where
  id : PyStr
  name : PyStr
  arguments : Json
  thoughtSignature : Option PyStr := none
  deriving DecidableEq

/-- `str | dict[str, Any]`. -/
inductive TextSignature where
  | str (value : PyStr)
  | dict (value : Json)
  deriving DecidableEq

inductive ContentPart where
  | text (text : PyStr) (textSignature : Option TextSignature)
  | thinking (thinking : PyStr) (thinkingSignature : Option PyStr) (redacted : Bool)
  | toolCall (object : ObjectId) (call : ToolCall)
  | image (data mimeType : PyStr)
  deriving DecidableEq

inductive StopReason where
  | stop
  | length
  | toolUse
  | error
  | aborted
  deriving DecidableEq

/-- A stripped, non-empty text, as `AssistantMessage.__post_init__` leaves its route fields. -/
structure Label where
  text : PyStr
  stripped : text.strip = text
  visible : text.isBlank = false
  deriving DecidableEq

structure Usage where
  input : Int := 0
  output : Int := 0
  cacheRead : Int := 0
  cacheWrite : Int := 0
  totalTokens : Int := 0
  cost : Option Json := none
  deriving DecidableEq

structure AssistantMessage where
  content : List ContentPart
  api : Label
  provider : Label
  endpoint : Label
  model : Label
  responseId : Option PyStr
  usage : Usage
  stopReason : StopReason
  errorMessage : Option PyStr
  timestamp : BitVec 64
  responseModel : Option PyStr := none
  errorInfo : Option Json := none
  deriving DecidableEq

inductive ResultPart where
  | text (text : PyStr) (textSignature : Option TextSignature)
  | image (data mimeType : PyStr)
  deriving DecidableEq

structure ToolResultMessage where
  toolCallId : PyStr
  toolName : PyStr
  content : List ResultPart
  isError : Bool
  timestamp : BitVec 64
  details : Json := .null
  terminate : Bool := false
  deriving DecidableEq

/-- A message of a request; user messages and any other object are passed through unread. -/
inductive Message where
  | assistant (message : AssistantMessage)
  | toolResult (message : ToolResultMessage)
  | other (object : Json)
  deriving DecidableEq

/-- The tool calls of a content list with their identities, in order. -/
def toolCallBlocks : List ContentPart → List (ObjectId × ToolCall)
  | [] => []
  | .toolCall object call :: rest => (object, call) :: toolCallBlocks rest
  | _ :: rest => toolCallBlocks rest

def AssistantMessage.toolCalls (message : AssistantMessage) : List ToolCall :=
  (toolCallBlocks message.content).map Prod.snd

inductive DiagnosticCode where
  | abortedAssistantRepaired
  | errorAssistantDropped
  | nonVisibleAssistantDropped
  | duplicateToolResult
  | lateToolResult
  | missingToolResult
  | missingToolResultRepaired
  | orphanedToolResult
  | toolCallIdNormalized
  | toolCallThoughtSignatureRemoved
  | toolResultNameMismatch
  | toolResultIdNormalized
  | unknownToolResult
  deriving DecidableEq

/-- A piece of an f-string: a literal, or `{value!r}`. -/
inductive MessagePiece where
  | lit (text : String)
  | repr (value : PyStr)
  deriving DecidableEq

structure NormalizationDiagnostic where
  code : DiagnosticCode
  path : String
  message : List MessagePiece
  deriving DecidableEq

/-!
## New ids for tool calls

`_resolve_tool_call_ids` and `_unique_tool_call_id` of `ai/tool/transform.py`. The id a
normalizer proposes is kept unless another call of the message has it; then digests are
tried in turn.
-/

inductive TransformError where
  | pathsMismatch
  | pairing (diagnostic : NormalizationDiagnostic)
  | notEncodable
  | unableToAssign (originalId : PyStr)
  deriving DecidableEq

/-- `Callable[[str, AssistantMessage], str]`. -/
abbrev IdNormalizer := PyStr → AssistantMessage → PyStr

/-- `[A-Za-z0-9_-]`. -/
def isIdPoint (point : CodePoint) : Bool :=
  (48 ≤ point.val && point.val ≤ 57) || (65 ≤ point.val && point.val ≤ 90) || point.val == 95 ||
    (97 ≤ point.val && point.val ≤ 122) || point.val == 45

def underscore : CodePoint := 95

/-- `re.sub(r"[^A-Za-z0-9_-]", "_", base_id).strip("_") or "tool_call"`. -/
def idPrefix (baseId : PyStr) : PyStr :=
  let sanitized : PyStr := ⟨baseId.points.map fun point => if isIdPoint point then point else underscore⟩
  let stripped := sanitized.stripWhere (· == underscore)
  if stripped.truthy then stripped else ("tool_call" : String)

/-- The id of one attempt; the digested text must have an encoding. -/
def candidateId (baseId originalId : PyStr) (attempt : Nat) : Except TransformError PyStr :=
  match (originalId ++ (":" : String) ++ baseId ++ (":" : String) ++ (toString attempt : String)).encode? with
  | none => .error .notEncodable
  | some data =>
    let suffix := PyStr.ofString (String.ofList ('_' :: (Sha256.hexdigest data).take 8))
    let front := ((idPrefix baseId).take (64 - suffix.points.length)).rstripWhere
      fun point => point == underscore || point.val == 45
    .ok (front ++ suffix)

def tryAttempts (baseId originalId : PyStr) (blockedIds : List PyStr) :
    List Nat → Except TransformError PyStr
  | [] => .error (.unableToAssign originalId)
  | attempt :: rest =>
    match candidateId baseId originalId attempt with
    | .error e => .error e
    | .ok candidate =>
      if candidate ∈ blockedIds then tryAttempts baseId originalId blockedIds rest else .ok candidate

/-- `_unique_tool_call_id`. -/
def uniqueToolCallId (baseId originalId : PyStr) (blockedIds : List PyStr) :
    Except TransformError PyStr :=
  if baseId ∈ blockedIds then tryAttempts baseId originalId blockedIds (List.range' 1 999)
  else .ok baseId

/-- `base_ids[id(tool_call)]`. -/
def baseId (normalizeToolCallId : Option IdNormalizer) (message : AssistantMessage) (call : ToolCall) :
    PyStr :=
  match normalizeToolCallId with
  | some normalize => normalize call.id message
  | none => call.id

/-- The second loop of `_resolve_tool_call_ids`; `base` gives the base ids. -/
def resolveCalls (base : ToolCall → PyStr) (reservedIds : List PyStr) :
    List (ObjectId × ToolCall) → List PyStr → Dict ObjectId PyStr →
      Except TransformError (Dict ObjectId PyStr)
  | [], _, resolved => .ok resolved
  | (object, call) :: rest, usedIds, resolved =>
    let blockedIds := if base call = call.id then usedIds else usedIds ++ reservedIds
    match uniqueToolCallId (base call) call.id blockedIds with
    | .error e => .error e
    | .ok resolvedId =>
      resolveCalls base reservedIds rest (usedIds ++ [resolvedId]) (resolved.set object resolvedId)

/-- `_resolve_tool_call_ids`. -/
def resolveToolCallIds (normalizeToolCallId : Option IdNormalizer) (message : AssistantMessage) :
    Except TransformError (Dict ObjectId PyStr) :=
  let toolCalls := toolCallBlocks message.content
  let base := baseId normalizeToolCallId message
  let reservedIds := (toolCalls.filter fun block => base block.2 = block.2.id).map fun block => base block.2
  resolveCalls base reservedIds toolCalls [] .empty

/-- `tool_call_id_resolutions[id(block)]`; every block of the message has an entry. -/
def nextId (resolutions : Dict ObjectId PyStr) (object : ObjectId) (call : ToolCall) : PyStr :=
  (resolutions.get? object).getD call.id

end Loushang.Ai
