import Loushang.Ai.Messages
import Loushang.Lib.Dict

/-!
# Assembling streamed parts

`RawAssembler.feed` of `ai/event_stream/assembler.py` with the parts of `raw_parts.py`: what one
part does to the tables and which events it pushes to the stream. `emit` pushes the same events
through a queue and is left out, as is the queue of the stream itself. Pricing, the public form
of an error and the parse of streamed arguments are parameters.
-/
namespace Loushang.Ai
open Lib

/-- A tool call part names its call by id, by index, or not at all; `id` is a key some parts have
instead of `tool_call_id`. -/
structure CallAddress where
  toolCallId : Option PyStr := none
  id : Option PyStr := none
  index : Option Int := none

/-- `_optional_str(part.get("tool_call_id") or part.get("id"))`. -/
def CallAddress.name (address : CallAddress) : Option PyStr :=
  match address.toolCallId.filter PyStr.truthy with
  | some id => some id
  | none => address.id.filter PyStr.truthy

structure ResponseErrorPart where
  message : PyStr
  code : Option Int := none
  errorInfo : Option Json := none
  providerResponseSummary : Option PyStr := none

inductive RawPart where
  | responseStart (responseId : PyStr)
  | textDelta (text : PyStr)
  | textSignatureDelta (signature : PyStr)
  | thinkingDelta (text : PyStr)
  | thinkingSignatureDelta (signature : PyStr)
  | redactedThinking (signature : PyStr)
  | toolCallStart (id name : PyStr) (index : Option Int)
  | toolCallArgsDelta (address : CallAddress) (delta : PyStr)
  | toolCallArgsFinal (address : CallAddress) (arguments : PyStr)
  | toolCallDone (address : CallAddress)
  | toolCallThoughtSignature (toolCallId thoughtSignature : PyStr)
  | imagePart (data mimeType : PyStr)
  | usageDelta (input output cacheRead cacheWrite totalTokens : Option Int)
  | usageCostMultiplier (multiplier : BitVec 64)
  | stopReason (stopReason : PyStr)
  | responseDone
  | aborted
  | responseError (error : ResponseErrorPart)
  | unsupported (type : PyStr)

inductive AssistantMessageEvent where
  | start (partialMessage : AssistantMessage)
  | textStart (contentIndex : Nat) (partialMessage : AssistantMessage)
  | textDelta (contentIndex : Nat) (delta : PyStr) (partialMessage : AssistantMessage)
  | textEnd (contentIndex : Nat) (content : PyStr) (partialMessage : AssistantMessage)
  | thinkingStart (contentIndex : Nat) (partialMessage : AssistantMessage)
  | thinkingDelta (contentIndex : Nat) (delta : PyStr) (partialMessage : AssistantMessage)
  | thinkingEnd (contentIndex : Nat) (content : PyStr) (partialMessage : AssistantMessage)
  | toolcallStart (contentIndex : Nat) (partialMessage : AssistantMessage)
  | toolcallDelta (contentIndex : Nat) (delta : PyStr) (partialMessage : AssistantMessage)
  | toolcallEnd (contentIndex : Nat) (toolCall : ToolCall) (partialMessage : AssistantMessage)
  | imageStart (contentIndex : Nat) (partialMessage : AssistantMessage)
  | imageEnd (contentIndex : Nat) (image : ContentPart) (partialMessage : AssistantMessage)
  | done (reason : StopReason) (message : AssistantMessage)
  | error (reason : StopReason) (error : AssistantMessage) (code : Option Int) (errorInfo : Option Json)

inductive AssemblerError where
  | deltaBeforeStart
  | finalBeforeStart
  | doneBeforeStart
  | conflictingFinalArguments
  | contentBlockNotStarted
  | unparsed (arguments : PyStr)
  | unsupportedPart (type : PyStr)

/-- What an assembler is made with; `none` for a cost is no pricing or no result, `none` for a parse
is an exception. `clock n` is the answer of the n-th call. -/
structure AssemblerConfig where
  api : Label
  provider : Label
  endpoint : Label
  model : Label
  calculateUsageCost : Usage → BitVec 64 → Option Json
  providerErrorInfoFromRaw : ResponseErrorPart → PyStr × Json
  parseStreamingJson : PyStr → Option Json
  clock : Nat → BitVec 64

/-- `_ToolCallBuffer`. -/
structure ToolCallBuffer where
  id : PyStr
  name : PyStr
  index : Option Int
  argsChunks : List PyStr := []
  finalArguments : Option PyStr := none
  thoughtSignature : Option PyStr := none

/-- An entry of `_content_order`; the key of an image is its place in `_images`. -/
inductive Marker where
  | text
  | thinking
  | tool (id : PyStr)
  | image (place : Nat)
  deriving DecidableEq

/-- The fields of `RawAssembler`. `buffers` lists the buffer objects made so far; the two tables of
active buffers refer to them by place. `pushed` is what went to the stream. -/
structure RawAssembler where
  responseId : Option PyStr := none
  textChunks : List PyStr := []
  textSignature : Option PyStr := none
  thinkingChunks : List PyStr := []
  thinkingSignatureChunks : List PyStr := []
  thinkingRedacted : Bool := false
  images : List ContentPart := []
  toolCalls : List ToolCall := []
  toolCallsById : Dict PyStr ToolCall := .empty
  buffers : List ToolCallBuffer := []
  activeById : Dict PyStr Nat := .empty
  activeByIndex : Dict Int Nat := .empty
  contentOrder : List Marker := []
  stopReason : PyStr := ("stop" : String)
  usage : Usage := {}
  usageCostMultiplier : BitVec 64 := 0x3ff0000000000000
  usageObserved : Bool := false
  finalMessage : Option AssistantMessage := none
  started : Bool := false
  textStarted : Bool := false
  thinkingStarted : Bool := false
  terminalEmitted : Bool := false
  ticks : Nat := 0
  pushed : List AssistantMessageEvent := []

def joined (chunks : List PyStr) : PyStr := PyStr.join ⟨[]⟩ chunks

/-- `_assistant_stop_reason`. -/
def assistantStopReason (stopReason : PyStr) : StopReason :=
  if stopReason = ("length" : String) then .length
  else if stopReason = ("toolUse" : String) then .toolUse
  else if stopReason = ("error" : String) then .error
  else if stopReason = ("aborted" : String) then .aborted
  else .stop

/-- `_done_reason`. -/
def doneReason (stopReason : PyStr) : StopReason :=
  if stopReason = ("length" : String) then .length
  else if stopReason = ("toolUse" : String) then .toolUse
  else .stop

/-- `_http_status_code`. -/
def httpStatusCode (code : Option Int) : Option Int := code.filter fun code => 100 ≤ code && code ≤ 599

namespace RawAssembler

variable (config : AssemblerConfig)

/-- `_parse_tool_call_arguments`. -/
def parseToolCallArguments (buffer : ToolCallBuffer) : Except AssemblerError Json :=
  let raw := buffer.finalArguments.getD (joined buffer.argsChunks)
  match config.parseStreamingJson raw with
  | some arguments => .ok arguments
  | none => .error (.unparsed raw)

/-- `_build_tool_call`. -/
def buildToolCall (buffer : ToolCallBuffer) : Except AssemblerError ToolCall := do
  let arguments ← parseToolCallArguments config buffer
  return { id := buffer.id, name := buffer.name, arguments := arguments
           thoughtSignature := buffer.thoughtSignature }

def hasTextContent (s : RawAssembler) : Bool :=
  s.textStarted || !s.textChunks.isEmpty || s.textSignature.any PyStr.truthy

def hasThinkingContent (s : RawAssembler) : Bool :=
  s.thinkingStarted || !s.thinkingChunks.isEmpty || !s.thinkingSignatureChunks.isEmpty ||
    s.thinkingRedacted

/-- `self._active_tool_call_buffers_by_id.get(id)`, the object behind it. -/
def activeBuffer (s : RawAssembler) (id : PyStr) : Option ToolCallBuffer :=
  (s.activeById.get? id).bind fun place => s.buffers[place]?

/-- The block of one entry of the order, if it has content. -/
def block (s : RawAssembler) (entry : Marker × Nat) : Except AssemblerError (Option ContentPart) :=
  match entry.1 with
  | .text =>
    .ok (if s.hasTextContent then some (.text (joined s.textChunks) (s.textSignature.map .str)) else none)
  | .thinking =>
    let signature := joined s.thinkingSignatureChunks
    .ok (if s.hasThinkingContent then
      some (.thinking (joined s.thinkingChunks) (if signature.truthy then some signature else none)
        s.thinkingRedacted)
    else none)
  | .tool id =>
    match s.toolCallsById.get? id with
    | some call => .ok (some (.toolCall (.rebuilt entry.2) call))
    | none =>
      match s.activeBuffer id with
      | some buffer => do
        let call ← buildToolCall config buffer
        return some (.toolCall (.rebuilt entry.2) call)
      | none => .ok none
  | .image place => .ok s.images[place]?

def blocks (s : RawAssembler) : List (Marker × Nat) → Except AssemblerError (List ContentPart)
  | [] => .ok []
  | entry :: rest => do
    let part ← s.block config entry
    let parts ← s.blocks rest
    return part.toList ++ parts

/-- `_build_content`. -/
def buildContent (s : RawAssembler) : Except AssemblerError (List ContentPart) :=
  s.blocks config s.contentOrder.zipIdx

/-- `_build_message`; it reads the clock. -/
def buildMessage (s : RawAssembler) (stopReason : PyStr) (errorMessage : Option PyStr)
    (errorInfo : Option Json) : Except AssemblerError AssistantMessage := do
  let content ← s.buildContent config
  return {
    content := content
    api := config.api
    provider := config.provider
    endpoint := config.endpoint
    model := config.model
    responseId := s.responseId
    usage := s.usage
    stopReason := assistantStopReason stopReason
    errorMessage := errorMessage
    timestamp := config.clock s.ticks
    errorInfo := errorInfo }

/-- Pushes events that share one partial message. -/
def push (events : AssistantMessage → List AssistantMessageEvent) (s : RawAssembler) :
    Except AssemblerError RawAssembler := do
  let message ← s.buildMessage config s.stopReason none none
  return { s with pushed := s.pushed ++ events message, ticks := s.ticks + 1 }

/-- `_content_block_index`. -/
def contentBlockIndex (s : RawAssembler) (marker : Marker) : Except AssemblerError Nat :=
  match s.contentOrder.idxOf? marker with
  | some index => .ok index
  | none => .error .contentBlockNotStarted

/-- The append of `_ensure_content_block`. -/
def addMarker (marker : Marker) (s : RawAssembler) : RawAssembler :=
  if marker ∈ s.contentOrder then s else { s with contentOrder := s.contentOrder ++ [marker] }

def ensureStarted (s : RawAssembler) : Except AssemblerError RawAssembler :=
  if s.started then .ok s
  else do
    let s ← s.push config fun message => [.start message]
    return { s with started := true }

/-- `_ensure_text_started`; the index is read again by the caller. -/
def ensureTextStarted (s : RawAssembler) : Except AssemblerError RawAssembler := do
  let s ← s.ensureStarted config
  if s.textStarted then return s
  let s := { s with textStarted := true }.addMarker .text
  let index ← s.contentBlockIndex .text
  s.push config fun message => [.textStart index message]

def ensureThinkingStarted (s : RawAssembler) : Except AssemblerError RawAssembler := do
  let s ← s.ensureStarted config
  if s.thinkingStarted then return s
  let s := { s with thinkingStarted := true }.addMarker .thinking
  let index ← s.contentBlockIndex .thinking
  s.push config fun message => [.thinkingStart index message]

def feedTextDelta (text : PyStr) (s : RawAssembler) : Except AssemblerError RawAssembler := do
  let s ← s.ensureTextStarted config
  let index ← s.contentBlockIndex .text
  { s with textChunks := s.textChunks ++ [text] }.push config fun message =>
    [.textDelta index text message]

def feedThinkingDelta (text : PyStr) (s : RawAssembler) : Except AssemblerError RawAssembler := do
  let s ← s.ensureThinkingStarted config
  let index ← s.contentBlockIndex .thinking
  { s with thinkingChunks := s.thinkingChunks ++ [text] }.push config fun message =>
    [.thinkingDelta index text message]

def feedThinkingSignatureDelta (signature : PyStr) (s : RawAssembler) :
    Except AssemblerError RawAssembler := do
  let s ← s.ensureThinkingStarted config
  return { s with thinkingSignatureChunks := s.thinkingSignatureChunks ++ [signature] }

def redactionMarker : PyStr := ("[Reasoning redacted]" : String)

def feedRedactedThinking (signature : PyStr) (s : RawAssembler) :
    Except AssemblerError RawAssembler := do
  let s ← s.ensureThinkingStarted config
  return { s with
    thinkingChunks := if s.thinkingChunks.isEmpty then [redactionMarker] else s.thinkingChunks
    thinkingRedacted := true
    thinkingSignatureChunks := [signature] }

def feedToolCallStart (id name : PyStr) (index : Option Int) (s : RawAssembler) :
    Except AssemblerError RawAssembler := do
  let s ← s.ensureStarted config
  let place := s.buffers.length
  let s : RawAssembler := { s with
    buffers := s.buffers ++ [{ id := id, name := name, index := index }]
    activeById := s.activeById.set id place
    activeByIndex := match index with
      | some index => s.activeByIndex.set index place
      | none => s.activeByIndex }
  let s := s.addMarker (.tool id)
  let contentIndex ← s.contentBlockIndex (.tool id)
  s.push config fun message => [.toolcallStart contentIndex message]

/-- `_resolve_active_tool_call_buffer`: the place of the buffer. -/
def resolveActiveToolCallBuffer (s : RawAssembler) (address : CallAddress) : Option Nat :=
  match address.name.bind s.activeById.get? with
  | some place => some place
  | none =>
    match address.index.bind s.activeByIndex.get? with
    | some place => some place
    | none =>
      match s.activeById.entries with
      | [(_, place)] => some place
      | _ => none

/-- The resolved buffer with its place, or the error of a part that has none. -/
def resolve (s : RawAssembler) (address : CallAddress) (missing : AssemblerError) :
    Except AssemblerError (Nat × ToolCallBuffer) :=
  match s.resolveActiveToolCallBuffer address with
  | none => .error missing
  | some place =>
    match s.buffers[place]? with
    | some buffer => .ok (place, buffer)
    | none => .error missing

def feedToolCallArgsDelta (address : CallAddress) (delta : PyStr) (s : RawAssembler) :
    Except AssemblerError RawAssembler := do
  let (place, buffer) ← s.resolve address .deltaBeforeStart
  let s : RawAssembler := { s with
    buffers := s.buffers.set place { buffer with argsChunks := buffer.argsChunks ++ [delta] } }
  let contentIndex ← s.contentBlockIndex (.tool buffer.id)
  s.push config fun message => [.toolcallDelta contentIndex delta message]

def feedToolCallArgsFinal (address : CallAddress) (arguments : PyStr) (s : RawAssembler) :
    Except AssemblerError RawAssembler := do
  let (place, buffer) ← s.resolve address .finalBeforeStart
  if buffer.finalArguments.any (· ≠ arguments) then .error .conflictingFinalArguments
  else return { s with
    buffers := s.buffers.set place { buffer with finalArguments := some arguments } }

/-- `_remove_active_tool_call_buffer`. -/
def removeActive (place : Nat) (buffer : ToolCallBuffer) (s : RawAssembler) : RawAssembler :=
  { s with
    activeById := s.activeById.pop buffer.id
    activeByIndex := match buffer.index with
      | some index =>
        if s.activeByIndex.get? index = some place then s.activeByIndex.pop index else s.activeByIndex
      | none => s.activeByIndex }

def feedToolCallDone (address : CallAddress) (s : RawAssembler) : Except AssemblerError RawAssembler := do
  let (place, buffer) ← s.resolve address .doneBeforeStart
  let toolCall ← buildToolCall config buffer
  let contentIndex ← s.contentBlockIndex (.tool buffer.id)
  let s ← s.push config fun message => [.toolcallEnd contentIndex toolCall message]
  return { s with
    toolCalls := s.toolCalls ++ [toolCall]
    toolCallsById := s.toolCallsById.set toolCall.id toolCall }.removeActive place buffer

/-- A signature goes to the active call of the id, else to the first finished one. -/
def feedToolCallThoughtSignature (id signature : PyStr) (s : RawAssembler) : RawAssembler :=
  match s.activeById.get? id with
  | some place => { s with
      buffers := s.buffers.modify place fun buffer => { buffer with thoughtSignature := some signature } }
  | none =>
    match s.toolCalls.findIdx? fun call => call.id = id with
    | none => s
    | some index =>
      match s.toolCalls[index]? with
      | none => s
      | some call =>
        let updated := { call with thoughtSignature := some signature }
        { s with
          toolCalls := s.toolCalls.set index updated
          toolCallsById := s.toolCallsById.set updated.id updated }

def feedImagePart (data mimeType : PyStr) (s : RawAssembler) : Except AssemblerError RawAssembler := do
  let s ← s.ensureStarted config
  let image := ContentPart.image data mimeType
  let s : RawAssembler := { s with images := s.images ++ [image] }
  let s := s.addMarker (.image (s.images.length - 1))
  let contentIndex ← s.contentBlockIndex (.image (s.images.length - 1))
  s.push config fun message => [.imageStart contentIndex message, .imageEnd contentIndex image message]

def feedUsageDelta (input output cacheRead cacheWrite totalTokens : Option Int) (s : RawAssembler) :
    RawAssembler :=
  let input := input.getD s.usage.input
  let output := output.getD s.usage.output
  let cacheRead := cacheRead.getD s.usage.cacheRead
  let cacheWrite := cacheWrite.getD s.usage.cacheWrite
  let derived := input + output + cacheRead + cacheWrite
  { s with
    usageObserved := true
    usage := {
      input := input
      output := output
      cacheRead := cacheRead
      cacheWrite := cacheWrite
      totalTokens := match totalTokens with
        | some total => if total ≤ 0 then derived else max total derived
        | none => derived
      cost := s.usage.cost } }

/-- `_finalize_usage_cost`. -/
def finalizeUsageCost (s : RawAssembler) : RawAssembler :=
  match config.calculateUsageCost s.usage s.usageCostMultiplier with
  | some cost => { s with usage := { s.usage with cost := some cost } }
  | none => s

/-- One round of the loop of `response_done`. -/
def endBlock (s : RawAssembler) (marker : Marker) : Except AssemblerError RawAssembler :=
  match marker with
  | .text =>
    if s.textStarted then do
      let contentIndex ← s.contentBlockIndex .text
      s.push config fun message => [.textEnd contentIndex (joined s.textChunks) message]
    else .ok s
  | .thinking =>
    if s.thinkingStarted then do
      let contentIndex ← s.contentBlockIndex .thinking
      s.push config fun message => [.thinkingEnd contentIndex (joined s.thinkingChunks) message]
    else .ok s
  | _ => .ok s

def endBlocks : List Marker → RawAssembler → Except AssemblerError RawAssembler
  | [], s => .ok s
  | marker :: rest, s => do
    let s ← s.endBlock config marker
    s.endBlocks rest

/-- The last message and the last event. -/
def finish (stopReason : PyStr) (errorMessage : Option PyStr) (errorInfo : Option Json)
    (event : AssistantMessage → AssistantMessageEvent) (s : RawAssembler) :
    Except AssemblerError RawAssembler := do
  let message ← s.buildMessage config stopReason errorMessage errorInfo
  return { s with
    finalMessage := some message
    pushed := s.pushed ++ [event message]
    ticks := s.ticks + 1
    terminalEmitted := true }

def feedResponseDone (s : RawAssembler) : Except AssemblerError RawAssembler := do
  let s := s.finalizeUsageCost config
  let s ← s.endBlocks config s.contentOrder
  s.finish config s.stopReason none none (.done (doneReason s.stopReason))

def feedAborted (s : RawAssembler) : Except AssemblerError RawAssembler :=
  s.finish config ("aborted" : String) (some ("aborted" : String)) none fun message =>
    .error .aborted message none none

def feedResponseError (error : ResponseErrorPart) (s : RawAssembler) :
    Except AssemblerError RawAssembler :=
  let info := config.providerErrorInfoFromRaw error
  s.finish config ("error" : String) (some info.1) (some info.2) fun message =>
    .error .error message (httpStatusCode error.code) (some info.2)

/-- `feed`. -/
def feed (s : RawAssembler) (part : RawPart) : Except AssemblerError RawAssembler :=
  if s.terminalEmitted then .ok s
  else
    match part with
    | .responseStart responseId => { s with responseId := some responseId }.ensureStarted config
    | .textDelta text => s.feedTextDelta config text
    | .textSignatureDelta signature => .ok { s with textSignature := some signature }
    | .thinkingDelta text => s.feedThinkingDelta config text
    | .thinkingSignatureDelta signature => s.feedThinkingSignatureDelta config signature
    | .redactedThinking signature => s.feedRedactedThinking config signature
    | .toolCallStart id name index => s.feedToolCallStart config id name index
    | .toolCallArgsDelta address delta => s.feedToolCallArgsDelta config address delta
    | .toolCallArgsFinal address arguments => s.feedToolCallArgsFinal address arguments
    | .toolCallDone address => s.feedToolCallDone config address
    | .toolCallThoughtSignature id signature => .ok (s.feedToolCallThoughtSignature id signature)
    | .imagePart data mimeType => s.feedImagePart config data mimeType
    | .usageDelta input output cacheRead cacheWrite totalTokens =>
      .ok (s.feedUsageDelta input output cacheRead cacheWrite totalTokens)
    | .usageCostMultiplier multiplier => .ok { s with usageCostMultiplier := multiplier }
    | .stopReason stopReason => .ok { s with stopReason := stopReason }
    | .responseDone => s.feedResponseDone config
    | .aborted => s.feedAborted config
    | .responseError error => s.feedResponseError config error
    | .unsupported type => .error (.unsupportedPart type)

def feedAll : RawAssembler → List RawPart → Except AssemblerError RawAssembler
  | s, [] => .ok s
  | s, part :: rest => do
    let s ← s.feed config part
    s.feedAll rest

end RawAssembler

end Loushang.Ai
