import Loushang.Ai.AssemblerTables
import Loushang.Lib.Lists

/-!
# What each part does

For every kind of part: the state after it as an update of the state before it, the events it
pushes, and the block each of them is about.
-/
namespace Loushang.Ai
open Lib

def textDeltas (events : List AssistantMessageEvent) : List PyStr :=
  events.filterMap fun event => match event with
    | .textDelta _ delta _ => some delta
    | _ => none

def thinkingDeltas (events : List AssistantMessageEvent) : List PyStr :=
  events.filterMap fun event => match event with
    | .thinkingDelta _ delta _ => some delta
    | _ => none

/-- The deltas of tool calls with their content indices. -/
def toolDeltas (events : List AssistantMessageEvent) : List (Nat × PyStr) :=
  events.filterMap fun event => match event with
    | .toolcallDelta contentIndex delta _ => some (contentIndex, delta)
    | _ => none

def toolEnds (events : List AssistantMessageEvent) : List (Nat × ToolCall) :=
  events.filterMap fun event => match event with
    | .toolcallEnd contentIndex call _ => some (contentIndex, call)
    | _ => none

def AssistantMessageEvent.isTerminal : AssistantMessageEvent → Bool
  | .done _ _ => true
  | .error _ _ _ _ => true
  | _ => false

/-- Neither a delta, nor the end of a tool call, nor the end of the stream. -/
def AssistantMessageEvent.isQuiet : AssistantMessageEvent → Bool
  | .textDelta _ _ _ | .thinkingDelta _ _ _ | .toolcallDelta _ _ _ | .toolcallEnd _ _ _ => false
  | .done _ _ | .error _ _ _ _ => false
  | _ => true

section Tally
variable {events : List AssistantMessageEvent} (quiet : ∀ event ∈ events, event.isQuiet = true)
include quiet

theorem filterMap_quiet {B : Type} {told : AssistantMessageEvent → Option B}
    (skips : ∀ event, event.isQuiet = true → told event = none) : events.filterMap told = [] :=
  List.filterMap_eq_nil_iff.mpr fun event member => skips event (quiet event member)

theorem textDeltas_quiet : textDeltas events = [] :=
  filterMap_quiet quiet fun event still => by cases event <;> first | rfl | cases still

theorem thinkingDeltas_quiet : thinkingDeltas events = [] :=
  filterMap_quiet quiet fun event still => by cases event <;> first | rfl | cases still

theorem toolDeltas_quiet : toolDeltas events = [] :=
  filterMap_quiet quiet fun event still => by cases event <;> first | rfl | cases still

theorem toolEnds_quiet : toolEnds events = [] :=
  filterMap_quiet quiet fun event still => by cases event <;> first | rfl | cases still

theorem not_terminal_of_quiet : ∀ event ∈ events, event.isTerminal = false := by
  intro event member
  have still := quiet event member
  cases event <;> first | rfl | cases still

end Tally

def RawPart.thoughts : RawPart → List PyStr
  | .thinkingDelta text => [text]
  | _ => []

def RawPart.startId : RawPart → Option PyStr
  | .toolCallStart id _ _ => some id
  | _ => none

def RawPart.isTerminal : RawPart → Bool
  | .responseDone | .aborted | .responseError _ => true
  | _ => false

namespace RawAssembler

variable {config : AssemblerConfig} {s s' : RawAssembler}

/-- The event is about the block at its index: the text, the thoughts, or the call or image that the
part it comes from starts or addresses. -/
def Concerns (s : RawAssembler) (part : RawPart) : AssistantMessageEvent → Prop
  | .start _ | .done _ _ | .error _ _ _ _ => True
  | .textStart contentIndex message =>
    ∃ text signature, message.content[contentIndex]? = some (.text text signature)
  | .textDelta contentIndex delta message =>
    ∃ text signature, message.content[contentIndex]? = some (.text text signature) ∧
      delta.points <:+ text.points
  | .textEnd contentIndex content message =>
    ∃ signature, message.content[contentIndex]? = some (.text content signature)
  | .thinkingStart contentIndex message =>
    ∃ text signature redacted, message.content[contentIndex]? = some (.thinking text signature redacted)
  | .thinkingDelta contentIndex delta message =>
    ∃ text signature redacted, message.content[contentIndex]? = some (.thinking text signature redacted) ∧
      delta.points <:+ text.points
  | .thinkingEnd contentIndex content message =>
    ∃ signature redacted, message.content[contentIndex]? = some (.thinking content signature redacted)
  | .toolcallStart contentIndex message =>
    ∃ id name index object call, part = .toolCallStart id name index ∧
      message.content[contentIndex]? = some (.toolCall object call) ∧ call.id = id ∧ call.name = name
  | .toolcallDelta contentIndex delta message =>
    ∃ address place buffer object call, part = .toolCallArgsDelta address delta ∧
      s.resolve address .deltaBeforeStart = .ok (place, buffer) ∧
      message.content[contentIndex]? = some (.toolCall object call) ∧ call.id = buffer.id
  | .toolcallEnd contentIndex call message =>
    ∃ address place buffer object, part = .toolCallDone address ∧
      s.resolve address .doneBeforeStart = .ok (place, buffer) ∧ call.id = buffer.id ∧
      message.content[contentIndex]? = some (.toolCall object call)
  | .imageStart contentIndex message =>
    ∃ data mimeType, part = .imagePart data mimeType ∧
      message.content[contentIndex]? = some (.image data mimeType)
  | .imageEnd contentIndex image message =>
    ∃ data mimeType, part = .imagePart data mimeType ∧ image = .image data mimeType ∧
      message.content[contentIndex]? = some image

/-- The fields that alignment is about. -/
def tables (s : RawAssembler) :=
  ((s.contentOrder, s.textStarted, s.thinkingStarted, s.images),
    (s.buffers, s.toolCalls, s.toolCallsById, s.activeById, s.activeByIndex))

theorem Aligned.frame (aligned : s.Aligned) (same : s'.tables = s.tables) : s'.Aligned := by
  cases s
  cases s'
  simp only [tables, Prod.mk.injEq] at same
  obtain ⟨⟨rfl, rfl, rfl, rfl⟩, rfl, rfl, rfl, rfl, rfl⟩ := same
  exact ⟨aligned.order, aligned.text, aligned.thinking, aligned.image, aligned.images, aligned.tool,
    aligned.buffers, aligned.covered, aligned.active, aligned.indexed, aligned.finished, aligned.listed⟩

theorem Grows.of_eq (order : s'.contentOrder = s.contentOrder) (text : s'.textChunks = s.textChunks)
    (thinking : s'.thinkingChunks = s.thinkingChunks) (images : s'.images = s.images) :
    s.Grows s' :=
  ⟨order ▸ List.prefix_rfl, text ▸ List.prefix_rfl, thinking ▸ List.prefix_rfl, images ▸ List.prefix_rfl⟩

theorem push_told {events : AssistantMessage → List AssistantMessageEvent} (told : s.Told)
    (pushes : s.push config events = .ok s')
    (about : ∀ message, ∀ event ∈ events message, event.message = message) :
    ∃ message, List.Forall₂ (s.Reads config) s.contentOrder message.content ∧
      s' = { s with pushed := s.pushed ++ events message, ticks := s.ticks + 1 } ∧ s'.Told := by
  obtain ⟨message, built, rfl⟩ := push_spec pushes
  have reads := buildMessage_reads told.aligned built
  exact ⟨message, reads, rfl, @Told.append config s _ told (told.aligned.frame rfl)
    (Grows.of_eq rfl rfl rfl rfl) (events message) message (about message) reads rfl⟩

theorem ensureStarted_spec (told : s.Told) (ensures : s.ensureStarted config = .ok s') :
    ∃ events ticks, s' = { s with pushed := s.pushed ++ events, ticks := ticks, started := true } ∧
      s'.Told ∧ ∀ event ∈ events, ∃ message, event = .start message := by
  unfold ensureStarted at ensures
  split at ensures
  · next started =>
    cases ensures
    refine ⟨[], s.ticks, ?_, told, List.forall_mem_nil _⟩
    rw [List.append_nil, ← started]
  · obtain ⟨s1, pushes, done⟩ := Except.bind_ok_iff.mp ensures
    cases done
    obtain ⟨message, _, rfl, told'⟩ := push_told told pushes (by simp [AssistantMessageEvent.message])
    exact ⟨_, _, rfl, told'.grow (told'.aligned.frame rfl) (Grows.of_eq rfl rfl rfl rfl) rfl,
      List.forall_mem_singleton.mpr ⟨message, rfl⟩⟩

theorem ensureStarted_concerns {events : List AssistantMessageEvent} (part : RawPart)
    (starts : ∀ event ∈ events, ∃ message, event = .start message) :
    ∀ event ∈ events, event.isQuiet = true ∧ s.Concerns part event := by
  intro event member
  obtain ⟨message, rfl⟩ := starts event member
  exact ⟨rfl, trivial⟩

/-- A block of text or of thoughts starts. -/
theorem Aligned.startBlock (aligned : s.Aligned) {marker : Marker} {text thinking : Bool}
    (fresh : marker ∉ s.contentOrder) (kind : marker = .text ∨ marker = .thinking)
    (texts : s.textStarted = true ∨ marker = .text → text = true)
    (thoughts : s.thinkingStarted = true ∨ marker = .thinking → thinking = true) :
    ({ s with textStarted := text, thinkingStarted := thinking,
              contentOrder := s.contentOrder ++ [marker] } : RawAssembler).Aligned :=
  { aligned with
    order := nodup_snoc aligned.order fresh
    text := fun member => texts ((List.mem_append.mp member).imp aligned.text
      fun new => (List.mem_singleton.mp new).symm)
    thinking := fun member => thoughts ((List.mem_append.mp member).imp aligned.thinking
      fun new => (List.mem_singleton.mp new).symm)
    image := fun place => by rcases kind with rfl | rfl <;> simpa using aligned.image place
    tool := fun id => by rcases kind with rfl | rfl <;> simpa using aligned.tool id }

/-- The marker of a block is added and its start is told. -/
theorem startBlock_spec {s1 : RawAssembler} {marker : Marker} {start : Nat → AssistantMessage → AssistantMessageEvent}
    (told : s1.Told)
    (pushes : (s1.contentBlockIndex marker >>= fun index =>
      s1.push config fun message => [start index message]) = .ok s')
    (about : ∀ index message, (start index message).message = message) :
    ∃ index message ticks shown, s' = { s1 with pushed := s1.pushed ++ [start index message], ticks := ticks } ∧
      s'.Told ∧ message.content[index]? = some shown ∧ s1.Reads config marker shown := by
  obtain ⟨index, located, pushes⟩ := Except.bind_ok_iff.mp pushes
  obtain ⟨message, reads, rfl, told'⟩ :=
    push_told told pushes fun message => List.forall_mem_singleton.mpr (about index message)
  obtain ⟨shown, found, stored⟩ := reads_at reads (contentBlockIndex_spec located)
  exact ⟨index, message, _, shown, rfl, told', found, stored⟩

theorem ensureTextStarted_spec (part : RawPart) (told : s.Told)
    (ensures : s.ensureTextStarted config = .ok s') :
    ∃ events ticks more, s' = { s with
        pushed := s.pushed ++ events, ticks := ticks, started := true, textStarted := true
        contentOrder := s.contentOrder ++ more } ∧
      s'.Told ∧ ∀ event ∈ events, event.isQuiet = true ∧ s.Concerns part event := by
  obtain ⟨s1, started, rest⟩ := Except.bind_ok_iff.mp ensures
  obtain ⟨events, ticks, rfl, told1, starts⟩ := ensureStarted_spec told started
  have quiet := ensureStarted_concerns (s := s) part starts
  split at rest
  · next already =>
    cases rest
    refine ⟨events, ticks, [], ?_, told1, quiet⟩
    have same : s.textStarted = true := already
    rw [List.append_nil, ← same]
  · next fresh =>
    have absent : Marker.text ∉ s.contentOrder := fun member => fresh (told.aligned.text member)
    rw [addMarker, if_neg absent] at rest
    have told2 := told1.grow
      (told1.aligned.startBlock absent (.inl rfl) (fun _ => rfl) (Or.elim · id nofun))
      ⟨List.prefix_append _ _, List.prefix_rfl, List.prefix_rfl, List.prefix_rfl⟩ rfl
    obtain ⟨index, message, ticks', shown, rfl, told3, found, signature, rfl⟩ :=
      startBlock_spec told2 rest fun _ _ => rfl
    refine ⟨events ++ [.textStart index message], _, [.text], by rw [← List.append_assoc], told3, ?_⟩
    exact forall_mem_snoc quiet ⟨rfl, _, _, found⟩

theorem ensureThinkingStarted_spec (part : RawPart) (told : s.Told)
    (ensures : s.ensureThinkingStarted config = .ok s') :
    ∃ events ticks more, s' = { s with
        pushed := s.pushed ++ events, ticks := ticks, started := true, thinkingStarted := true
        contentOrder := s.contentOrder ++ more } ∧
      s'.Told ∧ ∀ event ∈ events, event.isQuiet = true ∧ s.Concerns part event := by
  obtain ⟨s1, started, rest⟩ := Except.bind_ok_iff.mp ensures
  obtain ⟨events, ticks, rfl, told1, starts⟩ := ensureStarted_spec told started
  have quiet := ensureStarted_concerns (s := s) part starts
  split at rest
  · next already =>
    cases rest
    refine ⟨events, ticks, [], ?_, told1, quiet⟩
    have same : s.thinkingStarted = true := already
    rw [List.append_nil, ← same]
  · next fresh =>
    have absent : Marker.thinking ∉ s.contentOrder := fun member => fresh (told.aligned.thinking member)
    rw [addMarker, if_neg absent] at rest
    have told2 := told1.grow
      (told1.aligned.startBlock absent (.inr rfl) (Or.elim · id nofun) (fun _ => rfl))
      ⟨List.prefix_append _ _, List.prefix_rfl, List.prefix_rfl, List.prefix_rfl⟩ rfl
    obtain ⟨index, message, ticks', shown, rfl, told3, found, signature, redacted, rfl⟩ :=
      startBlock_spec told2 rest fun _ _ => rfl
    refine ⟨events ++ [.thinkingStart index message], _, [.thinking], by rw [← List.append_assoc], told3, ?_⟩
    exact forall_mem_snoc quiet ⟨rfl, _, _, _, found⟩

/-- What the chunks of the thoughts get besides deltas: the marker of a redaction. -/
def lead (s : RawAssembler) : RawPart → List PyStr
  | .redactedThinking _ => if s.thinkingChunks.isEmpty then [redactionMarker] else []
  | _ => []

/-- The final arguments that the part gives to the call of the id. -/
def given (s : RawAssembler) (id : PyStr) : RawPart → Option PyStr
  | .toolCallArgsFinal address arguments =>
    match s.resolve address .finalBeforeStart with
    | .ok (_, buffer) => if buffer.id = id then some arguments else none
    | .error _ => none
  | _ => none

def finalOf (s : RawAssembler) (id : PyStr) : Option PyStr :=
  (s.buffers.find? fun buffer => buffer.id = id).bind ToolCallBuffer.finalArguments

/-- The deltas of one content index. -/
def deltasAt (contentIndex : Nat) (deltas : List (Nat × PyStr)) : List PyStr :=
  (deltas.filter fun entry => entry.1 = contentIndex).map Prod.snd

/-- The call has the name and the arguments of its buffer. -/
def FinishedAs (config : AssemblerConfig) (s : RawAssembler) (call : ToolCall) : Prop :=
  ∃ buffer ∈ s.buffers, buffer.id = call.id ∧ call.name = buffer.name ∧
    parseToolCallArguments config buffer = .ok call.arguments

/-- The chunks are the deltas told so far, and a finished call is what its buffer was. -/
structure Lossless (config : AssemblerConfig) (s : RawAssembler) : Prop where
  text : s.textChunks = textDeltas s.pushed
  calls : ∀ buffer ∈ s.buffers, ∃ contentIndex,
    s.contentOrder.idxOf? (.tool buffer.id) = some contentIndex ∧
      buffer.argsChunks = deltasAt contentIndex (toolDeltas s.pushed)
  indices : ∀ entry ∈ toolDeltas s.pushed, entry.1 < s.contentOrder.length
  ended : ∀ entry ∈ toolEnds s.pushed,
    s.contentOrder.idxOf? (.tool entry.2.id) = some entry.1 ∧
      s.activeById.get? entry.2.id = none ∧ (s.toolCallsById.get? entry.2.id).isSome ∧
      ∃ buffer ∈ s.buffers, buildToolCall config buffer = .ok entry.2
  finished : ∀ id call, s.toolCallsById.get? id = some call → s.FinishedAs config call
  listed : ∀ call ∈ s.toolCalls, s.FinishedAs config call

/-- Either the stream goes on, or its last event is the only terminal one and shows the whole content. -/
def Ending (config : AssemblerConfig) (part : RawPart) (s' : RawAssembler)
    (events : List AssistantMessageEvent) : Prop :=
  (part.isTerminal = false ∧ s'.terminalEmitted = false ∧ ∀ event ∈ events, event.isTerminal = false) ∨
    (part.isTerminal = true ∧ s'.terminalEmitted = true ∧ ∃ front last, events = front ++ [last] ∧ last.isTerminal = true ∧
      (∀ event ∈ front, event.isTerminal = false) ∧ s'.finalMessage = some last.message ∧
      List.Forall₂ (s'.Reads config) s'.contentOrder last.message.content)

/-- What one part does. -/
structure Fed (config : AssemblerConfig) (s : RawAssembler) (part : RawPart) (s' : RawAssembler) : Prop where
  told : s'.Told
  order : s.contentOrder <+: s'.contentOrder
  known : ∀ id ∈ s'.buffers.map ToolCallBuffer.id,
    id ∈ s.buffers.map ToolCallBuffer.id ∨ part.startId = some id
  lossless : s.Lossless config → s'.Lossless config
  finals : ∀ id, s'.finalOf id = (s.finalOf id).or (s.given id part)
  story : ∃ events, s'.pushed = s.pushed ++ events ∧ (∀ event ∈ events, s.Concerns part event) ∧
    s'.thinkingChunks = s.thinkingChunks ++ s.lead part ++ part.thoughts ∧
    thinkingDeltas events = part.thoughts ∧ s'.Ending config part events

theorem idxOf?_of_front {front back : List Marker} (longer : front <+: back) {marker : Marker}
    {index : Nat} (located : front.idxOf? marker = some index) : back.idxOf? marker = some index := by
  obtain ⟨more, rfl⟩ := longer
  obtain ⟨bound, same, first⟩ := List.idxOf?_eq_some_iff.mp located
  refine List.idxOf?_eq_some_iff.mpr ⟨by rw [List.length_append]; omega, ?_, ?_⟩
  · rw [List.getElem_append_left bound]
    exact same
  · intro earlier smaller
    rw [List.getElem_append_left (by omega)]
    exact first earlier smaller

theorem textDeltas_append (front back : List AssistantMessageEvent) :
    textDeltas (front ++ back) = textDeltas front ++ textDeltas back := List.filterMap_append

theorem thinkingDeltas_append (front back : List AssistantMessageEvent) :
    thinkingDeltas (front ++ back) = thinkingDeltas front ++ thinkingDeltas back := List.filterMap_append

theorem toolDeltas_append (front back : List AssistantMessageEvent) :
    toolDeltas (front ++ back) = toolDeltas front ++ toolDeltas back := List.filterMap_append

theorem toolEnds_append (front back : List AssistantMessageEvent) :
    toolEnds (front ++ back) = toolEnds front ++ toolEnds back := List.filterMap_append

/-- The fields that calls are kept in. -/
def callTables (s : RawAssembler) := (s.buffers, s.toolCalls, s.toolCallsById, s.activeById)

/-- A part that is not about calls leaves their buffers and tables alone. -/
theorem Lossless.frame (lossless : s.Lossless config) {events : List AssistantMessageEvent}
    (calls : s'.callTables = s.callTables) (order : s.contentOrder <+: s'.contentOrder)
    (pushed : s'.pushed = s.pushed ++ events) (text : s'.textChunks = s.textChunks ++ textDeltas events)
    (noDeltas : toolDeltas events = []) (noEnds : toolEnds events = []) : s'.Lossless config := by
  rw [callTables, callTables, Prod.mk.injEq, Prod.mk.injEq, Prod.mk.injEq] at calls
  obtain ⟨buffers, calls, finished, active⟩ := calls
  constructor
  · rw [text, pushed, textDeltas_append, ← lossless.text]
  · rw [buffers, pushed, toolDeltas_append, noDeltas, List.append_nil]
    intro buffer member
    obtain ⟨contentIndex, located, chunks⟩ := lossless.calls buffer member
    exact ⟨contentIndex, idxOf?_of_front order located, chunks⟩
  · rw [pushed, toolDeltas_append, noDeltas, List.append_nil]
    exact fun entry member => Nat.lt_of_lt_of_le (lossless.indices entry member) order.length_le
  · rw [pushed, toolEnds_append, noEnds, List.append_nil, active, finished, buffers]
    intro entry member
    obtain ⟨located, rest⟩ := lossless.ended entry member
    exact ⟨idxOf?_of_front order located, rest⟩
  · unfold FinishedAs
    rw [finished, buffers]
    exact lossless.finished
  · unfold FinishedAs
    rw [calls, buffers]
    exact lossless.listed

/-- Assembles the report of a part that is not about calls. -/
theorem Fed.ofFrame {part : RawPart} {events : List AssistantMessageEvent} (told : s'.Told)
    (order : s.contentOrder <+: s'.contentOrder) (calls : s'.callTables = s.callTables)
    (given : ∀ id, s.given id part = none) (pushed : s'.pushed = s.pushed ++ events)
    (concerns : ∀ event ∈ events, s.Concerns part event)
    (text : s'.textChunks = s.textChunks ++ textDeltas events)
    (thinking : s'.thinkingChunks = s.thinkingChunks ++ s.lead part ++ part.thoughts)
    (thoughts : thinkingDeltas events = part.thoughts)
    (noDeltas : toolDeltas events = []) (noEnds : toolEnds events = [])
    (ending : s'.Ending config part events) : s.Fed config part s' where
  told := told
  order := order
  known := by
    rw [show s'.buffers = s.buffers from congrArg Prod.fst calls]
    exact fun id member => Or.inl member
  lossless := fun lossless => lossless.frame calls order pushed text noDeltas noEnds
  finals := by
    intro id
    rw [given id, Option.or_none, finalOf, finalOf, show s'.buffers = s.buffers from congrArg Prod.fst calls]
  story := ⟨events, pushed, concerns, thinking, thoughts, ending⟩

/-- Assembles the report of a part with one telling event behind quiet ones. -/
theorem Fed.ofLast {part : RawPart} {events : List AssistantMessageEvent} {last : AssistantMessageEvent}
    (told : s'.Told) (order : s.contentOrder <+: s'.contentOrder) (calls : s'.callTables = s.callTables)
    (given : ∀ id, s.given id part = none) (pushed : s'.pushed = s.pushed ++ events ++ [last])
    (quiet : ∀ event ∈ events, event.isQuiet = true ∧ s.Concerns part event)
    (concerns : s.Concerns part last) (text : s'.textChunks = s.textChunks ++ textDeltas [last])
    (thinking : s'.thinkingChunks = s.thinkingChunks ++ s.lead part ++ part.thoughts)
    (thoughts : thinkingDeltas [last] = part.thoughts)
    (noDeltas : toolDeltas [last] = []) (noEnds : toolEnds [last] = [])
    (ending : (∀ event ∈ events, event.isTerminal = false) → s'.Ending config part (events ++ [last])) :
    s.Fed config part s' := by
  have still : ∀ event ∈ events, event.isQuiet = true := fun event member => (quiet event member).1
  apply Fed.ofFrame told order calls given (pushed.trans (List.append_assoc _ _ _))
  · exact forall_mem_snoc (fun event member => (quiet event member).2) concerns
  · rw [textDeltas_append, textDeltas_quiet still, text, List.nil_append]
  · exact thinking
  · rw [thinkingDeltas_append, thinkingDeltas_quiet still, thoughts, List.nil_append]
  · rw [toolDeltas_append, toolDeltas_quiet still, noDeltas, List.append_nil]
  · rw [toolEnds_append, toolEnds_quiet still, noEnds, List.append_nil]
  · exact ending (not_terminal_of_quiet still)

theorem Told.addText (told : s.Told) (chunks : List PyStr) :
    ({ s with textChunks := s.textChunks ++ chunks } : RawAssembler).Told :=
  told.grow (told.aligned.frame rfl)
    ⟨List.prefix_rfl, List.prefix_append _ _, List.prefix_rfl, List.prefix_rfl⟩ rfl

theorem Told.addThoughts (told : s.Told) (chunks : List PyStr) :
    ({ s with thinkingChunks := s.thinkingChunks ++ chunks } : RawAssembler).Told :=
  told.grow (told.aligned.frame rfl)
    ⟨List.prefix_rfl, List.prefix_rfl, List.prefix_append _ _, List.prefix_rfl⟩ rfl

theorem suffix_joined (chunks : List PyStr) (text : PyStr) :
    text.points <:+ (joined (chunks ++ [text])).points := by
  rw [joined_points, List.flatMap_append, List.flatMap_singleton]
  exact List.suffix_append _ _

theorem feedTextDelta_fed {text : PyStr} (told : s.Told) (live : s.terminalEmitted = false)
    (feeds : s.feedTextDelta config text = .ok s') : s.Fed config (.textDelta text) s' := by
  obtain ⟨s1, started, rest⟩ := Except.bind_ok_iff.mp feeds
  obtain ⟨events, ticks, more, rfl, told1, quiet⟩ :=
    ensureTextStarted_spec (.textDelta text) told started
  obtain ⟨index, located, pushes⟩ := Except.bind_ok_iff.mp rest
  obtain ⟨message, reads, rfl, told3⟩ := push_told (told1.addText [text]) pushes
    (by simp [AssistantMessageEvent.message])
  obtain ⟨shown, found, signature, rfl⟩ := reads_at reads (contentBlockIndex_spec located)
  exact Fed.ofLast told3 (List.prefix_append _ _) rfl (fun _ => rfl) rfl quiet
    ⟨_, _, found, suffix_joined _ _⟩ rfl ((List.append_nil _).trans (List.append_nil _)).symm rfl rfl rfl
    fun still => .inl ⟨rfl, live, forall_mem_snoc still rfl⟩

theorem feedThinkingDelta_fed {text : PyStr} (told : s.Told) (live : s.terminalEmitted = false)
    (feeds : s.feedThinkingDelta config text = .ok s') : s.Fed config (.thinkingDelta text) s' := by
  obtain ⟨s1, started, rest⟩ := Except.bind_ok_iff.mp feeds
  obtain ⟨events, ticks, more, rfl, told1, quiet⟩ :=
    ensureThinkingStarted_spec (.thinkingDelta text) told started
  obtain ⟨index, located, pushes⟩ := Except.bind_ok_iff.mp rest
  obtain ⟨message, reads, rfl, told3⟩ := push_told (told1.addThoughts [text]) pushes
    (by simp [AssistantMessageEvent.message])
  obtain ⟨shown, found, signature, redacted, rfl⟩ := reads_at reads (contentBlockIndex_spec located)
  refine Fed.ofLast told3 (List.prefix_append _ _) rfl (fun _ => rfl) rfl quiet
    ⟨_, _, _, found, suffix_joined _ _⟩ (List.append_nil _).symm ?_ rfl rfl rfl
    fun still => .inl ⟨rfl, live, forall_mem_snoc still rfl⟩
  rw [show s.lead (.thinkingDelta text) = [] from rfl, List.append_nil]
  rfl

/-- Assembles the report of a part with quiet events only. -/
theorem Fed.ofQuiet {part : RawPart} {events : List AssistantMessageEvent} (told : s'.Told)
    (order : s.contentOrder <+: s'.contentOrder) (calls : s'.callTables = s.callTables)
    (given : ∀ id, s.given id part = none) (pushed : s'.pushed = s.pushed ++ events)
    (quiet : ∀ event ∈ events, event.isQuiet = true ∧ s.Concerns part event)
    (text : s'.textChunks = s.textChunks)
    (thinking : s'.thinkingChunks = s.thinkingChunks ++ s.lead part) (thoughtless : part.thoughts = [])
    (goesOn : part.isTerminal = false) (live : s'.terminalEmitted = false) : s.Fed config part s' := by
  have still : ∀ event ∈ events, event.isQuiet = true := fun event member => (quiet event member).1
  apply Fed.ofFrame told order calls given pushed
    (fun event member => (quiet event member).2)
  · rw [textDeltas_quiet still, List.append_nil, text]
  · rw [thoughtless, List.append_nil, thinking]
  · rw [thinkingDeltas_quiet still, thoughtless]
  · exact toolDeltas_quiet still
  · exact toolEnds_quiet still
  · exact Or.inl ⟨goesOn, live, not_terminal_of_quiet still⟩

theorem feedThinkingSignatureDelta_fed {signature : PyStr} (told : s.Told)
    (live : s.terminalEmitted = false)
    (feeds : s.feedThinkingSignatureDelta config signature = .ok s') :
    s.Fed config (.thinkingSignatureDelta signature) s' := by
  obtain ⟨s1, started, done⟩ := Except.bind_ok_iff.mp feeds
  obtain ⟨events, ticks, more, rfl, told1, quiet⟩ :=
    ensureThinkingStarted_spec (.thinkingSignatureDelta signature) told started
  cases done
  exact Fed.ofQuiet (told1.grow (told1.aligned.frame rfl) (Grows.of_eq rfl rfl rfl rfl) rfl)
    (List.prefix_append _ _) rfl (fun _ => rfl) rfl quiet rfl (List.append_nil _).symm rfl rfl live

theorem feedRedactedThinking_fed {signature : PyStr} (told : s.Told) (live : s.terminalEmitted = false)
    (feeds : s.feedRedactedThinking config signature = .ok s') :
    s.Fed config (.redactedThinking signature) s' := by
  obtain ⟨s1, started, done⟩ := Except.bind_ok_iff.mp feeds
  obtain ⟨events, ticks, more, rfl, told1, quiet⟩ :=
    ensureThinkingStarted_spec (.redactedThinking signature) told started
  cases done
  have chunks : (if s.thinkingChunks.isEmpty then [redactionMarker] else s.thinkingChunks) =
      s.thinkingChunks ++ s.lead (.redactedThinking signature) := by
    unfold lead
    split
    · next empty => rw [List.isEmpty_iff.mp empty, List.nil_append]
    · exact (List.append_nil _).symm
  refine Fed.ofQuiet (told1.grow (told1.aligned.frame rfl)
      ⟨List.prefix_rfl, List.prefix_rfl, ?_, List.prefix_rfl⟩ rfl)
    (List.prefix_append _ _) rfl (fun _ => rfl) rfl quiet rfl chunks rfl rfl live
  dsimp only
  rw [chunks]
  exact List.prefix_append _ _

theorem feedResponseStart_fed {responseId : PyStr} (told : s.Told) (live : s.terminalEmitted = false)
    (feeds : ensureStarted config { s with responseId := some responseId } = .ok s') :
    s.Fed config (.responseStart responseId) s' := by
  have told1 : ({ s with responseId := some responseId } : RawAssembler).Told :=
    told.grow (told.aligned.frame rfl) (Grows.of_eq rfl rfl rfl rfl) rfl
  obtain ⟨events, ticks, rfl, told2, starts⟩ := ensureStarted_spec told1 feeds
  exact Fed.ofQuiet told2 List.prefix_rfl rfl (fun _ => rfl) rfl (ensureStarted_concerns _ starts) rfl
    (List.append_nil _).symm rfl rfl live

/-- A part that changes neither blocks nor events. -/
theorem Fed.ofSilent {part : RawPart} (told : s.Told) (live : s.terminalEmitted = false)
    (tables : s'.tables = s.tables) (text : s'.textChunks = s.textChunks)
    (thinking : s'.thinkingChunks = s.thinkingChunks) (pushed : s'.pushed = s.pushed)
    (terminal : s'.terminalEmitted = s.terminalEmitted) (given : ∀ id, s.given id part = none)
    (lead : s.lead part = []) (thoughtless : part.thoughts = []) (goesOn : part.isTerminal = false) :
    s.Fed config part s' := by
  have fields := tables
  simp only [RawAssembler.tables, Prod.mk.injEq] at fields
  obtain ⟨⟨order, _, _, images⟩, buffers, calls, finished, active, _⟩ := fields
  have kept : s'.callTables = s.callTables := by
    rw [callTables, buffers, calls, finished, active]
    rfl
  have told' : s'.Told :=
    told.grow (told.aligned.frame tables) (Grows.of_eq order text thinking images) pushed
  apply Fed.ofQuiet told' (order ▸ List.prefix_rfl) kept given
    (pushed.trans (List.append_nil _).symm) (List.forall_mem_nil _) text
    _ thoughtless goesOn (terminal.trans live)
  rw [lead, List.append_nil, thinking]

theorem Aligned.addImage (aligned : s.Aligned) (data mimeType : PyStr) :
    ({ s with images := s.images ++ [.image data mimeType],
              contentOrder := s.contentOrder ++ [.image s.images.length] } : RawAssembler).Aligned :=
  { aligned with
    order := nodup_snoc aligned.order fun member => Nat.lt_irrefl _ ((aligned.image _).mp member)
    text := fun member => aligned.text (by simpa using member)
    thinking := fun member => aligned.thinking (by simpa using member)
    image := by
      intro place
      rw [List.mem_append, List.mem_singleton, Marker.image.injEq, aligned.image, List.length_append,
        List.length_singleton]
      omega
    images := forall_mem_snoc aligned.images ⟨data, mimeType, rfl⟩
    tool := fun id => by simpa using aligned.tool id }

theorem feedImagePart_fed {data mimeType : PyStr} (told : s.Told) (live : s.terminalEmitted = false)
    (feeds : s.feedImagePart config data mimeType = .ok s') :
    s.Fed config (.imagePart data mimeType) s' := by
  obtain ⟨s1, started, rest⟩ := Except.bind_ok_iff.mp feeds
  obtain ⟨events, ticks, rfl, told1, starts⟩ := ensureStarted_spec told started
  have last : (s.images ++ [ContentPart.image data mimeType]).length - 1 = s.images.length := by simp
  have absent : Marker.image s.images.length ∉ s.contentOrder := by
    rw [told.aligned.image]
    exact Nat.lt_irrefl _
  dsimp only at rest
  rw [last, addMarker, if_neg absent] at rest
  obtain ⟨index, located, pushes⟩ := Except.bind_ok_iff.mp rest
  have told2 := told1.grow (told1.aligned.addImage data mimeType)
    ⟨List.prefix_append _ _, List.prefix_rfl, List.prefix_rfl, List.prefix_append _ _⟩ rfl
  obtain ⟨message, reads, rfl, told3⟩ := push_told told2 pushes (by simp [AssistantMessageEvent.message])
  obtain ⟨shown, found, stored⟩ := reads_at reads (contentBlockIndex_spec located)
  have same : shown = .image data mimeType := by
    have placed : (s.images ++ [ContentPart.image data mimeType])[
        (s.images ++ [ContentPart.image data mimeType]).length - 1]? = some shown := stored
    rw [last, List.getElem?_append_right (Nat.le_refl _), Nat.sub_self] at placed
    cases placed
    rfl
  subst same
  refine @Fed.ofQuiet config s _ _ (events ++ [.imageStart index message,
      .imageEnd index (.image data mimeType) message]) told3 (List.prefix_append _ _) rfl
    (fun _ => rfl) (List.append_assoc _ _ _) ?_ rfl (List.append_nil _).symm rfl rfl live
  refine List.forall_mem_append.mpr ⟨ensureStarted_concerns _ starts, List.forall_mem_cons.mpr
    ⟨⟨rfl, data, mimeType, rfl, found⟩, List.forall_mem_singleton.mpr ⟨rfl, data, mimeType, rfl, rfl, found⟩⟩⟩

end RawAssembler

end Loushang.Ai
