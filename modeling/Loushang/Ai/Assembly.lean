import Loushang.Ai.AssemblerCalls

/-!
# Streaming assembly is lossless

Over every accepted sequence of parts whose calls have distinct ids.
-/
namespace Loushang.Ai
open Lib

namespace RawAssembler

variable {config : AssemblerConfig} {s s' : RawAssembler}

/-- The ends of blocks are about the text and the thoughts, whatever part they answer. -/
theorem endBlock_spec {marker : Marker} (told : s.Told) (ends : s.endBlock config marker = .ok s') :
    ∃ events ticks, s' = { s with pushed := s.pushed ++ events, ticks := ticks } ∧ s'.Told ∧
      ∀ event ∈ events, event.isQuiet = true ∧ ∀ (before : RawAssembler) part, before.Concerns part event := by
  have still : ∃ events ticks, s = { s with pushed := s.pushed ++ events, ticks := ticks } ∧ s.Told ∧
      ∀ event ∈ events, event.isQuiet = true ∧ ∀ (before : RawAssembler) part, before.Concerns part event :=
    ⟨[], s.ticks, by rw [List.append_nil], told, fun _ member => absurd member List.not_mem_nil⟩
  cases marker with
  | text =>
    simp only [endBlock] at ends
    split at ends
    · obtain ⟨index, located, pushes⟩ := Except.bind_ok_iff.mp ends
      obtain ⟨message, reads, rfl, told'⟩ := push_told told pushes (by simp [AssistantMessageEvent.message])
      obtain ⟨shown, found, signature, rfl⟩ := reads_at reads (contentBlockIndex_spec located)
      refine ⟨_, _, rfl, told', ?_⟩
      intro event member
      rw [List.mem_singleton.mp member]
      exact ⟨rfl, fun _ _ => ⟨signature, found⟩⟩
    · cases ends
      exact still
  | thinking =>
    simp only [endBlock] at ends
    split at ends
    · obtain ⟨index, located, pushes⟩ := Except.bind_ok_iff.mp ends
      obtain ⟨message, reads, rfl, told'⟩ := push_told told pushes (by simp [AssistantMessageEvent.message])
      obtain ⟨shown, found, signature, redacted, rfl⟩ := reads_at reads (contentBlockIndex_spec located)
      refine ⟨_, _, rfl, told', ?_⟩
      intro event member
      rw [List.mem_singleton.mp member]
      exact ⟨rfl, fun _ _ => ⟨signature, redacted, found⟩⟩
    · cases ends
      exact still
  | tool id =>
    cases ends
    exact still
  | image place =>
    cases ends
    exact still

theorem endBlocks_spec {markers : List Marker} (told : s.Told) (ends : s.endBlocks config markers = .ok s') :
    ∃ events ticks, s' = { s with pushed := s.pushed ++ events, ticks := ticks } ∧ s'.Told ∧
      ∀ event ∈ events, event.isQuiet = true ∧ ∀ (before : RawAssembler) part, before.Concerns part event := by
  induction markers generalizing s with
  | nil =>
    cases ends
    exact ⟨[], _, by rw [List.append_nil], told, fun _ member => absurd member List.not_mem_nil⟩
  | cons marker rest ih =>
    obtain ⟨s1, first, more⟩ := Except.bind_ok_iff.mp ends
    obtain ⟨events, ticks, rfl, told1, quiet⟩ := endBlock_spec told first
    obtain ⟨events', ticks', rfl, told2, quiet'⟩ := ih told1 more
    refine ⟨events ++ events', ticks', by rw [← List.append_assoc], told2, ?_⟩
    intro event member
    rcases List.mem_append.mp member with old | new
    · exact quiet event old
    · exact quiet' event new

/-- The last event shows the whole content, whatever the message says besides. -/
theorem finish_fed {part : RawPart} {s1 : RawAssembler} {events : List AssistantMessageEvent} {ticks : Nat}
    {usage : Usage} {stopReason : PyStr} {errorMessage : Option PyStr} {errorInfo : Option Json}
    {event : AssistantMessage → AssistantMessageEvent} (told : s1.Told)
    (finishes : s1.finish config stopReason errorMessage errorInfo event = .ok s')
    (same : s1 = { s with pushed := s.pushed ++ events, ticks := ticks, usage := usage })
    (quiet : ∀ event ∈ events, event.isQuiet = true ∧ s.Concerns part event)
    (about : ∀ message, (event message).message = message ∧ (event message).isTerminal = true ∧
      s.Concerns part (event message))
    (given : ∀ id, s.given id part = none) (lead : s.lead part = []) (thoughtless : part.thoughts = [])
    (ends : part.isTerminal = true) : s.Fed config part s' := by
  obtain ⟨message, built, done⟩ := Except.bind_ok_iff.mp finishes
  cases done
  obtain ⟨here, terminal, concerns⟩ := about message
  have reads := buildMessage_reads told.aligned built
  have silent : textDeltas [event message] = [] ∧ thinkingDeltas [event message] = [] ∧
      toolDeltas [event message] = [] ∧ toolEnds [event message] = [] := by
    cases last : event message <;> rw [last] at terminal <;> first | exact ⟨rfl, rfl, rfl, rfl⟩ | cases terminal
  obtain ⟨noText, noThoughts, noDeltas, noEnds⟩ := silent
  subst same
  have told' : ({ s with
      pushed := s.pushed ++ events ++ [event message], ticks := ticks + 1, usage := usage
      finalMessage := some message, terminalEmitted := true } : RawAssembler).Told :=
    @Told.append config _ _ told (told.aligned.frame rfl) (Grows.of_eq rfl rfl rfl rfl)
      [event message] message (List.forall_mem_singleton.mpr here) reads rfl
  refine Fed.ofLast told' List.prefix_rfl rfl given rfl quiet concerns ?_ ?_ ?_ noDeltas noEnds fun still =>
    .inr ⟨ends, rfl, events, event message, rfl, terminal, still, by rw [here], by rw [here]; exact reads⟩
  · rw [noText, List.append_nil]
  · rw [lead, thoughtless, List.append_nil, List.append_nil]
  · rw [noThoughts, thoughtless]

theorem feedResponseDone_fed (told : s.Told) (feeds : s.feedResponseDone config = .ok s') :
    s.Fed config .responseDone s' := by
  obtain ⟨s1, ends, finishes⟩ := Except.bind_ok_iff.mp feeds
  have priced : ∃ usage, s.finalizeUsageCost config = { s with usage := usage } := by
    unfold finalizeUsageCost
    split
    · exact ⟨_, rfl⟩
    · exact ⟨s.usage, rfl⟩
  obtain ⟨usage, price⟩ := priced
  rw [price] at ends
  have told0 : ({ s with usage := usage } : RawAssembler).Told :=
    told.grow (told.aligned.frame rfl) (Grows.of_eq rfl rfl rfl rfl) rfl
  obtain ⟨events, ticks, same, told1, quiet⟩ := endBlocks_spec told0 ends
  refine finish_fed told1 finishes same ?_ (fun _ => ⟨rfl, rfl, trivial⟩) (fun _ => rfl) rfl rfl rfl
  exact fun event member => ⟨(quiet event member).1, (quiet event member).2 _ _⟩

/-- A part that ends the stream at once. -/
theorem finish_fed_at_once {part : RawPart} {stopReason : PyStr} {errorMessage : Option PyStr}
    {errorInfo : Option Json} {event : AssistantMessage → AssistantMessageEvent} (told : s.Told)
    (finishes : s.finish config stopReason errorMessage errorInfo event = .ok s')
    (about : ∀ message, (event message).message = message ∧ (event message).isTerminal = true ∧
      s.Concerns part (event message))
    (given : ∀ id, s.given id part = none) (lead : s.lead part = []) (thoughtless : part.thoughts = [])
    (ends : part.isTerminal = true) : s.Fed config part s' := by
  refine @finish_fed config s s' part s [] s.ticks s.usage _ _ _ _ told finishes ?_ ?_ about given lead
    thoughtless ends
  · rw [List.append_nil]
  · exact fun _ member => absurd member List.not_mem_nil

/-- What a part does while the stream goes on. -/
theorem feed_fed {part : RawPart} (told : s.Told) (live : s.terminalEmitted = false)
    (fresh : ∀ id, part.startId = some id → id ∉ s.buffers.map ToolCallBuffer.id)
    (feeds : s.feed config part = .ok s') : s.Fed config part s' := by
  unfold feed at feeds
  rw [if_neg (by rw [live]; exact Bool.false_ne_true)] at feeds
  cases part with
  | responseStart responseId => exact feedResponseStart_fed told live feeds
  | textDelta text => exact feedTextDelta_fed told live feeds
  | textSignatureDelta signature =>
    cases feeds
    exact Fed.ofSilent told live rfl rfl rfl rfl rfl (fun _ => rfl) rfl rfl rfl
  | thinkingDelta text => exact feedThinkingDelta_fed told live feeds
  | thinkingSignatureDelta signature => exact feedThinkingSignatureDelta_fed told live feeds
  | redactedThinking signature => exact feedRedactedThinking_fed told live feeds
  | toolCallStart id name index => exact feedToolCallStart_fed told live (fresh id rfl) feeds
  | toolCallArgsDelta address delta => exact feedToolCallArgsDelta_fed told live feeds
  | toolCallArgsFinal address arguments => exact feedToolCallArgsFinal_fed told live feeds
  | toolCallDone address => exact feedToolCallDone_fed told live feeds
  | toolCallThoughtSignature id signature =>
    cases feeds
    exact feedToolCallThoughtSignature_fed told live
  | imagePart data mimeType => exact feedImagePart_fed told live feeds
  | usageDelta input output cacheRead cacheWrite totalTokens =>
    cases feeds
    exact Fed.ofSilent told live rfl rfl rfl rfl rfl (fun _ => rfl) rfl rfl rfl
  | usageCostMultiplier multiplier =>
    cases feeds
    exact Fed.ofSilent told live rfl rfl rfl rfl rfl (fun _ => rfl) rfl rfl rfl
  | stopReason stopReason =>
    cases feeds
    exact Fed.ofSilent told live rfl rfl rfl rfl rfl (fun _ => rfl) rfl rfl rfl
  | responseDone => exact feedResponseDone_fed told feeds
  | aborted => exact finish_fed_at_once told feeds (fun _ => ⟨rfl, rfl, trivial⟩) (fun _ => rfl) rfl rfl rfl
  | responseError error =>
    exact finish_fed_at_once told feeds (fun _ => ⟨rfl, rfl, trivial⟩) (fun _ => rfl) rfl rfl rfl
  | unsupported type => cases feeds

end RawAssembler

end Loushang.Ai
