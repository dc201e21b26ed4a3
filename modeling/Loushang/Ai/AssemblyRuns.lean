import Loushang.Ai.Assembly
import Mathlib.Data.List.Induction

/-!
# Streaming assembly is lossless

Over every accepted sequence of parts whose calls have distinct ids: what the stream was told, and
what the last message shows of it.
-/
namespace Loushang.Ai
open Lib

/-- The ids of the calls that start. -/
def startIds (parts : List RawPart) : List PyStr := parts.filterMap RawPart.startId

/-- The parts up to the first that ends the stream; the ones after it are ignored. -/
def heard : List RawPart → List RawPart
  | [] => []
  | part :: rest => if part.isTerminal then [part] else part :: heard rest

def RawPart.isThought : RawPart → Bool
  | .thinkingDelta _ | .redactedThinking _ => true
  | _ => false

/-- The marker of a redaction that arrives before any thought. -/
def leadMarker (parts : List RawPart) : List PyStr :=
  match parts.find? RawPart.isThought with
  | some (.redactedThinking _) => [RawAssembler.redactionMarker]
  | _ => []

variable {parts : List RawPart}

theorem heard_append_of_live (live : parts.any RawPart.isTerminal = false) (more : List RawPart) :
    heard (parts ++ more) = parts ++ heard more := by
  induction parts with
  | nil => rfl
  | cons part rest ih =>
    rw [List.any_cons, Bool.or_eq_false_iff] at live
    rw [List.cons_append, heard, live.1, if_neg Bool.false_ne_true, ih live.2, List.cons_append]

theorem heard_append_of_ended (ended : parts.any RawPart.isTerminal = true) (more : List RawPart) :
    heard (parts ++ more) = heard parts := by
  induction parts with
  | nil => cases ended
  | cons part rest ih =>
    rw [List.cons_append, heard, heard]
    split
    · rfl
    · next goesOn =>
      rw [List.any_cons, eq_false_of_ne_true goesOn, Bool.false_or] at ended
      rw [ih ended]

theorem heard_of_live (live : parts.any RawPart.isTerminal = false) : heard parts = parts := by
  have whole := heard_append_of_live live []
  rwa [List.append_nil, heard, List.append_nil] at whole

theorem heard_singleton (part : RawPart) : heard [part] = [part] := by
  rw [heard, heard, ite_self]

namespace RawAssembler

variable {config : AssemblerConfig} {s s' : RawAssembler}

/-- The arguments of the first final part that reaches the call of the id. -/
def finalGiven (config : AssemblerConfig) : RawAssembler → List RawPart → PyStr → Option PyStr
  | _, [], _ => none
  | s, part :: rest, id =>
    (s.given id part).or
      (match s.feed config part with
      | .ok s' => finalGiven config s' rest id
      | .error _ => none)

variable {front : List RawPart}

theorem feedAll_append {back : List RawPart} :
    s.feedAll config (front ++ back) = (s.feedAll config front >>= fun s => s.feedAll config back) := by
  induction front generalizing s with
  | nil => rfl
  | cons part rest ih =>
    simp only [List.cons_append, feedAll]
    cases s.feed config part with
    | error e => rfl
    | ok next => exact ih

variable {part : RawPart}

theorem feedAll_snoc (feeds : s.feedAll config (front ++ [part]) = .ok s') :
    ∃ before, s.feedAll config front = .ok before ∧ before.feed config part = .ok s' := by
  rw [feedAll_append] at feeds
  obtain ⟨before, first, rest⟩ := Except.bind_ok_iff.mp feeds
  obtain ⟨after, last, done⟩ := Except.bind_ok_iff.mp rest
  cases done
  exact ⟨before, first, last⟩

theorem finalGiven_snoc (part : RawPart) (id : PyStr) (feeds : s.feedAll config front = .ok s') :
    finalGiven config s (front ++ [part]) id = (finalGiven config s front id).or (s'.given id part) := by
  induction front generalizing s with
  | nil =>
    cases feeds
    rw [List.nil_append, finalGiven, finalGiven, Option.none_or]
    split <;> exact Option.or_none
  | cons first rest ih =>
    obtain ⟨next, fed, more⟩ := Except.bind_ok_iff.mp feeds
    rw [List.cons_append, finalGiven, finalGiven, fed, Option.or_assoc]
    exact congrArg _ (ih more)

theorem feed_ended (ended : s.terminalEmitted = true) (feeds : s.feed config part = .ok s') : s' = s := by
  unfold feed at feeds
  rw [if_pos ended] at feeds
  cases feeds
  rfl

/-- Either no terminal event was told, or the last one is the only one and shows the content. -/
def Concluded (config : AssemblerConfig) (s : RawAssembler) : Prop :=
  (s.terminalEmitted = false ∧ ∀ event ∈ s.pushed, event.isTerminal = false) ∨
    (s.terminalEmitted = true ∧ ∃ front last, s.pushed = front ++ [last] ∧ last.isTerminal = true ∧
      (∀ event ∈ front, event.isTerminal = false) ∧ s.finalMessage = some last.message ∧
      List.Forall₂ (s.Reads config) s.contentOrder last.message.content)

/-- What holds after any accepted sequence of parts. -/
structure Kept (config : AssemblerConfig) (parts : List RawPart) (s : RawAssembler) : Prop where
  told : s.Told
  lossless : s.Lossless config
  known : ∀ id ∈ s.buffers.map ToolCallBuffer.id, id ∈ startIds parts
  thoughts : s.thinkingChunks = leadMarker (heard parts) ++ thinkingDeltas s.pushed
  silent : s.thinkingChunks = [] ↔ (heard parts).find? RawPart.isThought = none
  finals : ∀ id, s.finalOf id = finalGiven config {} (heard parts) id
  status : s.terminalEmitted = parts.any RawPart.isTerminal
  sourced : ∀ event ∈ s.pushed, ∃ (before : RawAssembler) (part : RawPart), before.Concerns part event
  concluded : s.Concluded config

theorem aligned_nil : ({} : RawAssembler).Aligned where
  order := List.nodup_nil
  text := fun member => absurd member List.not_mem_nil
  thinking := fun member => absurd member List.not_mem_nil
  image := fun _ => ⟨fun member => absurd member List.not_mem_nil, fun below => absurd below (Nat.not_lt_zero _)⟩
  images := fun _ member => absurd member List.not_mem_nil
  tool := fun _ =>
    ⟨fun member => absurd member List.not_mem_nil, fun member => absurd member List.not_mem_nil⟩
  buffers := List.nodup_nil
  covered := fun _ member => absurd member List.not_mem_nil
  active := by
    intro id place found
    rw [Dict.get?_empty] at found
    cases found
  indexed := by
    intro index place found
    rw [Dict.get?_empty] at found
    cases found
  finished := by
    intro id call found
    rw [Dict.get?_empty] at found
    cases found
  listed := fun _ member => absurd member List.not_mem_nil

theorem lossless_nil : ({} : RawAssembler).Lossless config where
  text := rfl
  calls := fun _ member => absurd member List.not_mem_nil
  indices := fun _ member => absurd member List.not_mem_nil
  ended := fun _ member => absurd member List.not_mem_nil
  finished := fun id _ found => by
    rw [Dict.get?_empty] at found
    cases found
  listed := fun _ member => absurd member List.not_mem_nil

theorem kept_nil : Kept config [] {} where
  told := ⟨aligned_nil, fun _ member => absurd member List.not_mem_nil, List.Pairwise.nil⟩
  lossless := lossless_nil
  known := fun _ member => absurd member List.not_mem_nil
  thoughts := rfl
  silent := ⟨fun _ => rfl, fun _ => rfl⟩
  finals := fun _ => rfl
  status := rfl
  sourced := fun _ member => absurd member List.not_mem_nil
  concluded := Or.inl ⟨rfl, fun _ member => absurd member List.not_mem_nil⟩

variable {parts : List RawPart}

/-- The leading marker is found as the thoughts begin, and nothing comes before it later. -/
theorem Kept.thoughts_step (kept : s.Kept config parts) (live : parts.any RawPart.isTerminal = false)
    {events : List AssistantMessageEvent} (pushed : s'.pushed = s.pushed ++ events)
    (chunks : s'.thinkingChunks = s.thinkingChunks ++ s.lead part ++ part.thoughts)
    (told : thinkingDeltas events = part.thoughts) :
    s'.thinkingChunks = leadMarker (parts ++ [part]) ++ thinkingDeltas s'.pushed ∧
      (s'.thinkingChunks = [] ↔ (parts ++ [part]).find? RawPart.isThought = none) := by
  have thoughts := kept.thoughts
  have silent := kept.silent
  rw [heard_of_live live] at thoughts silent
  rw [chunks, pushed, thinkingDeltas_append, told, leadMarker, List.find?_append]
  cases before : parts.find? RawPart.isThought with
  | none =>
    have empty := silent.mpr before
    rw [leadMarker, before] at thoughts
    rw [empty] at thoughts ⊢
    have none_told : thinkingDeltas s.pushed = [] := thoughts.symm
    rw [none_told, Option.none_or]
    unfold lead
    rw [empty]
    cases part <;> simp [RawPart.thoughts, RawPart.isThought]
  | some thought =>
    have nonempty : s.thinkingChunks ≠ [] := by
      intro empty
      rw [silent.mp empty] at before
      cases before
    have noLead : s.lead part = [] := by
      unfold lead
      split
      · rw [if_neg (by rwa [List.isEmpty_iff])]
      · rfl
    rw [noLead, List.append_nil, Option.some_or, ← List.append_assoc]
    refine ⟨?_, ?_⟩
    · rw [leadMarker, before] at thoughts
      rw [thoughts]
    · constructor
      · intro empty
        exact absurd (List.append_eq_nil_iff.mp empty).1 nonempty
      · nofun

theorem startIds_append (front back : List RawPart) :
    startIds (front ++ back) = startIds front ++ startIds back := List.filterMap_append

/-- A call that starts has an id that no buffer has. -/
theorem Kept.fresh (kept : s.Kept config parts) (distinct : (startIds (parts ++ [part])).Nodup) {id : PyStr}
    (starts : part.startId = some id) : id ∉ s.buffers.map ToolCallBuffer.id := by
  intro member
  have starting : id ∈ startIds [part] := List.mem_filterMap.mpr ⟨part, List.mem_singleton_self _, starts⟩
  rw [startIds_append, List.nodup_append] at distinct
  exact distinct.2.2 id (kept.known id member) id starting rfl

theorem Kept.feed (kept : s.Kept config parts) (run : feedAll config {} parts = .ok s)
    (distinct : (startIds (parts ++ [part])).Nodup) (feeds : s.feed config part = .ok s') :
    s'.Kept config (parts ++ [part]) := by
  have starts := startIds_append parts [part]
  cases ended : s.terminalEmitted with
  | true =>
    obtain rfl := feed_ended ended feeds
    have past : parts.any RawPart.isTerminal = true := kept.status ▸ ended
    constructor
    · exact kept.told
    · exact kept.lossless
    · intro id member
      rw [starts]
      exact List.mem_append_left _ (kept.known id member)
    · rw [heard_append_of_ended past]
      exact kept.thoughts
    · rw [heard_append_of_ended past]
      exact kept.silent
    · rw [heard_append_of_ended past]
      exact kept.finals
    · rw [List.any_append, past, Bool.true_or]
      exact ended
    · exact kept.sourced
    · exact kept.concluded
  | false =>
    have live : parts.any RawPart.isTerminal = false := kept.status ▸ ended
    have fed := feed_fed kept.told ended (fun _ starts => kept.fresh distinct starts) feeds
    obtain ⟨events, pushed, concerns, chunks, thoughts, ending⟩ := fed.story
    have whole : heard (parts ++ [part]) = parts ++ [part] := by
      rw [heard_append_of_live live, heard_singleton]
    have quiet : ∀ event ∈ s.pushed, event.isTerminal = false := by
      rcases kept.concluded with ⟨_, quiet⟩ | ⟨past, _⟩
      · exact quiet
      · rw [ended] at past
        cases past
    have spoken := kept.thoughts_step live pushed chunks thoughts
    constructor
    · exact fed.told
    · exact fed.lossless kept.lossless
    · intro id member
      rw [starts]
      rcases fed.known id member with old | new
      · exact List.mem_append_left _ (kept.known id old)
      · exact List.mem_append_right _ (List.mem_filterMap.mpr ⟨part, List.mem_singleton_self _, new⟩)
    · rw [whole]
      exact spoken.1
    · rw [whole]
      exact spoken.2
    · intro id
      rw [whole, finalGiven_snoc part id run, fed.finals id, kept.finals id, heard_of_live live]
    · rw [List.any_append, live, Bool.false_or, List.any_cons, List.any_nil, Bool.or_false]
      rcases ending with ⟨goesOn, status, _⟩ | ⟨ends, status, _⟩
      · rw [goesOn, status]
      · rw [ends, status]
    · rw [pushed]
      intro event member
      rcases List.mem_append.mp member with old | new
      · exact kept.sourced event old
      · exact ⟨s, part, concerns event new⟩
    · rcases ending with ⟨_, status, still⟩ | ⟨_, status, front, last, rfl, terminal, before, shown⟩
      · left
        refine ⟨status, ?_⟩
        rw [pushed]
        intro event member
        rcases List.mem_append.mp member with old | new
        · exact quiet event old
        · exact still event new
      · right
        refine ⟨status, s.pushed ++ front, last, by rw [pushed, List.append_assoc], terminal, ?_, shown⟩
        intro event member
        rcases List.mem_append.mp member with old | new
        · exact quiet event old
        · exact before event new

theorem kept_run (distinct : (startIds parts).Nodup) (run : feedAll config {} parts = .ok s) :
    s.Kept config parts := by
  induction parts using List.reverseRecOn generalizing s with
  | nil =>
    cases run
    exact kept_nil
  | append_singleton front part ih =>
    obtain ⟨before, first, last⟩ := feedAll_snoc run
    have sooner : (startIds front).Nodup := by
      rw [startIds_append] at distinct
      exact (List.nodup_append.mp distinct).1
    exact (ih sooner first).feed first distinct last

/-- The content is what the events told: the deltas, behind the marker of a redaction that came
first, and each finished call as it ended. -/
structure Complete (parts : List RawPart) (events : List AssistantMessageEvent)
    (content : List ContentPart) : Prop where
  text : ∀ (index : Nat) text signature, content[index]? = some (.text text signature) →
    text = joined (textDeltas events)
  spoken : textDeltas events ≠ [] →
    ∃ (index : Nat) (text : PyStr) (signature : _), content[index]? = some (.text text signature)
  thinking : ∀ (index : Nat) text signature redacted,
    content[index]? = some (.thinking text signature redacted) →
    text = joined (leadMarker (heard parts) ++ thinkingDeltas events)
  thought : thinkingDeltas events ≠ [] → ∃ (index : Nat) (text : PyStr) (signature : _) (redacted : _),
    content[index]? = some (.thinking text signature redacted)
  calls : ∀ entry ∈ toolEnds events, ∃ object shown,
    content[entry.1]? = some (.toolCall object shown) ∧ shown.id = entry.2.id ∧
      shown.name = entry.2.name ∧ shown.arguments = entry.2.arguments

/-- The stream loses nothing of the parts, and its indices are right. -/
structure Faithful (config : AssemblerConfig) (parts : List RawPart) (s : RawAssembler) : Prop where
  concerned : ∀ front part back before after, parts = front ++ part :: back →
    feedAll config {} front = .ok before → before.feed config part = .ok after →
    ∃ events, after.pushed = before.pushed ++ events ∧ ∀ event ∈ events, before.Concerns part event
  continued : s.pushed.Pairwise fun earlier later => Continues earlier.message.content later.message.content
  last : ∀ front event back, s.pushed = front ++ event :: back → event.isTerminal = true → back = []
  complete : ∀ event ∈ s.pushed, event.isTerminal = true →
    s.finalMessage = some event.message ∧ Complete parts s.pushed event.message.content
  finished : ∀ entry ∈ toolEnds s.pushed,
    config.parseStreamingJson ((finalGiven config {} (heard parts) entry.2.id).getD
      (joined (deltasAt entry.1 (toolDeltas s.pushed)))) = some entry.2.arguments

theorem parse_of_ok {buffer : ToolCallBuffer} {arguments : Json}
    (parsed : parseToolCallArguments config buffer = .ok arguments) :
    config.parseStreamingJson (buffer.finalArguments.getD (joined buffer.argsChunks)) = some arguments := by
  unfold parseToolCallArguments at parsed
  dsimp only at parsed
  split at parsed
  · next shown =>
    cases parsed
    exact shown
  · cases parsed

variable {entry : Nat × ToolCall}

theorem Kept.finished (kept : s.Kept config parts) (told : entry ∈ toolEnds s.pushed) :
    config.parseStreamingJson ((finalGiven config {} (heard parts) entry.2.id).getD
      (joined (deltasAt entry.1 (toolDeltas s.pushed)))) = some entry.2.arguments := by
  obtain ⟨located, _, _, buffer, member, built⟩ := kept.lossless.ended entry told
  obtain ⟨id, _, parsed⟩ := buildToolCall_id built
  obtain ⟨index, placed, chunks⟩ := kept.lossless.calls buffer member
  rw [id, placed, Option.some.injEq] at located
  rw [← kept.finals, id, kept.told.aligned.finalOf_of_mem member, ← located, ← chunks]
  exact parse_of_ok parsed

variable {content : List ContentPart}

/-- The last message shows a finished call with the arguments it ended with. -/
theorem Kept.shows (kept : s.Kept config parts) (told : entry ∈ toolEnds s.pushed)
    (reads : List.Forall₂ (s.Reads config) s.contentOrder content) :
    ∃ object shown, content[entry.1]? = some (.toolCall object shown) ∧ shown.id = entry.2.id ∧
      shown.name = entry.2.name ∧ shown.arguments = entry.2.arguments := by
  obtain ⟨located, inactive, _, buffer, member, built⟩ := kept.lossless.ended entry told
  obtain ⟨id, name, parsed⟩ := buildToolCall_id built
  obtain ⟨part, found, object, shown, rfl, same, source⟩ := reads_at reads located
  rcases source with known | ⟨other, active, _⟩
  · obtain ⟨other, member', same', name', parsed'⟩ := kept.lossless.finished _ _ known
    have one : other = buffer :=
      List.inj_on_of_nodup_map kept.told.aligned.buffers member' member (by rw [same', same, id])
    subst one
    refine ⟨object, shown, found, same, name'.trans name.symm, ?_⟩
    rw [parsed, Except.ok.injEq] at parsed'
    exact parsed'.symm
  · rw [activeBuffer, inactive] at active
    cases active

/-- Only the entry of the text reads as a text, and likewise for the thoughts. -/
theorem Aligned.marker_of_reads (aligned : s.Aligned) {marker : Marker} {part : ContentPart}
    (reads : s.Reads config marker part) :
    (∀ text signature, part = .text text signature → text = joined s.textChunks) ∧
      ∀ text signature redacted, part = .thinking text signature redacted →
        text = joined s.thinkingChunks := by
  cases marker with
  | text =>
    obtain ⟨signature, rfl⟩ := reads
    exact ⟨fun _ _ same => (ContentPart.text.inj same).1.symm, fun _ _ _ same => by cases same⟩
  | thinking =>
    obtain ⟨signature, redacted, rfl⟩ := reads
    exact ⟨fun _ _ same => (by cases same), fun _ _ _ same => (ContentPart.thinking.inj same).1.symm⟩
  | tool id =>
    obtain ⟨object, call, rfl, _⟩ := reads
    exact ⟨fun _ _ same => (by cases same), fun _ _ _ same => (by cases same)⟩
  | image place =>
    obtain ⟨data, mimeType, rfl⟩ := aligned.images part (List.mem_of_getElem? reads)
    exact ⟨fun _ _ same => (by cases same), fun _ _ _ same => (by cases same)⟩

/-- Whatever was told of the text, the last content has a text, and likewise for the thoughts. -/
theorem Kept.kept_blocks (kept : s.Kept config parts)
    (continues : ∀ event ∈ s.pushed, event.isTerminal = false → Continues event.message.content content) :
    (textDeltas s.pushed ≠ [] → ∃ (index : Nat) (text : PyStr) (signature : _),
      content[index]? = some (.text text signature)) ∧
    (thinkingDeltas s.pushed ≠ [] → ∃ (index : Nat) (text : PyStr) (signature : _) (redacted : _),
      content[index]? = some (.thinking text signature redacted)) := by
  constructor
  · intro told
    obtain ⟨delta, member⟩ := List.exists_mem_of_ne_nil _ told
    obtain ⟨event, emitted, same⟩ := List.mem_filterMap.mp member
    obtain ⟨before, part, concerns⟩ := kept.sourced event emitted
    cases event <;> cases same
    obtain ⟨text, signature, found, _⟩ := concerns
    obtain ⟨after, shown, version⟩ := continues _ emitted rfl _ _ found
    obtain ⟨text', signature', rfl⟩ := version.of_text
    exact ⟨_, _, _, shown⟩
  · intro told
    obtain ⟨delta, member⟩ := List.exists_mem_of_ne_nil _ told
    obtain ⟨event, emitted, same⟩ := List.mem_filterMap.mp member
    obtain ⟨before, part, concerns⟩ := kept.sourced event emitted
    cases event <;> cases same
    obtain ⟨text, signature, redacted, found, _⟩ := concerns
    obtain ⟨after, shown, version⟩ := continues _ emitted rfl _ _ found
    obtain ⟨text', signature', redacted', rfl⟩ := version.of_thinking
    exact ⟨_, _, _, _, shown⟩

theorem Kept.complete (kept : s.Kept config parts) {front : List AssistantMessageEvent}
    {last : AssistantMessageEvent} (pushed : s.pushed = front ++ [last]) (terminal : last.isTerminal = true)
    (reads : List.Forall₂ (s.Reads config) s.contentOrder last.message.content) :
    Complete parts s.pushed last.message.content := by
  have continues : ∀ event ∈ s.pushed, event.isTerminal = false →
      Continues event.message.content last.message.content := by
    intro event member goesOn
    have stable := kept.told.stable
    rw [pushed, List.pairwise_append] at stable
    rw [pushed, List.mem_append] at member
    rcases member with old | new
    · exact stable.2.2 event old last (List.mem_singleton_self _)
    · rw [List.mem_singleton.mp new, terminal] at goesOn
      cases goesOn
  obtain ⟨spoken, thought⟩ := kept.kept_blocks continues
  constructor
  · intro index text signature found
    obtain ⟨marker, _, shows⟩ := getElem?_reads reads found
    rw [← kept.lossless.text]
    exact (kept.told.aligned.marker_of_reads shows).1 text signature rfl
  · exact spoken
  · intro index text signature redacted found
    obtain ⟨marker, _, shows⟩ := getElem?_reads reads found
    rw [← kept.thoughts]
    exact (kept.told.aligned.marker_of_reads shows).2 text signature redacted rfl
  · exact thought
  · exact fun entry told => kept.shows told reads

theorem Concluded.last (concluded : s.Concluded config) {front back : List AssistantMessageEvent}
    {event : AssistantMessageEvent} (pushed : s.pushed = front ++ event :: back)
    (terminal : event.isTerminal = true) : back = [] := by
  rcases concluded with ⟨_, quiet⟩ | ⟨_, before, last, split, _, quiet, _⟩
  · have still := quiet event (by rw [pushed]; exact List.mem_append_right _ List.mem_cons_self)
    rw [terminal] at still
    cases still
  · rcases List.eq_nil_or_concat back with rfl | ⟨more, final, rfl⟩
    · rfl
    · rw [split, List.concat_eq_append, ← List.cons_append, ← List.append_assoc] at pushed
      have same := (List.append_inj' pushed rfl).1
      have still := quiet event (by rw [same]; exact List.mem_append_right _ List.mem_cons_self)
      rw [terminal] at still
      cases still

/-- Over every accepted sequence of parts: indices are right, blocks stay, and nothing is lost. -/
theorem feedAll_faithful (config : AssemblerConfig) (parts : List RawPart) (s : RawAssembler)
    (distinct : (startIds parts).Nodup) (run : feedAll config {} parts = .ok s) :
    Faithful config parts s := by
  have kept := kept_run distinct run
  constructor
  · intro front part back before after split first feeds
    have early : (startIds (front ++ [part])).Nodup := by
      rw [split, List.append_cons, startIds_append] at distinct
      exact (List.nodup_append.mp distinct).1
    have earlier : (startIds front).Nodup := by
      rw [startIds_append] at early
      exact (List.nodup_append.mp early).1
    have kept' := kept_run earlier first
    cases ended : before.terminalEmitted with
    | true =>
      obtain rfl := feed_ended ended feeds
      exact ⟨[], (List.append_nil _).symm, fun _ member => absurd member List.not_mem_nil⟩
    | false =>
      have fed := feed_fed kept'.told ended (fun _ starts => kept'.fresh early starts) feeds
      obtain ⟨events, pushed, concerns, _⟩ := fed.story
      exact ⟨events, pushed, concerns⟩
  · exact kept.told.stable
  · exact fun front event back pushed terminal => kept.concluded.last pushed terminal
  · intro event member terminal
    rcases kept.concluded with ⟨_, quiet⟩ | ⟨_, front, last, pushed, ends, quiet, final, reads⟩
    · rw [quiet event member] at terminal
      cases terminal
    · have same : event = last := by
        have either := pushed ▸ member
        rcases List.mem_append.mp either with old | new
        · rw [quiet event old] at terminal
          cases terminal
        · exact List.mem_singleton.mp new
      subst same
      exact ⟨final, kept.complete pushed ends reads⟩
  · exact fun entry told => kept.finished told

def plainLabel : Label := ⟨("plain" : String), by decide, by decide⟩

/-- No pricing, a clock that stands still, and a parse that knows two texts. -/
def plainConfig : AssemblerConfig where
  api := plainLabel
  provider := plainLabel
  endpoint := plainLabel
  model := plainLabel
  calculateUsageCost := fun _ _ => none
  providerErrorInfoFromRaw := fun error => (error.message, .obj [])
  parseStreamingJson := fun text =>
    some (.obj (if text = ("\x7b\"n\":1\x7d" : String) then [("n", .int 1)] else []))
  clock := fun _ => 0

/-- Two calls whose deltas alternate, and a text between them. -/
def interleaved : List RawPart := [
  .toolCallStart ("a" : String) ("look" : String) (some 0),
  .textDelta ("So" : String),
  .toolCallStart ("b" : String) ("look" : String) (some 1),
  .toolCallArgsDelta { index := some 1 } ("\x7b" : String),
  .toolCallArgsDelta { index := some 0 } ("\x7b" : String),
  .toolCallArgsDelta { index := some 1 } ("\"n\":1\x7d" : String),
  .toolCallDone { index := some 1 },
  .toolCallArgsDelta {} ("\x7d" : String),
  .toolCallDone { toolCallId := some ("a" : String) },
  .textDelta (" far" : String),
  .responseDone]

theorem feedAll_faithful_interleaved :
    ∃ s, feedAll plainConfig {} interleaved = .ok s ∧ Faithful plainConfig interleaved s :=
  ⟨_, rfl, feedAll_faithful plainConfig interleaved _ (by decide) rfl⟩

/-- A redaction before a thought leaves its marker in front of the deltas. -/
theorem redacted_before_thought :
    ∃ s, feedAll plainConfig {} [.redactedThinking ("s" : String), .thinkingDelta ("abc" : String),
        .responseDone] = .ok s ∧
      thinkingDeltas s.pushed = [("abc" : String)] ∧
      ∃ event ∈ s.pushed, event.isTerminal = true ∧
        event.message.content =
          [.thinking ("[Reasoning redacted]abc" : String) (some ("s" : String)) true] := by
  refine ⟨_, rfl, rfl, ?_⟩
  decide

end RawAssembler

end Loushang.Ai
