import Loushang.Ai.AssemblerSteps

/-!
# What the parts of a tool call do

An addressed part reaches the buffer of one active call. Its delta goes to that call alone, and a
finished call keeps the arguments its buffer had.
-/
namespace Loushang.Ai
open Lib

namespace RawAssembler

variable {config : AssemblerConfig} {s s' : RawAssembler}

variable {address : CallAddress} {place : Nat} {buffer : ToolCallBuffer}

/-- The buffer a part resolves to is an active one. -/
theorem resolve_spec (aligned : s.Aligned) {missing : AssemblerError}
    (resolves : s.resolve address missing = .ok (place, buffer)) :
    s.buffers[place]? = some buffer ∧ s.activeById.get? buffer.id = some place := by
  have active : ∀ id, s.activeById.get? id = some place → s.buffers[place]? = some buffer →
      s.activeById.get? buffer.id = some place := by
    intro id found stored
    obtain ⟨other, stored', same⟩ := aligned.active id place found
    rw [stored, Option.some.injEq] at stored'
    rwa [stored', same]
  unfold resolve at resolves
  split at resolves
  · cases resolves
  next reached found =>
  split at resolves
  · next held stored =>
    rw [Except.ok.injEq, Prod.mk.injEq] at resolves
    obtain ⟨rfl, rfl⟩ := resolves
    refine ⟨stored, ?_⟩
    unfold resolveActiveToolCallBuffer at found
    split at found
    · next named =>
      obtain ⟨id, _, known⟩ := Option.bind_eq_some_iff.mp named
      cases found
      exact active id known stored
    split at found
    · next indexed =>
      obtain ⟨index, _, known⟩ := Option.bind_eq_some_iff.mp indexed
      cases found
      obtain ⟨other, stored', _, same⟩ := aligned.indexed index _ known
      rw [stored, Option.some.injEq] at stored'
      rwa [stored']
    split at found
    · next id only entries =>
      cases found
      exact active id (Dict.get?_of_mem (by rw [entries]; exact List.mem_cons_self)) stored
    · cases found
  · cases resolves

theorem activeBuffer_eq (stored : s.buffers[place]? = some buffer)
    (active : s.activeById.get? buffer.id = some place) : s.activeBuffer buffer.id = some buffer := by
  rw [activeBuffer, active, Option.bind_some, stored]

/-- Two stored buffers with one id are one. -/
theorem Aligned.place_eq (aligned : s.Aligned) {i j : Nat} {a b : ToolCallBuffer}
    (first : s.buffers[i]? = some a) (second : s.buffers[j]? = some b) (same : a.id = b.id) : i = j := by
  have left : (s.buffers.map ToolCallBuffer.id)[i]? = some a.id := by rw [List.getElem?_map, first]; rfl
  have right : (s.buffers.map ToolCallBuffer.id)[j]? = some b.id := by rw [List.getElem?_map, second]; rfl
  obtain ⟨bound, _⟩ := List.getElem?_eq_some_iff.mp left
  exact (List.getElem?_inj bound aligned.buffers).mp (by rw [left, right, same])

variable {buffers : List ToolCallBuffer} {buffer' : ToolCallBuffer}

theorem map_id_set (stored : buffers[place]? = some buffer) (same : buffer'.id = buffer.id) :
    (buffers.set place buffer').map ToolCallBuffer.id = buffers.map ToolCallBuffer.id := by
  have held : (buffers.map ToolCallBuffer.id)[place]? = some buffer.id := by
    rw [List.getElem?_map, stored]
    rfl
  obtain ⟨bound, here⟩ := List.getElem?_eq_some_iff.mp held
  rw [List.map_set, same, ← here]
  exact List.set_getElem_self bound

/-- Changing a stored buffer without its id and index keeps the tables aligned. -/
theorem Aligned.setBuffer (aligned : s.Aligned) (stored : s.buffers[place]? = some buffer)
    (id : buffer'.id = buffer.id) (index : buffer'.index = buffer.index) :
    ({ s with buffers := s.buffers.set place buffer' } : RawAssembler).Aligned where
  order := aligned.order
  text := aligned.text
  thinking := aligned.thinking
  image := aligned.image
  images := aligned.images
  tool := by
    intro other
    rw [map_id_set stored id]
    exact aligned.tool other
  buffers := by
    rw [map_id_set stored id]
    exact aligned.buffers
  covered := by
    rw [map_id_set stored id]
    exact aligned.covered
  active := by
    intro other place' found
    obtain ⟨held, stored', same⟩ := aligned.active other place' found
    by_cases here : place' = place
    · subst here
      rw [stored, Option.some.injEq] at stored'
      refine ⟨buffer', ?_, id.trans (stored' ▸ same)⟩
      dsimp only
      rw [List.getElem?_set_self (List.getElem?_eq_some_iff.mp stored).1]
    · refine ⟨held, ?_, same⟩
      dsimp only
      rw [List.getElem?_set_ne (Ne.symm here)]
      exact stored'
  indexed := by
    intro at_index place' found
    obtain ⟨held, stored', numbered, active⟩ := aligned.indexed at_index place' found
    by_cases here : place' = place
    · subst here
      rw [stored, Option.some.injEq] at stored'
      refine ⟨buffer', ?_, index.trans (stored' ▸ numbered), ?_⟩
      · dsimp only
        rw [List.getElem?_set_self (List.getElem?_eq_some_iff.mp stored).1]
      · rw [id, stored']
        exact active
    · refine ⟨held, ?_, numbered, active⟩
      dsimp only
      rw [List.getElem?_set_ne (Ne.symm here)]
      exact stored'
  finished := by
    rw [map_id_set stored id]
    exact aligned.finished
  listed := aligned.listed

variable {other : ToolCallBuffer}

/-- A buffer of the changed list is the new one or one with another id. -/
theorem Aligned.mem_set (aligned : s.Aligned) (stored : s.buffers[place]? = some buffer)
    (member : other ∈ s.buffers.set place buffer') :
    other = buffer' ∨ (other ∈ s.buffers ∧ other.id ≠ buffer.id) := by
  obtain ⟨i, found⟩ := List.mem_iff_getElem?.mp member
  by_cases here : place = i
  · subst here
    rw [List.getElem?_set_self (List.getElem?_eq_some_iff.mp stored).1, Option.some.injEq] at found
    exact Or.inl found.symm
  · rw [List.getElem?_set_ne here] at found
    right
    refine ⟨List.mem_of_getElem? found, ?_⟩
    intro same
    exact here (aligned.place_eq stored found same.symm)

theorem mem_set_of_ne (buffer' : ToolCallBuffer) (stored : buffers[place]? = some buffer)
    (member : other ∈ buffers) (different : other.id ≠ buffer.id) : other ∈ buffers.set place buffer' := by
  obtain ⟨i, found⟩ := List.mem_iff_getElem?.mp member
  apply List.mem_iff_getElem?.mpr
  refine ⟨i, ?_⟩
  rw [List.getElem?_set_ne]
  · exact found
  · rintro rfl
    rw [stored, Option.some.injEq] at found
    exact different (found ▸ rfl)

theorem Aligned.finalOf_of_mem (aligned : s.Aligned) (member : buffer ∈ s.buffers) :
    s.finalOf buffer.id = buffer.finalArguments := by
  have found := (Dict.find?_key_iff aligned.buffers).mpr ⟨member, rfl⟩
  unfold finalOf
  rw [found]
  rfl

variable {id : PyStr}

theorem finalOf_of_not_mem (absent : id ∉ s.buffers.map ToolCallBuffer.id) : s.finalOf id = none := by
  unfold finalOf
  rw [List.find?_eq_none.mpr]
  · rfl
  · intro buffer member
    rw [decide_eq_true_eq]
    intro same
    exact absent (same ▸ List.mem_map_of_mem member)

variable {index : Nat}

/-- The block index of a buffer names its call alone. -/
theorem id_of_idxOf? {other : PyStr} (first : s.contentOrder.idxOf? (.tool id) = some index)
    (second : s.contentOrder.idxOf? (.tool other) = some index) : id = other := by
  obtain ⟨_, here, _⟩ := List.idxOf?_eq_some_iff.mp first
  obtain ⟨_, there, _⟩ := List.idxOf?_eq_some_iff.mp second
  exact Marker.tool.inj (here.symm.trans there)

theorem deltasAt_append (index : Nat) (front back : List (Nat × PyStr)) :
    deltasAt index (front ++ back) = deltasAt index front ++ deltasAt index back := by
  rw [deltasAt, List.filter_append, List.map_append]
  rfl

variable {call : ToolCall}

/-- A finished call keeps what it was when the buffer of an active one changes. -/
theorem FinishedAs.setBuffer (finished : s.FinishedAs config call) (buffer' : ToolCallBuffer)
    (stored : s.buffers[place]? = some buffer) (active : (s.activeById.get? buffer.id).isSome)
    (inactive : s.activeById.get? call.id = none) (buffers : s'.buffers = s.buffers.set place buffer') :
    s'.FinishedAs config call := by
  obtain ⟨held, member, same, rest⟩ := finished
  refine ⟨held, ?_, same, rest⟩
  rw [buffers]
  apply mem_set_of_ne buffer' stored member
  intro equal
  rw [← equal, same, inactive] at active
  cases active

variable {events : List AssistantMessageEvent}

/-- A change to the buffer of an active call, told by deltas of its own block. -/
theorem Lossless.setBuffer (lossless : s.Lossless config) (aligned : s.Aligned) {deltas : List PyStr}
    (stored : s.buffers[place]? = some buffer) (active : s.activeById.get? buffer.id = some place)
    (located : s.contentOrder.idxOf? (.tool buffer.id) = some index) (id : buffer'.id = buffer.id)
    (chunks : buffer'.argsChunks = buffer.argsChunks ++ deltas)
    (buffers : s'.buffers = s.buffers.set place buffer') (calls : s'.toolCalls = s.toolCalls)
    (finished : s'.toolCallsById = s.toolCallsById) (actives : s'.activeById = s.activeById)
    (order : s'.contentOrder = s.contentOrder) (pushed : s'.pushed = s.pushed ++ events)
    (text : s'.textChunks = s.textChunks) (noText : textDeltas events = [])
    (own : toolDeltas events = deltas.map fun delta => (index, delta)) (noEnds : toolEnds events = []) :
    s'.Lossless config := by
  have isActive : (s.activeById.get? buffer.id).isSome := by
    rw [active]
    rfl
  have bound : index < s.contentOrder.length := (List.idxOf?_eq_some_iff.mp located).1
  have atOwn : deltasAt index (toolDeltas events) = deltas := by
    rw [own, deltasAt, List.filter_eq_self.mpr (by simp), List.map_map]
    exact List.map_id deltas
  have atOther : ∀ other, other ≠ index → deltasAt other (toolDeltas events) = [] := by
    intro other different
    rw [own, deltasAt, List.filter_eq_nil_iff.mpr]
    · rfl
    · intro entry member
      obtain ⟨delta, _, rfl⟩ := List.mem_map.mp member
      simpa using Ne.symm different
  constructor
  · rw [text, pushed, textDeltas_append, noText, List.append_nil]
    exact lossless.text
  · rw [buffers, order, pushed, toolDeltas_append]
    intro other member
    rcases aligned.mem_set stored member with rfl | ⟨old, different⟩
    · obtain ⟨index', located', before⟩ := lossless.calls buffer (List.mem_of_getElem? stored)
      have same : index' = index := Option.some.inj (located'.symm.trans located)
      subst same
      refine ⟨index', id ▸ located, ?_⟩
      rw [deltasAt_append, atOwn, chunks, before]
    · obtain ⟨index', located', before⟩ := lossless.calls other old
      refine ⟨index', located', ?_⟩
      rw [deltasAt_append, atOther index', List.append_nil, before]
      intro same
      subst same
      exact different (id_of_idxOf? located' located)
  · rw [pushed, toolDeltas_append, order]
    intro entry member
    rcases List.mem_append.mp member with old | new
    · exact lossless.indices entry old
    · rw [own] at new
      obtain ⟨delta, _, rfl⟩ := List.mem_map.mp new
      exact bound
  · rw [pushed, toolEnds_append, noEnds, List.append_nil, order, actives, finished]
    intro entry member
    obtain ⟨placed, inactive, known, held, old, built⟩ := lossless.ended entry member
    refine ⟨placed, inactive, known, held, ?_, built⟩
    rw [buffers]
    apply mem_set_of_ne buffer' stored old
    intro same
    rw [← same, ← (buildToolCall_id built).1, inactive] at isActive
    cases isActive
  · intro other call found
    rw [finished] at found
    obtain ⟨same, inactive, _⟩ := aligned.finished other call found
    exact (lossless.finished other call found).setBuffer buffer' stored isActive (same ▸ inactive) buffers
  · intro call member
    rw [calls] at member
    obtain ⟨other, known⟩ := Option.isSome_iff_exists.mp (aligned.listed call member)
    exact (lossless.listed call member).setBuffer buffer' stored isActive
      (aligned.finished call.id other known).2.1 buffers

/-- Only the changed buffer may have other final arguments. -/
theorem Aligned.finalOf_setBuffer (aligned : s.Aligned) (aligned' : s'.Aligned)
    (stored : s.buffers[place]? = some buffer) (id : buffer'.id = buffer.id)
    (buffers : s'.buffers = s.buffers.set place buffer') (other : PyStr) :
    s'.finalOf other = if other = buffer.id then buffer'.finalArguments else s.finalOf other := by
  split
  · next same =>
    rw [same, ← id]
    apply aligned'.finalOf_of_mem
    rw [buffers]
    exact List.mem_set (List.getElem?_eq_some_iff.mp stored).1 buffer'
  · next different =>
    by_cases known : other ∈ s.buffers.map ToolCallBuffer.id
    · obtain ⟨held, member, rfl⟩ := List.mem_map.mp known
      rw [aligned.finalOf_of_mem member]
      apply aligned'.finalOf_of_mem
      rw [buffers]
      exact mem_set_of_ne buffer' stored member different
    · rw [finalOf_of_not_mem known]
      apply finalOf_of_not_mem
      rw [buffers, map_id_set stored id]
      exact known

/-- Assembles the report of a part that changes the buffer of one active call. -/
theorem Fed.ofBuffer {part : RawPart} {place index : Nat} {buffer buffer' : ToolCallBuffer}
    {events : List AssistantMessageEvent} {deltas : List PyStr} {fresh : Option PyStr}
    (aligned : s.Aligned) (told : s'.Told)
    (stored : s.buffers[place]? = some buffer) (active : s.activeById.get? buffer.id = some place)
    (located : s.contentOrder.idxOf? (.tool buffer.id) = some index) (id : buffer'.id = buffer.id)
    (chunks : buffer'.argsChunks = buffer.argsChunks ++ deltas)
    (given : ∀ other, s.given other part = if other = buffer.id then fresh else none)
    (final : buffer'.finalArguments = buffer.finalArguments.or fresh)
    (buffers : s'.buffers = s.buffers.set place buffer') (calls : s'.toolCalls = s.toolCalls)
    (finished : s'.toolCallsById = s.toolCallsById) (actives : s'.activeById = s.activeById)
    (order : s'.contentOrder = s.contentOrder) (pushed : s'.pushed = s.pushed ++ events)
    (concerns : ∀ event ∈ events, s.Concerns part event)
    (text : s'.textChunks = s.textChunks) (thinking : s'.thinkingChunks = s.thinkingChunks)
    (lead : s.lead part = []) (thoughtless : part.thoughts = [])
    (noText : textDeltas events = []) (noThoughts : thinkingDeltas events = [])
    (own : toolDeltas events = deltas.map fun delta => (index, delta)) (noEnds : toolEnds events = [])
    (ending : s'.Ending config part events) : s.Fed config part s' where
  told := told
  order := order ▸ List.prefix_rfl
  known := by
    rw [buffers, map_id_set stored id]
    exact fun id member => Or.inl member
  lossless := fun lossless => lossless.setBuffer aligned stored active located id chunks buffers calls
    finished actives order pushed text noText own noEnds
  finals := by
    intro other
    rw [aligned.finalOf_setBuffer told.aligned stored id buffers other, given other]
    split
    · next same => rw [same, aligned.finalOf_of_mem (List.mem_of_getElem? stored), final]
    · rw [Option.or_none]
  story := ⟨events, pushed, concerns, by rw [thinking, lead, thoughtless, List.append_nil, List.append_nil],
    by rw [noThoughts, thoughtless], ending⟩

theorem Told.setBuffer (told : s.Told) (buffer' : ToolCallBuffer) (stored : s.buffers[place]? = some buffer)
    (id : buffer'.id = buffer.id) (index : buffer'.index = buffer.index) :
    ({ s with buffers := s.buffers.set place buffer' } : RawAssembler).Told :=
  told.grow (told.aligned.setBuffer stored id index) (Grows.of_eq rfl rfl rfl rfl) rfl

theorem feedToolCallArgsDelta_fed {delta : PyStr} (told : s.Told) (live : s.terminalEmitted = false)
    (feeds : s.feedToolCallArgsDelta config address delta = .ok s') :
    s.Fed config (.toolCallArgsDelta address delta) s' := by
  obtain ⟨⟨place, buffer⟩, resolves, rest⟩ := Except.bind_ok_iff.mp feeds
  obtain ⟨stored, active⟩ := resolve_spec told.aligned resolves
  obtain ⟨index, located, pushes⟩ := Except.bind_ok_iff.mp rest
  have told1 := told.setBuffer { buffer with argsChunks := buffer.argsChunks ++ [delta] } stored rfl rfl
  obtain ⟨message, reads, rfl, told2⟩ := push_told told1 pushes (by simp [AssistantMessageEvent.message])
  have found := contentBlockIndex_spec located
  obtain ⟨shown, shows, object, call, rfl, same, _⟩ := reads_at reads found
  apply @Fed.ofBuffer config s _ _ place index buffer
    { buffer with argsChunks := buffer.argsChunks ++ [delta] } [.toolcallDelta index delta message] [delta]
    none told.aligned told2 stored active found rfl rfl
  · intro other
    split <;> rfl
  · exact (Option.or_none).symm
  · rfl
  · rfl
  · rfl
  · rfl
  · rfl
  · rfl
  · intro event member
    rw [List.mem_singleton.mp member]
    exact ⟨address, place, buffer, object, call, rfl, resolves, shows, same⟩
  · rfl
  · rfl
  · rfl
  · rfl
  · rfl
  · rfl
  · rfl
  · rfl
  · left
    refine ⟨rfl, live, ?_⟩
    intro event member
    rw [List.mem_singleton.mp member]
    rfl

theorem Aligned.located (aligned : s.Aligned) (member : buffer ∈ s.buffers) :
    ∃ index, s.contentOrder.idxOf? (.tool buffer.id) = some index := by
  apply Option.isSome_iff_exists.mp
  rw [List.isSome_idxOf?, aligned.tool]
  exact List.mem_map_of_mem member

theorem feedToolCallArgsFinal_fed {arguments : PyStr} (told : s.Told) (live : s.terminalEmitted = false)
    (feeds : s.feedToolCallArgsFinal address arguments = .ok s') :
    s.Fed config (.toolCallArgsFinal address arguments) s' := by
  obtain ⟨⟨place, buffer⟩, resolves, rest⟩ := Except.bind_ok_iff.mp feeds
  obtain ⟨stored, active⟩ := resolve_spec told.aligned resolves
  dsimp only at rest
  split at rest
  · cases rest
  next agrees =>
  cases rest
  obtain ⟨index, located⟩ := told.aligned.located (List.mem_of_getElem? stored)
  have final : some arguments = buffer.finalArguments.or (some arguments) := by
    cases before : buffer.finalArguments with
    | none => rfl
    | some earlier =>
      rw [before] at agrees
      have equal : earlier = arguments := by simpa using agrees
      rw [equal]
      rfl
  apply @Fed.ofBuffer config s _ _ place index buffer { buffer with finalArguments := some arguments }
    [] [] (some arguments) told.aligned
    (told.setBuffer { buffer with finalArguments := some arguments } stored rfl rfl) stored active located rfl
    (List.append_nil _).symm _ final
  · rfl
  · rfl
  · rfl
  · rfl
  · rfl
  · exact (List.append_nil _).symm
  · exact fun _ member => absurd member List.not_mem_nil
  · rfl
  · rfl
  · rfl
  · rfl
  · rfl
  · rfl
  · rfl
  · rfl
  · exact Or.inl ⟨rfl, live, fun _ member => absurd member List.not_mem_nil⟩
  · intro other
    rw [given, resolves]
    simp only [eq_comm]

/-- Replacing a finished call by one of the same id keeps the tables aligned. -/
theorem Aligned.replaceCall (aligned : s.Aligned) (updated : ToolCall)
    (stored : s.toolCalls[place]? = some call) (same : updated.id = call.id) :
    ({ s with toolCalls := s.toolCalls.set place updated
              toolCallsById := s.toolCallsById.set updated.id updated } : RawAssembler).Aligned where
  order := aligned.order
  text := aligned.text
  thinking := aligned.thinking
  image := aligned.image
  images := aligned.images
  tool := aligned.tool
  buffers := aligned.buffers
  covered := by
    intro id member
    dsimp only
    rw [Dict.get?_set]
    split
    · exact Or.inl rfl
    · exact aligned.covered id member
  active := aligned.active
  indexed := aligned.indexed
  finished := by
    intro id other found
    dsimp only at found ⊢
    rw [Dict.get?_set] at found
    split at found
    · next here =>
      cases found
      obtain ⟨before, known⟩ := Option.isSome_iff_exists.mp
        (aligned.listed call (List.mem_of_getElem? stored))
      have old := aligned.finished call.id before known
      refine ⟨here.symm, ?_⟩
      rw [here, same]
      exact old.2
    · exact aligned.finished id other found
  listed := by
    intro other member
    dsimp only at member ⊢
    rw [Dict.get?_set]
    split
    · rfl
    · next different =>
      rcases List.mem_or_eq_of_mem_set member with old | rfl
      · exact aligned.listed other old
      · exact absurd rfl different

theorem Lossless.replaceCall (lossless : s.Lossless config) {place : Nat} {call updated : ToolCall}
    (stored : s.toolCalls[place]? = some call) (id : updated.id = call.id) (name : updated.name = call.name)
    (arguments : updated.arguments = call.arguments) :
    ({ s with toolCalls := s.toolCalls.set place updated
              toolCallsById := s.toolCallsById.set updated.id updated } : RawAssembler).Lossless config := by
  have finished : s.FinishedAs config updated := by
    obtain ⟨buffer, member, same, named, parsed⟩ := lossless.listed call (List.mem_of_getElem? stored)
    exact ⟨buffer, member, same.trans id.symm, name.trans named, arguments ▸ parsed⟩
  constructor
  · exact lossless.text
  · exact lossless.calls
  · exact lossless.indices
  · intro entry member
    obtain ⟨located, inactive, known, rest⟩ := lossless.ended entry member
    refine ⟨located, inactive, ?_, rest⟩
    rw [Dict.get?_set]
    split
    · rfl
    · exact known
  · intro other call' found
    dsimp only at found
    rw [Dict.get?_set] at found
    split at found
    · cases found
      exact finished
    · exact lossless.finished other call' found
  · intro other member
    rcases List.mem_or_eq_of_mem_set member with old | rfl
    · exact lossless.listed other old
    · exact finished

/-- Assembles the report of a part without events that leaves the buffers alone. -/
theorem Fed.ofRecord {part : RawPart} (told : s'.Told) (buffers : s'.buffers = s.buffers)
    (order : s'.contentOrder = s.contentOrder) (lossless : s.Lossless config → s'.Lossless config)
    (pushed : s'.pushed = s.pushed) (thinking : s'.thinkingChunks = s.thinkingChunks)
    (given : ∀ id, s.given id part = none) (lead : s.lead part = []) (thoughtless : part.thoughts = [])
    (goesOn : part.isTerminal = false) (live : s'.terminalEmitted = false) : s.Fed config part s' where
  told := told
  order := order ▸ List.prefix_rfl
  known := by
    rw [buffers]
    exact fun id member => Or.inl member
  lossless := lossless
  finals := by
    intro id
    rw [given id, Option.or_none, finalOf, finalOf, buffers]
  story := by
    refine ⟨[], pushed.trans (List.append_nil _).symm, fun _ member => absurd member List.not_mem_nil, ?_,
      thoughtless.symm, Or.inl ⟨goesOn, live, fun _ member => absurd member List.not_mem_nil⟩⟩
    rw [lead, thoughtless, List.append_nil, List.append_nil, thinking]

theorem feedToolCallThoughtSignature_fed {id signature : PyStr} (told : s.Told)
    (live : s.terminalEmitted = false) :
    s.Fed config (.toolCallThoughtSignature id signature) (s.feedToolCallThoughtSignature id signature) := by
  unfold feedToolCallThoughtSignature
  split
  · next place active =>
    obtain ⟨buffer, stored, rfl⟩ := told.aligned.active id place active
    obtain ⟨index, located⟩ := told.aligned.located (List.mem_of_getElem? stored)
    have told' := told.setBuffer { buffer with thoughtSignature := some signature } stored rfl rfl
    have modified : s.buffers.modify place (fun buffer => { buffer with thoughtSignature := some signature }) =
        s.buffers.set place { buffer with thoughtSignature := some signature } := by
      have : Inhabited ToolCallBuffer := ⟨buffer⟩
      rw [List.modify_eq_set, stored]
      rfl
    rw [modified]
    apply @Fed.ofBuffer config s _ _ place index buffer { buffer with thoughtSignature := some signature }
      [] [] none told.aligned told' stored active located rfl (List.append_nil _).symm _
      (Option.or_none).symm
    · rfl
    · rfl
    · rfl
    · rfl
    · rfl
    · exact (List.append_nil _).symm
    · exact fun _ member => absurd member List.not_mem_nil
    · rfl
    · rfl
    · rfl
    · rfl
    · rfl
    · rfl
    · rfl
    · rfl
    · exact Or.inl ⟨rfl, live, fun _ member => absurd member List.not_mem_nil⟩
    · intro other
      split <;> rfl
  have unchanged : s.Fed config (.toolCallThoughtSignature id signature) s :=
    Fed.ofRecord told rfl rfl (fun lossless => lossless) rfl rfl (fun _ => rfl) rfl rfl rfl live
  split
  · exact unchanged
  split
  · exact unchanged
  next place _ call stored =>
  have aligned := told.aligned.replaceCall { call with thoughtSignature := some signature } stored rfl
  exact Fed.ofRecord (told.grow aligned (Grows.of_eq rfl rfl rfl rfl) rfl) rfl rfl
    (fun lossless => lossless.replaceCall stored rfl rfl rfl) rfl rfl (fun _ => rfl) rfl rfl rfl live

/-- A buffer of a new id with its entry in the order. -/
theorem Aligned.addCall (aligned : s.Aligned) (name : PyStr) (index : Option Int)
    (fresh : id ∉ s.buffers.map ToolCallBuffer.id) :
    ({ s with
        buffers := s.buffers ++ [{ id := id, name := name, index := index }]
        activeById := s.activeById.set id s.buffers.length
        activeByIndex := match index with
          | some index => s.activeByIndex.set index s.buffers.length
          | none => s.activeByIndex
        contentOrder := s.contentOrder ++ [.tool id] } : RawAssembler).Aligned := by
  have last : (s.buffers ++ [({ id := id, name := name, index := index } : ToolCallBuffer)])[s.buffers.length]? =
      some { id := id, name := name, index := index } := by
    rw [List.getElem?_append_right (Nat.le_refl _), Nat.sub_self]
    rfl
  have kept : ∀ {place buffer}, s.buffers[place]? = some buffer →
      (s.buffers ++ [({ id := id, name := name, index := index } : ToolCallBuffer)])[place]? = some buffer :=
    fun stored => getElem?_of_front (List.prefix_append _ _) stored
  have distinct : ∀ buffer ∈ s.buffers, buffer.id ≠ id := by
    rintro buffer member rfl
    exact fresh (List.mem_map_of_mem member)
  have numbered : ∀ at_index place, s.activeByIndex.get? at_index = some place →
      ∃ buffer,
        (s.buffers ++ [({ id := id, name := name, index := index } : ToolCallBuffer)])[place]? = some buffer ∧
        buffer.index = some at_index ∧ (s.activeById.set id s.buffers.length).get? buffer.id = some place := by
    intro at_index place found
    obtain ⟨buffer, stored, same, active⟩ := aligned.indexed at_index place found
    refine ⟨buffer, kept stored, same, ?_⟩
    rw [Dict.get?_set_of_ne _ _ (distinct buffer (List.mem_of_getElem? stored))]
    exact active
  constructor
  · exact nodup_snoc aligned.order fun member => fresh ((aligned.tool id).mp member)
  · exact fun member => aligned.text (by simpa using member)
  · exact fun member => aligned.thinking (by simpa using member)
  · exact fun place => by simpa using aligned.image place
  · exact aligned.images
  · intro other
    rw [List.mem_append, List.mem_singleton, Marker.tool.injEq, aligned.tool, List.map_append, List.mem_append,
      List.map_singleton, List.mem_singleton]
  · rw [List.map_append]
    exact nodup_snoc aligned.buffers fresh
  · intro other member
    dsimp only
    rw [Dict.get?_set]
    split
    · exact Or.inr rfl
    · next different =>
      rw [List.map_append, List.mem_append, List.map_singleton, List.mem_singleton] at member
      exact aligned.covered other (member.resolve_right different)
  · intro other place found
    dsimp only at found ⊢
    rw [Dict.get?_set] at found
    split at found
    · next same =>
      cases found
      exact ⟨_, last, same.symm⟩
    · obtain ⟨buffer, stored, same⟩ := aligned.active other place found
      exact ⟨buffer, kept stored, same⟩
  · intro at_index place found
    cases index with
    | none => exact numbered at_index place found
    | some wanted =>
      dsimp only at found
      rw [Dict.get?_set] at found
      split at found
      · next same =>
        cases found
        exact ⟨_, last, congrArg some same.symm, Dict.get?_set_self _ _ _⟩
      · exact numbered at_index place found
  · intro other call found
    obtain ⟨same, inactive, member⟩ := aligned.finished other call found
    have different : other ≠ id := by
      rintro rfl
      exact fresh member
    refine ⟨same, ?_, ?_⟩
    · dsimp only
      rw [Dict.get?_set_of_ne _ _ different]
      exact inactive
    · rw [List.map_append]
      exact List.mem_append_left _ member
  · exact aligned.listed

theorem deltasAt_new {deltas : List (Nat × PyStr)} (below : ∀ entry ∈ deltas, entry.1 < index) :
    deltasAt index deltas = [] := by
  rw [deltasAt, List.filter_eq_nil_iff.mpr]
  · rfl
  · intro entry member
    have smaller := below entry member
    rw [decide_eq_true_eq]
    omega

theorem Lossless.addCall (lossless : s.Lossless config) (aligned : s.Aligned) {name : PyStr}
    {index : Option Int} (fresh : id ∉ s.buffers.map ToolCallBuffer.id)
    (buffers : s'.buffers = s.buffers ++ [{ id := id, name := name, index := index }])
    (actives : s'.activeById = s.activeById.set id s.buffers.length) (calls : s'.toolCalls = s.toolCalls)
    (finished : s'.toolCallsById = s.toolCallsById) (order : s'.contentOrder = s.contentOrder ++ [.tool id])
    (pushed : s'.pushed = s.pushed ++ events) (text : s'.textChunks = s.textChunks)
    (quiet : ∀ event ∈ events, event.isQuiet = true) : s'.Lossless config := by
  have longer : s.contentOrder <+: s'.contentOrder := order ▸ List.prefix_append _ _
  have grown : s.buffers ⊆ s'.buffers := fun _ member => buffers ▸ List.mem_append_left _ member
  have placed : s'.contentOrder.idxOf? (.tool id) = some s.contentOrder.length := by
    have absent : Marker.tool id ∉ s.contentOrder := fun member => fresh ((aligned.tool id).mp member)
    rw [order]
    refine List.idxOf?_eq_some_iff.mpr ⟨by simp, by simp, ?_⟩
    intro i smaller
    rw [List.getElem_append_left smaller]
    intro same
    exact absent (same ▸ List.getElem_mem smaller)
  constructor
  · rw [text, pushed, textDeltas_append, textDeltas_quiet quiet, List.append_nil]
    exact lossless.text
  · rw [buffers, pushed, toolDeltas_append, toolDeltas_quiet quiet, List.append_nil]
    intro buffer member
    rcases List.mem_append.mp member with old | new
    · obtain ⟨contentIndex, located, chunks⟩ := lossless.calls buffer old
      exact ⟨contentIndex, idxOf?_of_front longer located, chunks⟩
    · rw [List.mem_singleton.mp new]
      exact ⟨_, placed, (deltasAt_new lossless.indices).symm⟩
  · rw [pushed, toolDeltas_append, toolDeltas_quiet quiet, List.append_nil]
    exact fun entry member => Nat.lt_of_lt_of_le (lossless.indices entry member) longer.length_le
  · rw [pushed, toolEnds_append, toolEnds_quiet quiet, List.append_nil, actives, finished]
    intro entry member
    obtain ⟨located, inactive, known, buffer, held, built⟩ := lossless.ended entry member
    refine ⟨idxOf?_of_front longer located, ?_, known, buffer, grown held, built⟩
    rw [Dict.get?_set_of_ne]
    · exact inactive
    · rw [(buildToolCall_id built).1]
      rintro rfl
      exact fresh (List.mem_map_of_mem held)
  · intro other call found
    rw [finished] at found
    obtain ⟨buffer, member, rest⟩ := lossless.finished other call found
    exact ⟨buffer, grown member, rest⟩
  · intro call member
    rw [calls] at member
    obtain ⟨buffer, held, rest⟩ := lossless.listed call member
    exact ⟨buffer, grown held, rest⟩

theorem feedToolCallStart_fed {name : PyStr} {index : Option Int} (told : s.Told)
    (live : s.terminalEmitted = false) (fresh : id ∉ s.buffers.map ToolCallBuffer.id)
    (feeds : s.feedToolCallStart config id name index = .ok s') :
    s.Fed config (.toolCallStart id name index) s' := by
  obtain ⟨s1, started, rest⟩ := Except.bind_ok_iff.mp feeds
  obtain ⟨events, ticks, rfl, told1, starts⟩ := ensureStarted_spec told started
  have absent : Marker.tool id ∉ s.contentOrder := fun member => fresh ((told.aligned.tool id).mp member)
  dsimp only at rest
  rw [addMarker, if_neg absent] at rest
  obtain ⟨contentIndex, located, pushes⟩ := Except.bind_ok_iff.mp rest
  have aligned := told1.aligned.addCall name index fresh
  have told2 := told1.grow aligned
    ⟨List.prefix_append _ _, List.prefix_rfl, List.prefix_rfl, List.prefix_rfl⟩ rfl
  obtain ⟨message, reads, rfl, told3⟩ := push_told told2 pushes (by simp [AssistantMessageEvent.message])
  obtain ⟨shown, found, object, call, rfl, same, source⟩ := reads_at reads (contentBlockIndex_spec located)
  have named : call.name = name := by
    rcases source with finished | ⟨buffer, active, built⟩
    · have finished : s.toolCallsById.get? id = some call := finished
      exact absurd (told.aligned.finished id call finished).2.2 fresh
    · rw [(buildToolCall_id built).2.1]
      unfold activeBuffer at active
      dsimp only at active
      rw [Dict.get?_set_self, Option.bind_some, List.getElem?_append_right (Nat.le_refl _),
        Nat.sub_self] at active
      cases active
      rfl
  have quiet : ∀ event ∈ events ++ [.toolcallStart contentIndex message],
      event.isQuiet = true ∧ s.Concerns (.toolCallStart id name index) event :=
    forall_mem_snoc (ensureStarted_concerns _ starts)
      ⟨rfl, id, name, index, object, call, rfl, found, same, named⟩
  have still := fun event member => (quiet event member).1
  constructor
  · exact told3
  · exact List.prefix_append _ _
  · intro other member
    dsimp only at member
    rw [List.map_append, List.mem_append, List.map_singleton, List.mem_singleton] at member
    rcases member with old | rfl
    · exact Or.inl old
    · exact Or.inr rfl
  · exact fun lossless => lossless.addCall told.aligned fresh rfl rfl rfl rfl rfl
      (List.append_assoc _ _ _) rfl still
  · intro other
    rw [show s.given other (.toolCallStart id name index) = none from rfl, Option.or_none]
    unfold finalOf
    dsimp only
    rw [List.find?_append]
    cases known : s.buffers.find? fun buffer => buffer.id = other with
    | some buffer => rfl
    | none =>
      rw [Option.none_or, List.find?_singleton]
      split <;> rfl
  · exact ⟨_, List.append_assoc _ _ _, fun event member => (quiet event member).2,
      ((List.append_nil _).trans (List.append_nil _)).symm, thinkingDeltas_quiet still,
      Or.inl ⟨rfl, live, not_terminal_of_quiet still⟩⟩

/-- The call of an active buffer moves to the finished ones. -/
theorem Aligned.finishCall (aligned : s.Aligned) (stored : s.buffers[place]? = some buffer)
    (active : s.activeById.get? buffer.id = some place) (id : call.id = buffer.id) :
    (removeActive place buffer { s with
      toolCalls := s.toolCalls ++ [call]
      toolCallsById := s.toolCallsById.set call.id call }).Aligned := by
  have gone : ∀ {other place'}, (s.activeById.pop buffer.id).get? other = some place' →
      other ≠ buffer.id ∧ s.activeById.get? other = some place' := by
    intro other place' found
    have different : other ≠ buffer.id := by
      rintro rfl
      rw [Dict.get?_pop_self] at found
      cases found
    rw [Dict.get?_pop_of_ne _ different] at found
    exact ⟨different, found⟩
  have remaining : ∀ {at_index place'},
      (removeActive place buffer s).activeByIndex.get? at_index = some place' →
      s.activeByIndex.get? at_index = some place' ∧ (buffer.index = some at_index → place' ≠ place) := by
    intro at_index place' found
    unfold removeActive at found
    dsimp only at found
    split at found
    · next wanted numbered =>
      split at found
      · have different : at_index ≠ wanted := by
          rintro rfl
          rw [Dict.get?_pop_self] at found
          cases found
        rw [Dict.get?_pop_of_ne _ different] at found
        refine ⟨found, ?_⟩
        intro same
        exact absurd (Option.some.inj (same.symm.trans numbered)) different
      · next elsewhere =>
        refine ⟨found, ?_⟩
        rintro same rfl
        rw [same, Option.some.injEq] at numbered
        exact elsewhere (numbered ▸ found)
    · next unnumbered =>
      refine ⟨found, ?_⟩
      intro same
      rw [same] at unnumbered
      cases unnumbered
  constructor
  · exact aligned.order
  · exact aligned.text
  · exact aligned.thinking
  · exact aligned.image
  · exact aligned.images
  · exact aligned.tool
  · exact aligned.buffers
  · intro other member
    change ((s.toolCallsById.set call.id call).get? other).isSome ∨
      ((s.activeById.pop buffer.id).get? other).isSome
    rw [Dict.get?_set]
    split
    · exact Or.inl rfl
    · next different =>
      rw [Dict.get?_pop_of_ne _ (id ▸ different)]
      exact aligned.covered other member
  · intro other place' found
    exact aligned.active other place' (gone found).2
  · intro at_index place' found
    obtain ⟨known, elsewhere⟩ := remaining found
    obtain ⟨held, stored', numbered, active'⟩ := aligned.indexed at_index place' known
    refine ⟨held, stored', numbered, ?_⟩
    change (s.activeById.pop buffer.id).get? held.id = some place'
    rw [Dict.get?_pop_of_ne]
    · exact active'
    · intro same
      rw [same, active, Option.some.injEq] at active'
      subst active'
      rw [stored, Option.some.injEq] at stored'
      exact elsewhere (stored' ▸ numbered) rfl
  · intro other call' found
    change (s.toolCallsById.set call.id call).get? other = some call' at found
    change call'.id = other ∧ (s.activeById.pop buffer.id).get? other = none ∧
      other ∈ s.buffers.map ToolCallBuffer.id
    rw [Dict.get?_set] at found
    split at found
    · next same =>
      cases found
      refine ⟨same.symm, ?_, ?_⟩
      · rw [same, id, Dict.get?_pop_self]
      · rw [same, id]
        exact List.mem_map_of_mem (List.mem_of_getElem? stored)
    · next different =>
      obtain ⟨same, inactive, member⟩ := aligned.finished other call' found
      rw [Dict.get?_pop_of_ne _ (id ▸ different)]
      exact ⟨same, inactive, member⟩
  · intro other member
    change ((s.toolCallsById.set call.id call).get? other.id).isSome
    rw [Dict.get?_set]
    split
    · rfl
    · next different =>
      rcases List.mem_append.mp member with old | new
      · exact aligned.listed other old
      · exact absurd (congrArg ToolCall.id (List.mem_singleton.mp new)) different

theorem Lossless.finishCall (lossless : s.Lossless config) {message : AssistantMessage} {ticks : Nat}
    (stored : s.buffers[place]? = some buffer) (built : buildToolCall config buffer = .ok call)
    (located : s.contentOrder.idxOf? (.tool buffer.id) = some index) :
    (removeActive place buffer { s with
      pushed := s.pushed ++ [.toolcallEnd index call message]
      ticks := ticks
      toolCalls := s.toolCalls ++ [call]
      toolCallsById := s.toolCallsById.set call.id call }).Lossless config := by
  have member : buffer ∈ s.buffers := List.mem_of_getElem? stored
  obtain ⟨id, name, parsed⟩ := buildToolCall_id built
  have finished : s.FinishedAs config call := ⟨buffer, member, id.symm, name, parsed⟩
  constructor
  · change s.textChunks = textDeltas (s.pushed ++ [.toolcallEnd index call message])
    rw [textDeltas_append, lossless.text]
    exact (List.append_nil _).symm
  · intro other held
    obtain ⟨contentIndex, placed, chunks⟩ := lossless.calls other held
    refine ⟨contentIndex, placed, ?_⟩
    change other.argsChunks =
      deltasAt contentIndex (toolDeltas (s.pushed ++ [.toolcallEnd index call message]))
    rw [toolDeltas_append, chunks]
    exact (congrArg (deltasAt contentIndex) (List.append_nil _)).symm
  · change ∀ entry ∈ toolDeltas (s.pushed ++ [.toolcallEnd index call message]), entry.1 < s.contentOrder.length
    rw [toolDeltas_append]
    intro entry told
    exact lossless.indices entry ((List.mem_append.mp told).resolve_right List.not_mem_nil)
  · change ∀ entry ∈ toolEnds (s.pushed ++ [.toolcallEnd index call message]),
      s.contentOrder.idxOf? (.tool entry.2.id) = some entry.1 ∧
        (s.activeById.pop buffer.id).get? entry.2.id = none ∧
        ((s.toolCallsById.set call.id call).get? entry.2.id).isSome ∧
        ∃ buffer ∈ s.buffers, buildToolCall config buffer = .ok entry.2
    rw [toolEnds_append]
    intro entry told
    rcases List.mem_append.mp told with old | new
    · obtain ⟨placed, inactive, known, source⟩ := lossless.ended entry old
      refine ⟨placed, ?_, ?_, source⟩
      · by_cases same : entry.2.id = buffer.id
        · rw [same, Dict.get?_pop_self]
        · rw [Dict.get?_pop_of_ne _ same]
          exact inactive
      · rw [Dict.get?_set]
        split
        · rfl
        · exact known
    · have same : entry = (index, call) := List.mem_singleton.mp new
      rw [same]
      refine ⟨?_, ?_, ?_, buffer, member, built⟩
      · rw [id]
        exact located
      · rw [id, Dict.get?_pop_self]
      · rw [Dict.get?_set_self]
        rfl
  · intro other call' found
    change (s.toolCallsById.set call.id call).get? other = some call' at found
    rw [Dict.get?_set] at found
    split at found
    · cases found
      exact finished
    · exact lossless.finished other call' found
  · intro other held
    rcases List.mem_append.mp held with old | new
    · exact lossless.listed other old
    · rw [List.mem_singleton.mp new]
      exact finished

theorem feedToolCallDone_fed (told : s.Told) (live : s.terminalEmitted = false)
    (feeds : s.feedToolCallDone config address = .ok s') : s.Fed config (.toolCallDone address) s' := by
  obtain ⟨⟨place, buffer⟩, resolves, rest⟩ := Except.bind_ok_iff.mp feeds
  obtain ⟨stored, active⟩ := resolve_spec told.aligned resolves
  obtain ⟨call, built, rest⟩ := Except.bind_ok_iff.mp rest
  obtain ⟨index, located, rest⟩ := Except.bind_ok_iff.mp rest
  obtain ⟨s1, pushes, done⟩ := Except.bind_ok_iff.mp rest
  cases done
  obtain ⟨message, reads, rfl, told1⟩ := push_told told pushes (by simp [AssistantMessageEvent.message])
  have placed := contentBlockIndex_spec located
  have id := (buildToolCall_id built).1
  have shows : ∃ object, message.content[index]? = some (.toolCall object call) := by
    obtain ⟨shown, found, object, other, rfl, same, source⟩ := reads_at reads placed
    rcases source with finished | ⟨held, here, again⟩
    · have inactive := (told.aligned.finished _ _ finished).2.1
      rw [active] at inactive
      cases inactive
    · rw [activeBuffer_eq stored active, Option.some.injEq] at here
      subst here
      rw [built, Except.ok.injEq] at again
      exact ⟨object, again ▸ found⟩
  obtain ⟨object, found⟩ := shows
  constructor
  · exact told1.grow (told1.aligned.finishCall stored active id) (Grows.of_eq rfl rfl rfl rfl) rfl
  · exact List.prefix_rfl
  · exact fun other member => Or.inl member
  · exact fun lossless => lossless.finishCall stored built placed
  · exact fun other => (Option.or_none).symm
  · refine ⟨[.toolcallEnd index call message], rfl, ?_, ((List.append_nil _).trans (List.append_nil _)).symm,
      rfl, Or.inl ⟨rfl, live, ?_⟩⟩
    · intro event member
      rw [List.mem_singleton.mp member]
      exact ⟨address, place, buffer, object, rfl, resolves, id, found⟩
    · intro event member
      rw [List.mem_singleton.mp member]
      rfl

end RawAssembler

end Loushang.Ai
