import Loushang.Ai.Assembler
import Loushang.Lib.Folds

/-!
# The tables of the assembler stay aligned

The order of started blocks never names a block without content, so an index into the order is an
index into the content built from it.
-/
namespace Loushang.Ai
open Lib

namespace RawAssembler

variable {config : AssemblerConfig} {s s' : RawAssembler}

/-- Each started block has content, each table refers to buffers that exist, and a call is either
active or finished. -/
structure Aligned (s : RawAssembler) : Prop where
  order : s.contentOrder.Nodup
  text : .text ∈ s.contentOrder → s.textStarted = true
  thinking : .thinking ∈ s.contentOrder → s.thinkingStarted = true
  image : ∀ place, .image place ∈ s.contentOrder ↔ place < s.images.length
  images : ∀ part ∈ s.images, ∃ data mimeType, part = .image data mimeType
  tool : ∀ id, .tool id ∈ s.contentOrder ↔ id ∈ s.buffers.map ToolCallBuffer.id
  buffers : (s.buffers.map ToolCallBuffer.id).Nodup
  covered : ∀ id ∈ s.buffers.map ToolCallBuffer.id,
    (s.toolCallsById.get? id).isSome ∨ (s.activeById.get? id).isSome
  active : ∀ id place, s.activeById.get? id = some place →
    ∃ buffer, s.buffers[place]? = some buffer ∧ buffer.id = id
  indexed : ∀ index place, s.activeByIndex.get? index = some place →
    ∃ buffer, s.buffers[place]? = some buffer ∧ buffer.index = some index ∧
      s.activeById.get? buffer.id = some place
  finished : ∀ id call, s.toolCallsById.get? id = some call →
    call.id = id ∧ s.activeById.get? id = none ∧ id ∈ s.buffers.map ToolCallBuffer.id
  listed : ∀ call ∈ s.toolCalls, (s.toolCallsById.get? call.id).isSome

/-- What the block of an entry of the order looks like. -/
def Reads (config : AssemblerConfig) (s : RawAssembler) (marker : Marker) (part : ContentPart) : Prop :=
  match marker with
  | .text => ∃ signature, part = .text (joined s.textChunks) signature
  | .thinking => ∃ signature redacted, part = .thinking (joined s.thinkingChunks) signature redacted
  | .tool id => ∃ object call, part = .toolCall object call ∧ call.id = id ∧
      (s.toolCallsById.get? id = some call ∨
        ∃ buffer, s.activeBuffer id = some buffer ∧ buildToolCall config buffer = .ok call)
  | .image place => s.images[place]? = some part

theorem buildToolCall_id {buffer : ToolCallBuffer} {call : ToolCall}
    (built : buildToolCall config buffer = .ok call) :
    call.id = buffer.id ∧ call.name = buffer.name ∧
      parseToolCallArguments config buffer = .ok call.arguments := by
  obtain ⟨arguments, parsed, done⟩ := Except.bind_ok_iff.mp built
  cases done
  exact ⟨rfl, rfl, parsed⟩

theorem block_reads (aligned : s.Aligned) {entry : Marker × Nat} (started : entry.1 ∈ s.contentOrder)
    {part : Option ContentPart} (built : s.block config entry = .ok part) :
    ∃ shown, part = some shown ∧ s.Reads config entry.1 shown := by
  obtain ⟨marker, place⟩ := entry
  cases marker with
  | text =>
    have content : s.hasTextContent = true := by
      rw [hasTextContent, aligned.text started]
      rfl
    simp only [block, content, if_true] at built
    cases built
    exact ⟨_, rfl, _, rfl⟩
  | thinking =>
    have content : s.hasThinkingContent = true := by
      rw [hasThinkingContent, aligned.thinking started]
      rfl
    simp only [block, content, if_true] at built
    cases built
    exact ⟨_, rfl, _, _, rfl⟩
  | tool id =>
    cases known : s.toolCallsById.get? id with
    | some call =>
      simp only [block, known] at built
      cases built
      exact ⟨_, rfl, _, call, rfl, (aligned.finished id call known).1, Or.inl known⟩
    | none =>
      have covered := aligned.covered id ((aligned.tool id).mp started)
      rw [known] at covered
      obtain ⟨place', found⟩ := Option.isSome_iff_exists.mp (covered.resolve_left (by simp))
      obtain ⟨buffer, stored, same⟩ := aligned.active id place' found
      have active : s.activeBuffer id = some buffer := by rw [activeBuffer, found, Option.bind_some, stored]
      simp only [block, known, active] at built
      obtain ⟨call, made, done⟩ := Except.bind_ok_iff.mp built
      cases done
      exact ⟨_, rfl, _, call, rfl, (buildToolCall_id made).1.trans same, Or.inr ⟨buffer, active, made⟩⟩
  | image index =>
    cases built
    have bound := (aligned.image index).mp started
    exact ⟨_, List.getElem?_eq_getElem bound, List.getElem?_eq_getElem bound⟩

variable {content : List ContentPart}

theorem blocks_reads (aligned : s.Aligned) {entries : List (Marker × Nat)}
    (started : ∀ entry ∈ entries, entry.1 ∈ s.contentOrder) (built : s.blocks config entries = .ok content) :
    List.Forall₂ (s.Reads config) (entries.map Prod.fst) content := by
  induction entries generalizing content with
  | nil =>
    cases built
    exact .nil
  | cons entry rest ih =>
    obtain ⟨part, first, more⟩ := Except.bind_ok_iff.mp built
    obtain ⟨parts, others, done⟩ := Except.bind_ok_iff.mp more
    cases done
    obtain ⟨shown, rfl, reads⟩ := block_reads aligned (started entry List.mem_cons_self) first
    exact .cons reads (ih (fun other member => started other (List.mem_cons_of_mem _ member)) others)

/-- The content has one block for each entry of the order, in order. -/
theorem buildMessage_reads (aligned : s.Aligned) {stopReason : PyStr} {errorMessage : Option PyStr}
    {errorInfo : Option Json} {message : AssistantMessage}
    (built : s.buildMessage config stopReason errorMessage errorInfo = .ok message) :
    List.Forall₂ (s.Reads config) s.contentOrder message.content := by
  obtain ⟨content, blocks, done⟩ := Except.bind_ok_iff.mp built
  cases done
  have reads := blocks_reads aligned (fun entry member => List.fst_mem_of_mem_zipIdx member) blocks
  rwa [List.zipIdx_map_fst] at reads

theorem push_spec {events : AssistantMessage → List AssistantMessageEvent}
    (pushes : s.push config events = .ok s') :
    ∃ message, s.buildMessage config s.stopReason none none = .ok message ∧
      s' = { s with pushed := s.pushed ++ events message, ticks := s.ticks + 1 } := by
  obtain ⟨message, built, done⟩ := Except.bind_ok_iff.mp pushes
  cases done
  exact ⟨message, built, rfl⟩

variable {marker : Marker}

theorem contentBlockIndex_spec {index : Nat} (found : s.contentBlockIndex marker = .ok index) :
    s.contentOrder.idxOf? marker = some index := by
  unfold contentBlockIndex at found
  split at found
  · next located =>
    cases found
    exact located
  · cases found

/-- The block at the index of a started entry is the block of that entry. -/
theorem reads_at {index : Nat} (reads : List.Forall₂ (s.Reads config) s.contentOrder content)
    (located : s.contentOrder.idxOf? marker = some index) :
    ∃ part, content[index]? = some part ∧ s.Reads config marker part := by
  obtain ⟨bound, same, _⟩ := List.idxOf?_eq_some_iff.mp located
  have shorter : index < content.length := reads.length_eq ▸ bound
  refine ⟨content[index], List.getElem?_eq_getElem shorter, ?_⟩
  have entry := (List.forall₂_iff_get.mp reads).2 index bound shorter
  simp only [List.get_eq_getElem] at entry
  rwa [same] at entry

end RawAssembler

def AssistantMessageEvent.message : AssistantMessageEvent → AssistantMessage
  | .start message | .textStart _ message | .textDelta _ _ message | .textEnd _ _ message
  | .thinkingStart _ message | .thinkingDelta _ _ message | .thinkingEnd _ _ message
  | .toolcallStart _ message | .toolcallDelta _ _ message | .toolcallEnd _ _ message
  | .imageStart _ message | .imageEnd _ _ message | .done _ message | .error _ message _ _ => message

/-- The same block, later: a text or a thought may have grown. -/
def SameBlock : ContentPart → ContentPart → Prop
  | .text before _, .text after _ => before.points <+: after.points
  | .thinking before _ _, .thinking after _ _ => before.points <+: after.points
  | .toolCall _ before, .toolCall _ after => before.id = after.id
  | before, after => before = after

/-- No block of the earlier content has moved or gone. -/
def Continues (earlier later : List ContentPart) : Prop :=
  ∀ (index : Nat) (before : ContentPart), earlier[index]? = some before →
    ∃ after, later[index]? = some after ∧ SameBlock before after

theorem SameBlock.refl (part : ContentPart) : SameBlock part part := by
  cases part with
  | text _ _ => exact List.prefix_rfl
  | thinking _ _ _ => exact List.prefix_rfl
  | toolCall _ _ => rfl
  | image _ _ => rfl

variable {after : ContentPart}

theorem SameBlock.of_text {text : PyStr} {signature : Option TextSignature}
    (same : SameBlock (.text text signature) after) : ∃ text' signature', after = .text text' signature' := by
  cases after with
  | text text' signature' => exact ⟨text', signature', rfl⟩
  | thinking _ _ _ => cases same
  | toolCall _ _ => cases same
  | image _ _ => cases same

theorem SameBlock.of_thinking {text : PyStr} {signature : Option PyStr} {redacted : Bool}
    (same : SameBlock (.thinking text signature redacted) after) :
    ∃ text' signature' redacted', after = .thinking text' signature' redacted' := by
  cases after with
  | text _ _ => cases same
  | thinking text' signature' redacted' => exact ⟨text', signature', redacted', rfl⟩
  | toolCall _ _ => cases same
  | image _ _ => cases same

@[simp] theorem joined_points (chunks : List PyStr) :
    (joined chunks).points = chunks.flatMap PyStr.points := by
  induction chunks with
  | nil => rfl
  | cons chunk rest ih =>
    cases rest with
    | nil => exact (List.append_nil _).symm
    | cons next rest =>
      change (chunk.points ++ []) ++ (joined (next :: rest)).points = _
      rw [ih, List.append_nil]
      rfl

namespace RawAssembler

variable {config : AssemblerConfig} {s s' : RawAssembler}

/-- The block as it was, when the block of the entry was not yet what it is. -/
def VersionOf (s : RawAssembler) (marker : Marker) (part : ContentPart) : Prop :=
  match marker with
  | .text => ∃ text signature, part = .text text signature ∧
      text.points <+: (joined s.textChunks).points
  | .thinking => ∃ text signature redacted, part = .thinking text signature redacted ∧
      text.points <+: (joined s.thinkingChunks).points
  | .tool id => ∃ object call, part = .toolCall object call ∧ call.id = id
  | .image place => s.images[place]? = some part

def Earlier (s : RawAssembler) (content : List ContentPart) : Prop :=
  ∀ (index : Nat) (part : ContentPart), content[index]? = some part →
    ∃ marker, s.contentOrder[index]? = some marker ∧ s.VersionOf marker part

variable {marker : Marker} {part : ContentPart}

theorem Reads.versionOf (reads : s.Reads config marker part) : s.VersionOf marker part := by
  cases marker with
  | text =>
    obtain ⟨signature, rfl⟩ := reads
    exact ⟨_, _, rfl, List.prefix_rfl⟩
  | thinking =>
    obtain ⟨signature, redacted, rfl⟩ := reads
    exact ⟨_, _, _, rfl, List.prefix_rfl⟩
  | tool id =>
    obtain ⟨object, call, rfl, same, _⟩ := reads
    exact ⟨_, _, rfl, same⟩
  | image place => exact reads

theorem VersionOf.sameBlock {before after : ContentPart} (version : s.VersionOf marker before)
    (reads : s.Reads config marker after) : SameBlock before after := by
  cases marker with
  | text =>
    obtain ⟨text, signature, rfl, older⟩ := version
    obtain ⟨_, rfl⟩ := reads
    exact older
  | thinking =>
    obtain ⟨text, signature, redacted, rfl, older⟩ := version
    obtain ⟨_, _, rfl⟩ := reads
    exact older
  | tool id =>
    obtain ⟨object, call, rfl, same⟩ := version
    obtain ⟨_, _, rfl, same', _⟩ := reads
    exact same.trans same'.symm
  | image place =>
    have equal : some before = some after := version.symm.trans reads
    cases equal
    exact SameBlock.refl before

variable {content : List ContentPart}

theorem getElem?_reads {index : Nat} (reads : List.Forall₂ (s.Reads config) s.contentOrder content)
    (found : content[index]? = some part) :
    ∃ marker, s.contentOrder[index]? = some marker ∧ s.Reads config marker part := by
  obtain ⟨bound, same⟩ := List.getElem?_eq_some_iff.mp found
  have shorter : index < s.contentOrder.length := reads.length_eq ▸ bound
  refine ⟨s.contentOrder[index], List.getElem?_eq_getElem shorter, ?_⟩
  have entry := (List.forall₂_iff_get.mp reads).2 index shorter bound
  simp only [List.get_eq_getElem, same] at entry
  exact entry

theorem earlier_of_reads (reads : List.Forall₂ (s.Reads config) s.contentOrder content) :
    s.Earlier content := by
  intro index part found
  obtain ⟨marker, placed, shown⟩ := getElem?_reads reads found
  exact ⟨marker, placed, shown.versionOf⟩

theorem Earlier.continues {before after : List ContentPart} (older : s.Earlier before)
    (reads : List.Forall₂ (s.Reads config) s.contentOrder after) : Continues before after := by
  intro index part found
  obtain ⟨marker, placed, version⟩ := older index part found
  obtain ⟨bound, same⟩ := List.getElem?_eq_some_iff.mp placed
  have shorter : index < after.length := reads.length_eq ▸ bound
  have entry := (List.forall₂_iff_get.mp reads).2 index bound shorter
  simp only [List.get_eq_getElem, same] at entry
  exact ⟨after[index], List.getElem?_eq_getElem shorter, version.sameBlock entry⟩

/-- Nothing that is shown shrinks. -/
structure Grows (s s' : RawAssembler) : Prop where
  order : s.contentOrder <+: s'.contentOrder
  text : s.textChunks <+: s'.textChunks
  thinking : s.thinkingChunks <+: s'.thinkingChunks
  images : s.images <+: s'.images

theorem joined_mono {front back : List PyStr} (longer : front <+: back) :
    (joined front).points <+: (joined back).points := by
  obtain ⟨more, rfl⟩ := longer
  rw [joined_points, joined_points, List.flatMap_append]
  exact List.prefix_append _ _

theorem getElem?_of_front {A : Type} {front back : List A} (longer : front <+: back) {index : Nat}
    {value : A} (found : front[index]? = some value) : back[index]? = some value := by
  obtain ⟨more, rfl⟩ := longer
  rw [List.getElem?_append_left (List.getElem?_eq_some_iff.mp found).1]
  exact found

theorem Earlier.grow (older : s.Earlier content) (grows : s.Grows s') : s'.Earlier content := by
  intro index part found
  obtain ⟨marker, placed, version⟩ := older index part found
  refine ⟨marker, getElem?_of_front grows.order placed, ?_⟩
  cases marker with
  | text =>
    obtain ⟨text, signature, same, before⟩ := version
    exact ⟨text, signature, same, before.trans (joined_mono grows.text)⟩
  | thinking =>
    obtain ⟨text, signature, redacted, same, before⟩ := version
    exact ⟨text, signature, redacted, same, before.trans (joined_mono grows.thinking)⟩
  | tool id => exact version
  | image place => exact getElem?_of_front grows.images version

/-- The tables are aligned and every message told so far is continued by the later ones. -/
structure Told (s : RawAssembler) : Prop where
  aligned : s.Aligned
  earlier : ∀ event ∈ s.pushed, s.Earlier event.message.content
  stable : s.pushed.Pairwise fun before after => Continues before.message.content after.message.content

theorem Told.grow (told : s.Told) (aligned : s'.Aligned) (grows : s.Grows s')
    (same : s'.pushed = s.pushed) : s'.Told where
  aligned := aligned
  earlier := fun event member => (told.earlier event (same ▸ member)).grow grows
  stable := same ▸ told.stable

theorem Continues.refl (content : List ContentPart) : Continues content content :=
  fun _ before found => ⟨before, found, SameBlock.refl before⟩

/-- New events about one message that reads the present state keep the history told. -/
theorem Told.append (told : s.Told) (aligned : s'.Aligned) (grows : s.Grows s')
    {events : List AssistantMessageEvent} {message : AssistantMessage}
    (about : ∀ event ∈ events, event.message = message)
    (reads : List.Forall₂ (s'.Reads config) s'.contentOrder message.content)
    (same : s'.pushed = s.pushed ++ events) : s'.Told where
  aligned := aligned
  earlier := by
    intro event member
    rw [same, List.mem_append] at member
    rcases member with old | new
    · exact (told.earlier event old).grow grows
    · rw [about event new]
      exact earlier_of_reads reads
  stable := by
    rw [same, List.pairwise_append]
    refine ⟨told.stable, ?_, ?_⟩
    · apply List.pairwise_of_forall_mem_list
      intro before first after second
      rw [about before first, about after second]
      exact Continues.refl _
    · intro before old after new
      rw [about after new]
      exact ((told.earlier before old).grow grows).continues reads

end RawAssembler

end Loushang.Ai
