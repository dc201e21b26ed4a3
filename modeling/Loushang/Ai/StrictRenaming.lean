import Loushang.Ai.Pairing
import Mathlib.Data.List.Induction

/-!
# Strict normalization of well-paired conversations

When the ids of every turn can be assigned, strict mode only renames, except that renamings
are never forgotten: a call that keeps an id which an earlier turn renamed loses its result.
-/
namespace Loushang.Ai
open Lib

variable {normalize : Option IdNormalizer} {t t' : Transformer} {messages : List Message}

/-- The call under its new id; a renamed call has no signature. -/
def renameCall (rename : PyStr → PyStr) (call : ToolCall) : ToolCall :=
  if rename call.id = call.id then call
  else { id := rename call.id, name := call.name, arguments := call.arguments }

def RenamedPart (rename : PyStr → PyStr) : ContentPart → ContentPart → Prop
  | .toolCall _ call, .toolCall _ renamed => renamed = renameCall rename call
  | before, after => after = before

/-- The same messages up to tool call ids: calls of one message are renamed injectively, and a
result has the new id of the call of the message before it; `rename` is the current naming. -/
inductive Renaming : (rename : PyStr → PyStr) → List Message → List Message → Prop
  | nil (rename : PyStr → PyStr) : Renaming rename [] []
  | assistant {old rename : PyStr → PyStr} {message : AssistantMessage} {content : List ContentPart}
      {before after : List Message}
      (parts : List.Forall₂ (RenamedPart rename) message.content content)
      (injective : (message.toolCalls.map fun call => rename call.id).Nodup)
      (rest : Renaming rename before after) :
      Renaming old (.assistant message :: before) (.assistant { message with content := content } :: after)
  | toolResult {rename : PyStr → PyStr} (result : ToolResultMessage) {before after : List Message}
      (rest : Renaming rename before after) :
      Renaming rename (.toolResult result :: before)
        (.toolResult { result with toolCallId := rename result.toolCallId } :: after)
  | other {rename : PyStr → PyStr} (object : Json) {before after : List Message}
      (rest : Renaming rename before after) :
      Renaming rename (.other object :: before) (.other object :: after)

/-- Not aborted, not an error, and with something to see. -/
def AssistantMessage.isKept (message : AssistantMessage) : Prop :=
  message.stopReason ≠ .aborted ∧ message.stopReason ≠ .error ∧ message.content.any ContentPart.visible

/-- A well-paired conversation of kept messages, the ids of each message distinct; ids may recur in
later turns. -/
structure Conversation (messages : List Message) : Prop where
  paired : WellPaired messages
  kept : ∀ message, .assistant message ∈ messages → message.isKept
  distinct : ∀ message, .assistant message ∈ messages → (message.toolCalls.map ToolCall.id).Nodup
  /-- Blocks with one identity are one object. -/
  objects : ∀ message, .assistant message ∈ messages → ∀ a ∈ toolCallBlocks message.content,
    ∀ b ∈ toolCallBlocks message.content, a.1 = b.1 → a = b

/-- The message renames the id. -/
def Renames (normalize : Option IdNormalizer) (message : AssistantMessage) (id : PyStr) : Prop :=
  ∃ resolutions, resolveToolCallIds normalize message = .ok resolutions ∧
    ∃ block ∈ toolCallBlocks message.content, block.2.id = id ∧ nextId resolutions block.1 block.2 ≠ id

/-- Ids can be assigned, no message with a renamed call carries `error_info`, and no call keeps an
id that an earlier message renamed. -/
structure RenamesCleanly (normalize : Option IdNormalizer) (messages : List Message) : Prop where
  resolves : ∀ message, .assistant message ∈ messages →
    ∃ resolutions, resolveToolCallIds normalize message = .ok resolutions
  noInfo : ∀ message, .assistant message ∈ messages →
    message.errorInfo = none ∨ ∀ call ∈ message.toolCalls, ¬ Renames normalize message call.id
  stays : ∀ front message back, messages = front ++ .assistant message :: back →
    ∀ call ∈ message.toolCalls, ¬ Renames normalize message call.id →
      ∀ earlier, .assistant earlier ∈ front → ¬ Renames normalize earlier call.id

variable {message : AssistantMessage}

theorem Conversation.distinctBlocks (conversation : Conversation messages)
    (member : .assistant message ∈ messages) : DistinctBlocks message := by
  have ids := conversation.distinct message member
  rw [AssistantMessage.toolCalls, List.map_map] at ids
  have blocks : (toolCallBlocks message.content).Nodup := List.Nodup.of_map _ ids
  exact blocks.map_on fun a ha b hb same => conversation.objects message member a ha b hb same

theorem Conversation.eq_of_id (conversation : Conversation messages) (member : .assistant message ∈ messages)
    {a b : ObjectId × ToolCall} (left : a ∈ toolCallBlocks message.content)
    (right : b ∈ toolCallBlocks message.content) (same : a.2.id = b.2.id) : a = b := by
  have ids := conversation.distinct message member
  rw [AssistantMessage.toolCalls, List.map_map] at ids
  exact List.inj_on_of_nodup_map ids left right same

section Table
variable {resolutions : Dict ObjectId PyStr} {message : AssistantMessage}

/-- After a turn the table has the new id of every renamed call of it. -/
theorem get?_update_renamings (conversation : Conversation messages)
    (member : .assistant message ∈ messages) (table : Dict PyStr PyStr) {block : ObjectId × ToolCall}
    (called : block ∈ toolCallBlocks message.content)
    (renamed : nextId resolutions block.1 block.2 ≠ block.2.id) :
    (table.update (renamings resolutions (toolCallBlocks message.content))).get? block.2.id =
      some (nextId resolutions block.1 block.2) := by
  have ids := conversation.distinct message member
  rw [AssistantMessage.toolCalls, List.map_map] at ids
  have nodup : ((renamings resolutions (toolCallBlocks message.content)).map Prod.fst).Nodup := by
    rw [renamings, List.map_map]
    exact (List.filter_sublist.map _).nodup ids
  have listed : (block.2.id, nextId resolutions block.1 block.2) ∈
      renamings resolutions (toolCallBlocks message.content) :=
    List.mem_map.mpr ⟨block, List.mem_filter.mpr ⟨called, decide_eq_true renamed⟩, rfl⟩
  have found := Dict.get?_update table ⟨_, nodup⟩ block.2.id
  rwa [@Dict.get?_of_mem _ _ _ ⟨_, nodup⟩ _ _ listed, Option.some_or] at found

theorem mem_keys_renamings {id : PyStr} :
    id ∈ (renamings resolutions (toolCallBlocks message.content)).map Prod.fst ↔
      ∃ block ∈ toolCallBlocks message.content, block.2.id = id ∧
        nextId resolutions block.1 block.2 ≠ id := by
  simp only [renamings, List.map_map, List.mem_map, List.mem_filter, decide_eq_true_eq, Function.comp]
  constructor
  · rintro ⟨block, ⟨called, renamed⟩, rfl⟩
    exact ⟨block, called, rfl, renamed⟩
  · rintro ⟨block, called, rfl, renamed⟩
    exact ⟨block, ⟨called, renamed⟩, rfl⟩

end Table

def renamesAny (resolutions : Dict ObjectId PyStr) (message : AssistantMessage) : Bool :=
  (toolCallBlocks message.content).any fun block => nextId resolutions block.1 block.2 ≠ block.2.id

/-- What a kept message becomes. -/
def normalized (resolutions : Dict ObjectId PyStr) (message : AssistantMessage) : AssistantMessage :=
  if renamesAny resolutions message then
    { message with content := message.content.zipIdx.map (renamePart resolutions), errorInfo := none }
  else message

theorem openTurn_fields (resolutions : Dict ObjectId PyStr) (message : AssistantMessage)
    (path : String) (t : Transformer) :
    (t.openTurn resolutions message path).transformed =
        t.transformed ++ [.assistant (normalized resolutions message)] ∧
      (t.openTurn resolutions message path).toolCallIdMap =
        t.toolCallIdMap.update (renamings resolutions (toolCallBlocks message.content)) ∧
      (t.openTurn resolutions message path).closedToolCallIds =
        t.closedToolCallIds.filter
          (fun id => id ∉ newIds resolutions (toolCallBlocks message.content)) ∧
      (t.openTurn resolutions message path).pendingToolCalls.map
          (fun block => (block.2.id, block.2.name)) =
        (toolCallBlocks message.content).map
          fun block => (nextId resolutions block.1 block.2, block.2.name) := by
  obtain ⟨content, calls, changed, closed, map⟩ :=
    takeContent_spec resolutions path message.content.zipIdx t.beginTurn
  have names := toolCallBlocks_renamePart_names resolutions message.content.zipIdx
  rw [List.zipIdx_map_fst] at changed closed map names
  refine ⟨?_, map, closed, ?_⟩
  · have same : (Turn.takeContent resolutions path message.content t.beginTurn).normalizedMessage message =
        normalized resolutions message := by
      unfold Turn.normalizedMessage Turn.takeContent normalized renamesAny
      rw [changed, content]
      rfl
    rw [← same]
    rfl
  · unfold Transformer.openTurn Turn.takeContent
    dsimp only
    rw [calls]
    exact names

theorem assistantTurn_kept {resolutions : Dict ObjectId PyStr} {path : String} (kept : message.isKept)
    (resolves : resolveToolCallIds normalize message = .ok resolutions) :
    t.assistantTurn normalize message path = .ok (t.openTurn resolutions message path) := by
  unfold Transformer.assistantTurn
  rw [if_neg kept.1, if_neg kept.2.1, if_neg (not_not.mpr kept.2.2), resolves]

/-- In strict mode closing a turn drops it or fails. -/
theorem closePending_strict {path : String} (closes : t.closePending .strict path = .ok t') :
    t' = t ∨ t' = t.clearPending := by
  unfold Transformer.closePending at closes
  dsimp only at closes
  split at closes
  · cases closes
    exact Or.inl rfl
  split at closes
  · cases closes
  next answered =>
  split at closes
  · next missing => exact absurd ⟨missing, rfl⟩ answered
  · cases closes
    exact Or.inr rfl

/-- The output of a strict run over kept messages, message by message; `table` is the renaming
table on the way in. -/
inductive Traced (normalize : Option IdNormalizer) :
    (table : Dict PyStr PyStr) → List Message → List Message → Prop
  | nil (table : Dict PyStr PyStr) : Traced normalize table [] []
  | assistant {table : Dict PyStr PyStr} {message : AssistantMessage}
      {resolutions : Dict ObjectId PyStr} {before after : List Message}
      (resolves : resolveToolCallIds normalize message = .ok resolutions)
      (rest : Traced normalize
        (table.update (renamings resolutions (toolCallBlocks message.content))) before after) :
      Traced normalize table (.assistant message :: before)
        (.assistant (normalized resolutions message) :: after)
  | toolResult {table : Dict PyStr PyStr} (result : ToolResultMessage) {before after : List Message}
      (rest : Traced normalize table before after) :
      Traced normalize table (.toolResult result :: before)
        (.toolResult { result with toolCallId := newestId table result.toolCallId } :: after)
  | other {table : Dict PyStr PyStr} (object : Json) {before after : List Message}
      (rest : Traced normalize table before after) :
      Traced normalize table (.other object :: before) (.other object :: after)

theorem run_traced {paths : List String} (lengths : messages.length = paths.length)
    (kept : ∀ message, .assistant message ∈ messages → message.isKept)
    (runs : t.run normalize .strict (messages.zip paths) = .ok t') :
    ∃ out, t'.transformed = t.transformed ++ out ∧ Traced normalize t.toolCallIdMap messages out := by
  induction messages generalizing t paths with
  | nil =>
    cases runs
    exact ⟨[], (List.append_nil _).symm, .nil _⟩
  | cons message rest ih =>
    cases paths with
    | nil => cases lengths
    | cons path paths =>
      rw [List.zip_cons_cons, Transformer.run] at runs
      split at runs
      · cases runs
      next s steps =>
      obtain ⟨out, output, traced⟩ := ih (by simpa using lengths)
        (fun other member => kept other (List.mem_cons_of_mem _ member)) runs
      cases message with
      | assistant message =>
        simp only [Transformer.step] at steps
        split at steps
        · cases steps
        next u closes =>
        have closed : u.transformed = t.transformed ∧ u.toolCallIdMap = t.toolCallIdMap := by
          rcases closePending_strict closes with rfl | rfl
          · exact ⟨rfl, rfl⟩
          · exact ⟨rfl, rfl⟩
        cases resolves : resolveToolCallIds normalize message with
        | error e =>
          unfold Transformer.assistantTurn at steps
          have keep := kept message List.mem_cons_self
          rw [if_neg keep.1, if_neg keep.2.1, if_neg (not_not.mpr keep.2.2), resolves] at steps
          cases steps
        | ok resolutions =>
          rw [assistantTurn_kept (kept message List.mem_cons_self) resolves] at steps
          cases steps
          obtain ⟨placed, map, _⟩ := openTurn_fields resolutions message path u
          rw [map, closed.2] at traced
          refine ⟨.assistant (normalized resolutions message) :: out, ?_, .assistant resolves traced⟩
          rw [output, placed, closed.1, List.append_assoc]
          rfl
      | toolResult message =>
        obtain ⟨diagnostics, same⟩ := toolResult_eq .strict message path t
        have accepts : t.toolResult .strict message path = .ok s := steps
        rw [same] at accepts
        obtain ⟨after, _⟩ := acceptResult_cases accepts
        have map : s.toolCallIdMap = t.toolCallIdMap := by
          rw [after]
          rfl
        rw [map] at traced
        refine ⟨_, ?_, .toolResult message traced⟩
        rw [output, after]
        exact List.append_assoc t.transformed [_] out
      | other object =>
        simp only [Transformer.step] at steps
        split at steps
        · cases steps
        next u closes =>
        cases steps
        have closed : u.transformed = t.transformed ∧ u.toolCallIdMap = t.toolCallIdMap := by
          rcases closePending_strict closes with rfl | rfl
          · exact ⟨rfl, rfl⟩
          · exact ⟨rfl, rfl⟩
        have map : (u.append (.other object) path).toolCallIdMap = t.toolCallIdMap := closed.2
        rw [map] at traced
        refine ⟨_, ?_, .other object traced⟩
        rw [output, List.append_cons, ← closed.1]
        rfl

@[simp] theorem renameCall_id (rename : PyStr → PyStr) (call : ToolCall) :
    (renameCall rename call).id = rename call.id := by
  unfold renameCall
  split
  · next same => exact same.symm
  · rfl

theorem mem_toolCallBlocks {content : List ContentPart} {block : ObjectId × ToolCall} :
    block ∈ toolCallBlocks content ↔ .toolCall block.1 block.2 ∈ content := by
  induction content with
  | nil => simp [toolCallBlocks]
  | cons part rest ih => cases part <;> simp [toolCallBlocks, ih, Prod.ext_iff]

theorem mem_toolCalls {call : ToolCall} :
    call ∈ message.toolCalls ↔ ∃ object, (object, call) ∈ toolCallBlocks message.content := by
  simp [AssistantMessage.toolCalls]

section Messages
variable {resolutions : Dict ObjectId PyStr} {message : AssistantMessage} {table : Dict PyStr PyStr}
  {out : List Message} {front back : List Message}

theorem not_renamesAny_iff :
    ¬ renamesAny resolutions message ↔
      ∀ block ∈ toolCallBlocks message.content, nextId resolutions block.1 block.2 = block.2.id := by
  simp [renamesAny]

theorem normalized_content (resolutions : Dict ObjectId PyStr) (message : AssistantMessage) :
    (normalized resolutions message).content = message.content.zipIdx.map (renamePart resolutions) := by
  unfold normalized
  split
  · rfl
  · next kept =>
    rw [map_renamePart_of_kept, List.zipIdx_map_fst]
    rw [List.zipIdx_map_fst]
    exact not_renamesAny_iff.mp kept

variable {rename : PyStr → PyStr}

/-- A rewritten content is renamed by the names its calls have in the table. -/
theorem renamedParts_iff :
    List.Forall₂ (RenamedPart rename) message.content (normalized resolutions message).content ↔
      ∀ block ∈ toolCallBlocks message.content, rename block.2.id = nextId resolutions block.1 block.2 := by
  have zipped : List.Forall₂ (RenamedPart rename) message.content (normalized resolutions message).content ↔
      ∀ entry ∈ message.content.zipIdx, RenamedPart rename entry.1 (renamePart resolutions entry) := by
    rw [normalized_content, List.forall₂_map_right_iff]
    conv_lhs => rw [← List.zipIdx_map_fst 0 message.content]
    rw [List.forall₂_map_left_iff, List.zipIdx_map_fst, List.forall₂_same]
  rw [zipped]
  constructor
  · intro parts block called
    obtain ⟨index, placed⟩ := List.mem_iff_getElem?.mp (mem_toolCallBlocks.mp called)
    have renamed := congrArg ToolCall.id (parts _ (List.mk_mem_zipIdx_iff_getElem?.mpr placed))
    rw [renameBlock_id, renameCall_id] at renamed
    exact renamed.symm
  · intro names entry listed
    obtain ⟨part, index⟩ := entry
    have member : part ∈ message.content := List.fst_mem_of_mem_zipIdx listed
    cases part with
    | toolCall object call =>
      have name := names (object, call) (mem_toolCallBlocks.mpr member)
      simp only [RenamedPart, renamePart, renameBlock, renameCall, name]
      by_cases same : nextId resolutions object call = call.id
      · simp [same]
      · simp [same]
    | text _ _ => rfl
    | thinking _ _ _ => rfl
    | image _ _ => rfl

/-- The table has another id for this one. -/
def Moved (table : Dict PyStr PyStr) (id : PyStr) : Prop := ∃ new, table.get? id = some new ∧ new ≠ id

theorem Moved.newestId_ne {id : PyStr} (moved : Moved table id) : newestId table id ≠ id := by
  obtain ⟨new, found, different⟩ := moved
  rwa [newestId, found, Option.getD_some]

theorem renames_of_mem_renamings (resolves : resolveToolCallIds normalize message = .ok resolutions)
    {id : PyStr} (listed : id ∈ (renamings resolutions (toolCallBlocks message.content)).map Prod.fst) :
    Renames normalize message id :=
  ⟨resolutions, resolves, mem_keys_renamings.mp listed⟩

/-- A turn keeps what was moved before and moves the ids it renames. -/
theorem moved_update (conversation : Conversation messages) (member : .assistant message ∈ messages)
    (resolves : resolveToolCallIds normalize message = .ok resolutions) {id : PyStr}
    (moved : Moved table id ∨ Renames normalize message id) :
    Moved (table.update (renamings resolutions (toolCallBlocks message.content))) id := by
  by_cases listed : id ∈ (renamings resolutions (toolCallBlocks message.content)).map Prod.fst
  · obtain ⟨block, called, rfl, renamed⟩ := mem_keys_renamings.mp listed
    exact ⟨_, get?_update_renamings conversation member table called renamed, renamed⟩
  · rcases moved with ⟨old, found, different⟩ | ⟨resolutions', resolves', renamed⟩
    · have known : id ∈ (table.update (renamings resolutions (toolCallBlocks message.content))).keys :=
        Dict.mem_keys_update.mpr (Or.inl (Dict.get?_isSome.mp (by rw [found]; rfl)))
      obtain ⟨new, now⟩ := Option.isSome_iff_exists.mp (Dict.get?_isSome.mpr known)
      rcases Dict.get?_update_cases now with before | added
      · rw [found, Option.some.injEq] at before
        exact ⟨new, now, before ▸ different⟩
      · exact absurd (List.mem_map_of_mem added) listed
    · rw [resolves, Except.ok.injEq] at resolves'
      subst resolves'
      exact absurd (mem_keys_renamings.mpr renamed) listed

/-- After the turn every call of it has its new id in the table, if no id it keeps was known. -/
theorem newestId_update (conversation : Conversation messages) (member : .assistant message ∈ messages)
    (resolves : resolveToolCallIds normalize message = .ok resolutions)
    (stays : ∀ call ∈ message.toolCalls, ¬ Renames normalize message call.id → call.id ∉ table.keys)
    {block : ObjectId × ToolCall} (called : block ∈ toolCallBlocks message.content) :
    newestId (table.update (renamings resolutions (toolCallBlocks message.content))) block.2.id =
      nextId resolutions block.1 block.2 := by
  by_cases renamed : nextId resolutions block.1 block.2 = block.2.id
  · have kept : ¬ Renames normalize message block.2.id := by
      intro renames
      obtain ⟨resolutions', resolves', other, called', same, different⟩ := renames
      rw [resolves, Except.ok.injEq] at resolves'
      subst resolves'
      rw [conversation.eq_of_id member called' called same] at different
      exact different renamed
    have unknown : block.2.id ∉
        (table.update (renamings resolutions (toolCallBlocks message.content))).keys := by
      intro known
      rcases Dict.mem_keys_update.mp known with before | added
      · exact stays block.2 (List.mem_map_of_mem called) kept before
      · exact kept (renames_of_mem_renamings resolves added)
    rw [newestId, Dict.get?_eq_none.mpr unknown, renamed]
    rfl
  · rw [newestId, get?_update_renamings conversation member table called renamed]
    rfl

/-- Only ids that some message of `earlier` renames are in the table. -/
def TableFrom (normalize : Option IdNormalizer) (earlier : List Message) (table : Dict PyStr PyStr) : Prop :=
  ∀ id ∈ table.keys, ∃ message, .assistant message ∈ earlier ∧ Renames normalize message id

theorem TableFrom.append (known : TableFrom normalize front table) (more : List Message) :
    TableFrom normalize (front ++ more) table := by
  intro id listed
  obtain ⟨message, member, renames⟩ := known id listed
  exact ⟨message, List.mem_append_left _ member, renames⟩

theorem TableFrom.update (known : TableFrom normalize front table)
    (resolves : resolveToolCallIds normalize message = .ok resolutions) :
    TableFrom normalize (front ++ [.assistant message])
      (table.update (renamings resolutions (toolCallBlocks message.content))) := by
  intro id listed
  rcases Dict.mem_keys_update.mp listed with before | added
  · exact known.append _ id before
  · exact ⟨message, List.mem_append_right _ List.mem_cons_self, renames_of_mem_renamings resolves added⟩

/-- The ids a message keeps are not in a table that comes from the messages before it. -/
theorem RenamesCleanly.fresh (clean : RenamesCleanly normalize messages)
    (split : messages = front ++ .assistant message :: back) (known : TableFrom normalize front table)
    (call : ToolCall) (member : call ∈ message.toolCalls) (kept : ¬ Renames normalize message call.id) :
    call.id ∉ table.keys := by
  intro listed
  obtain ⟨earlier, before, renames⟩ := known _ listed
  exact clean.stays front message back split call member kept earlier before renames

theorem normalized_of_clean (clean : RenamesCleanly normalize messages)
    (member : .assistant message ∈ messages)
    (resolves : resolveToolCallIds normalize message = .ok resolutions) :
    normalized resolutions message =
      { message with content := (normalized resolutions message).content } := by
  unfold normalized
  split
  · next renamed =>
    rcases clean.noInfo message member with none_kept | kept
    · rw [none_kept]
    · obtain ⟨block, called, different⟩ := List.any_eq_true.mp renamed
      exact absurd ⟨resolutions, resolves, block, called, rfl, of_decide_eq_true different⟩
        (kept block.2 (List.mem_map_of_mem called))
  · rfl

theorem renaming_of_traced (conversation : Conversation messages)
    (clean : RenamesCleanly normalize messages) (split : messages = front ++ back)
    (known : TableFrom normalize front table) (traced : Traced normalize table back out) :
    Renaming (newestId table) back out := by
  induction traced generalizing front with
  | nil => exact .nil _
  | @assistant table message resolutions before after resolves rest ih =>
    have member : Message.assistant message ∈ messages := by
      rw [split]
      exact List.mem_append_right _ List.mem_cons_self
    have names := @newestId_update normalize messages resolutions message table conversation member
      resolves (clean.fresh split known)
    rw [normalized_of_clean clean member resolves]
    apply Renaming.assistant
    · exact renamedParts_iff.mpr fun block called => names called
    · have same : (message.toolCalls.map fun call => newestId
            (table.update (renamings resolutions (toolCallBlocks message.content))) call.id) =
          (toolCallBlocks message.content).map fun block => nextId resolutions block.1 block.2 := by
        rw [AssistantMessage.toolCalls, List.map_map]
        exact List.map_congr_left fun block called => names called
      rw [same]
      exact resolveToolCallIds_nodup resolves (conversation.distinctBlocks member)
    · exact ih (split.trans (List.append_cons _ _ _)) (known.update resolves)
  | toolResult result rest ih =>
    exact .toolResult result (ih (split.trans (List.append_cons _ _ _)) (known.append _))
  | other object rest ih =>
    exact .other object (ih (split.trans (List.append_cons _ _ _)) (known.append _))

/-- The output splits where the input does; the table at the split has what was moved before. -/
theorem traced_split (conversation : Conversation messages)
    (within : ∀ message ∈ front, message ∈ messages)
    (traced : Traced normalize table (front ++ back) out) :
    ∃ table' out1 out2, out = out1 ++ out2 ∧ out1.length = front.length ∧
      Traced normalize table' back out2 ∧
      ∀ id, (Moved table id ∨ ∃ message, .assistant message ∈ front ∧ Renames normalize message id) →
        Moved table' id := by
  induction front generalizing table out with
  | nil =>
    refine ⟨table, [], out, rfl, rfl, traced, ?_⟩
    rintro id (moved | ⟨_, member, _⟩)
    · exact moved
    · exact absurd member List.not_mem_nil
  | cons head rest ih =>
    have inside : ∀ message ∈ rest, message ∈ messages :=
      fun message member => within message (List.mem_cons_of_mem _ member)
    rw [List.cons_append] at traced
    cases traced with
    | @assistant _ message resolutions _ after resolves traced =>
      obtain ⟨table', out1, out2, split, lengths, traced', moves⟩ := ih inside traced
      refine ⟨table', _ :: out1, out2, by rw [split]; rfl, congrArg (· + 1) lengths, traced', ?_⟩
      have step := fun id => @moved_update normalize messages resolutions message table conversation
        (within _ List.mem_cons_self) resolves id
      rintro id (moved | ⟨earlier, member, renames⟩)
      · exact moves id (Or.inl (step id (Or.inl moved)))
      · rcases List.mem_cons.mp member with same | member
        · cases same
          exact moves id (Or.inl (step id (Or.inr renames)))
        · exact moves id (Or.inr ⟨earlier, member, renames⟩)
    | toolResult result traced =>
      obtain ⟨table', out1, out2, split, lengths, traced', moves⟩ := ih inside traced
      refine ⟨table', _ :: out1, out2, by rw [split]; rfl, congrArg (· + 1) lengths, traced', ?_⟩
      rintro id (moved | ⟨earlier, member, renames⟩)
      · exact moves id (Or.inl moved)
      · exact moves id (Or.inr ⟨earlier, (List.mem_cons.mp member).resolve_left nofun, renames⟩)
    | other object traced =>
      obtain ⟨table', out1, out2, split, lengths, traced', moves⟩ := ih inside traced
      refine ⟨table', _ :: out1, out2, by rw [split]; rfl, congrArg (· + 1) lengths, traced', ?_⟩
      rintro id (moved | ⟨earlier, member, renames⟩)
      · exact moves id (Or.inl moved)
      · exact moves id (Or.inr ⟨earlier, (List.mem_cons.mp member).resolve_left nofun, renames⟩)

theorem renaming_split {out1 out2 : List Message} (lengths : out1.length = front.length)
    (renames : Renaming rename (front ++ back) (out1 ++ out2)) : ∃ rename', Renaming rename' back out2 := by
  induction front generalizing rename out1 with
  | nil =>
    rw [List.length_eq_zero_iff.mp lengths] at renames
    exact ⟨rename, renames⟩
  | cons head rest ih =>
    cases out1 with
    | nil => cases lengths
    | cons first out1 =>
      rw [List.cons_append, List.cons_append] at renames
      have shorter : out1.length = rest.length := by simpa using lengths
      cases renames with
      | assistant _ _ renames => exact ih shorter renames
      | toolResult _ renames => exact ih shorter renames
      | other _ renames => exact ih shorter renames

/-- Both the table and the naming say what id a result gets. -/
theorem newestId_eq_of_renaming (traced : Traced normalize table back out)
    (renames : Renaming rename back out) :
    ∀ result ∈ leadingResults back, newestId table result.toolCallId = rename result.toolCallId := by
  induction traced generalizing rename with
  | nil => exact fun _ member => absurd member List.not_mem_nil
  | assistant _ _ _ => exact fun _ member => absurd member List.not_mem_nil
  | other _ _ _ => exact fun _ member => absurd member List.not_mem_nil
  | @toolResult table head before after rest ih =>
    generalize placed : Message.toolResult { head with toolCallId := newestId table head.toolCallId } = first
      at renames
    cases renames with
    | toolResult _ renames =>
      rw [Message.toolResult.injEq, ToolResultMessage.mk.injEq] at placed
      exact List.forall_mem_cons.mpr ⟨placed.1, (ih renames)⟩

theorem clean_of_renaming (conversation : Conversation messages)
    (traced : Traced normalize .empty messages out) (renames : Renaming id messages out) :
    RenamesCleanly normalize messages := by
  have turn : ∀ front message back, messages = front ++ .assistant message :: back →
      ∃ resolutions, resolveToolCallIds normalize message = .ok resolutions ∧
        (message.errorInfo = none ∨ ¬ renamesAny resolutions message) ∧
        ∀ call ∈ message.toolCalls, ¬ Renames normalize message call.id →
          ∀ earlier, .assistant earlier ∈ front → ¬ Renames normalize earlier call.id := by
    intro front message back split
    subst split
    have member : Message.assistant message ∈ front ++ Message.assistant message :: back :=
      List.mem_append_right _ List.mem_cons_self
    obtain ⟨table, out1, out2, whole, lengths, traced', moves⟩ := traced_split conversation
      (fun _ found => List.mem_append_left _ found) traced
    subst whole
    obtain ⟨rename, renames'⟩ := renaming_split lengths renames
    cases traced' with
    | @assistant _ _ resolutions _ after resolves traced' =>
    generalize placed : Message.assistant (normalized resolutions message) = first at renames'
    cases renames' with
    | @assistant _ rename _ content _ _ parts _ renames' =>
    rw [Message.assistant.injEq] at placed
    refine ⟨resolutions, resolves, ?_, ?_⟩
    · have info := congrArg AssistantMessage.errorInfo placed
      unfold normalized at info
      split at info
      · exact Or.inl info.symm
      · next kept => exact Or.inr kept
    · intro call called kept earlier before renamed
      have agree := newestId_eq_of_renaming traced' renames'
      have moved := moved_update conversation member resolves
        (Or.inl (moves call.id (Or.inr ⟨earlier, before, renamed⟩)))
      obtain ⟨object, block⟩ := mem_toolCalls.mp called
      have content_eq := congrArg AssistantMessage.content placed
      dsimp only at content_eq
      rw [← content_eq] at parts
      have name := renamedParts_iff.mp parts _ block
      have same : nextId resolutions object call = call.id := by
        by_contra different
        exact kept ⟨resolutions, resolves, _, block, rfl, different⟩
      have once := conversation.paired.answered front message back rfl call called
      obtain ⟨result, answers, id_eq⟩ := List.countP_pos_iff.mp (by omega :
        0 < (leadingResults back).countP fun result => result.toolCallId = call.id)
      have given := agree result answers
      rw [of_decide_eq_true id_eq, name, same] at given
      exact moved.newestId_ne given
  refine ⟨?_, ?_, ?_⟩
  · intro message member
    obtain ⟨front, back, split⟩ := List.append_of_mem member
    obtain ⟨resolutions, resolves, _⟩ := turn front message back split
    exact ⟨resolutions, resolves⟩
  · intro message member
    obtain ⟨front, back, split⟩ := List.append_of_mem member
    obtain ⟨resolutions, resolves, info, _⟩ := turn front message back split
    refine info.imp id ?_
    rintro kept call _ ⟨resolutions', resolves', block, called, same, different⟩
    rw [resolves, Except.ok.injEq] at resolves'
    subst resolves'
    rw [← same] at different
    exact different (not_renamesAny_iff.mp kept block called)
  · intro front message back split
    obtain ⟨_, _, _, stays⟩ := turn front message back split
    exact stays

/-- The assistant message whose turn is open, with the results it has. -/
def scanTurn : Option (AssistantMessage × List ToolResultMessage) → Message →
    Option (AssistantMessage × List ToolResultMessage)
  | _, .assistant message => some (message, [])
  | some (message, results), .toolResult result => some (message, results ++ [result])
  | none, .toolResult _ => none
  | _, .other _ => none

def lastTurn (messages : List Message) : Option (AssistantMessage × List ToolResultMessage) :=
  messages.foldl scanTurn none

theorem lastTurn_concat (messages : List Message) (message : Message) :
    lastTurn (messages ++ [message]) = scanTurn (lastTurn messages) message := by
  rw [lastTurn, List.foldl_concat]
  rfl

theorem lastTurn_of_split (earlier : List Message) (message : AssistantMessage)
    (results : List ToolResultMessage) :
    lastTurn (earlier ++ .assistant message :: results.map .toolResult) = some (message, results) := by
  induction results using List.reverseRecOn with
  | nil => rw [List.map_nil, lastTurn_concat, scanTurn]
  | append_singleton front last ih =>
    rw [List.map_append, ← List.cons_append, ← List.append_assoc, List.map_cons, List.map_nil,
      lastTurn_concat, ih]
    rfl

variable {results : List ToolResultMessage}

theorem split_of_lastTurn (last : lastTurn front = some (message, results)) :
    ∃ earlier, front = earlier ++ .assistant message :: results.map .toolResult := by
  induction front using List.reverseRecOn generalizing results with
  | nil => cases last
  | append_singleton front head ih =>
    rw [lastTurn_concat] at last
    cases head with
    | assistant other =>
      rw [scanTurn, Option.some.injEq, Prod.mk.injEq] at last
      obtain ⟨rfl, rfl⟩ := last
      exact ⟨front, rfl⟩
    | toolResult result =>
      cases before : lastTurn front with
      | none => rw [before] at last; cases last
      | some turn =>
        obtain ⟨other, known⟩ := turn
        rw [before, scanTurn, Option.some.injEq, Prod.mk.injEq] at last
        obtain ⟨rfl, rfl⟩ := last
        obtain ⟨earlier, split⟩ := ih before
        refine ⟨earlier, ?_⟩
        rw [split, List.map_append, List.append_assoc]
        rfl
    | other object => cases last

/-- The tables agree with the open turn: its calls wait under their new ids, the results so far
are known, and none of the ids is closed. -/
structure TurnTables (message : AssistantMessage) (results : List ToolResultMessage)
    (resolutions : Dict ObjectId PyStr) (t : Transformer) : Prop where
  calls : t.pendingToolCalls.map (fun block => (block.2.id, block.2.name)) =
    (toolCallBlocks message.content).map fun block => (nextId resolutions block.1 block.2, block.2.name)
  table : t.pendingToolCallMap =
    Dict.empty.update (t.pendingToolCalls.map fun block => (block.2.id, block.2))
  existing : t.existingToolResultIds =
    results.map fun result => newestId t.toolCallIdMap result.toolCallId
  opened : ∀ block ∈ toolCallBlocks message.content,
    nextId resolutions block.1 block.2 ∉ t.closedToolCallIds
  names : ∀ block ∈ toolCallBlocks message.content,
    newestId t.toolCallIdMap block.2.id = nextId resolutions block.1 block.2
  distinct : ((toolCallBlocks message.content).map fun block => nextId resolutions block.1 block.2).Nodup

def Ready (turn : Option (AssistantMessage × List ToolResultMessage)) (t : Transformer) : Prop :=
  match turn with
  | none => t.pendingToolCalls = []
  | some (message, results) => ∃ resolutions, TurnTables message results resolutions t

/-- When the next message is no result, every call of the open turn has its result. -/
theorem closePending_ready (path : String) (conversation : Conversation messages)
    (split : messages = front ++ back) (starts : startsTurn back) (ready : Ready (lastTurn front) t) :
    ∃ closed, t.closePending .strict path = .ok closed ∧ closed.toolCallIdMap = t.toolCallIdMap ∧
      closed.pendingToolCalls = [] := by
  unfold Transformer.closePending
  by_cases idle : t.pendingToolCalls = []
  · exact ⟨t, by rw [if_pos idle], rfl, idle⟩
  rw [if_neg idle]
  refine ⟨t.clearPending, ?_, rfl, rfl⟩
  have answered : missingToolCalls t.pendingToolCalls t.existingToolResultIds = [] := by
    cases last : lastTurn front with
    | none =>
      rw [last] at ready
      exact absurd ready idle
    | some turn =>
      obtain ⟨message, results⟩ := turn
      rw [last] at ready
      obtain ⟨resolutions, tables⟩ := ready
      obtain ⟨earlier, placed⟩ := split_of_lastTurn last
      rw [missingToolCalls, List.filter_eq_nil_iff]
      intro pending waiting
      rw [decide_eq_true_eq, not_not]
      have listed : (pending.2.id, pending.2.name) ∈ (toolCallBlocks message.content).map
          fun block => (nextId resolutions block.1 block.2, block.2.name) := by
        rw [← tables.calls]
        exact List.mem_map_of_mem waiting
      obtain ⟨block, called, same⟩ := List.mem_map.mp listed
      rw [Prod.mk.injEq] at same
      have once := conversation.paired.answered earlier message (results.map .toolResult ++ back)
        (by rw [split, placed, List.append_assoc]; rfl) block.2 (List.mem_map_of_mem called)
      rw [leadingResults_append_of_startsTurn _ starts, leadingResults_map] at once
      obtain ⟨result, answers, id_eq⟩ := List.countP_pos_iff.mp (by omega :
        0 < results.countP fun result => result.toolCallId = block.2.id)
      rw [tables.existing, ← same.1, ← tables.names block called, ← of_decide_eq_true id_eq]
      exact List.mem_map_of_mem (f := fun result => newestId t.toolCallIdMap result.toolCallId) answers
  dsimp only
  rw [if_neg (fun missing => missing.1 answered), if_neg (not_not.mpr answered)]

theorem leadingResults_map_append (results : List ToolResultMessage) (rest : List Message) :
    leadingResults (results.map .toolResult ++ rest) = results ++ leadingResults rest := by
  induction results with
  | nil => rfl
  | cons result more ih => exact congrArg (List.cons result) ih

variable {result : ToolResultMessage}

/-- A result of a conversation answers a call of the open turn. -/
theorem WellPaired.answers_lastTurn (paired : WellPaired messages)
    (split : messages = front ++ .toolResult result :: back) :
    ∃ message results, lastTurn front = some (message, results) ∧
      ∃ call ∈ message.toolCalls, Answers result call := by
  obtain ⟨earlier, message, between, placed, answers⟩ := paired.refers front result back split
  exact ⟨message, between, by rw [placed, lastTurn_of_split], answers⟩

/-- Within a turn no call is answered before: its count is one. -/
theorem WellPaired.fresh_answer {call : ToolCall} (paired : WellPaired messages)
    (split : messages = front ++ .toolResult result :: back) (last : lastTurn front = some (message, results))
    (called : call ∈ message.toolCalls) (answers : Answers result call) :
    ∀ other ∈ results, other.toolCallId ≠ call.id := by
  intro other member same
  obtain ⟨earlier, placed⟩ := split_of_lastTurn last
  have once := paired.answered earlier message (results.map .toolResult ++ .toolResult result :: back)
    (by rw [split, placed, List.append_assoc]; rfl) call called
  rw [leadingResults_map_append, leadingResults, List.countP_append, List.countP_cons,
    if_pos (decide_eq_true answers.1.symm)] at once
  have before : 0 < results.countP fun result => result.toolCallId = call.id :=
    List.countP_pos_iff.mpr ⟨other, member, decide_eq_true same⟩
  omega

theorem acceptResult_answers (matched : ToolCall) {path : String}
    (opened : result.toolCallId ∉ t.closedToolCallIds)
    (found : t.pendingToolCallMap.get? result.toolCallId = some matched)
    (named : matched.name = result.toolName) (fresh : result.toolCallId ∉ t.existingToolResultIds) :
    t.acceptResult .strict result path = .ok { t.append (.toolResult result) path with
      existingToolResultIds := t.existingToolResultIds ++ [result.toolCallId] } := by
  unfold Transformer.acceptResult
  simp only [if_neg opened, found, if_neg (not_not.mpr named), if_neg fresh]

theorem toolResult_ready (path : String) (conversation : Conversation messages)
    (split : messages = front ++ .toolResult result :: back) (ready : Ready (lastTurn front) t) :
    ∃ t', t.toolResult .strict result path = .ok t' ∧ t'.toolCallIdMap = t.toolCallIdMap ∧
      Ready (lastTurn (front ++ [.toolResult result])) t' := by
  obtain ⟨message, results, last, call, called, answers⟩ := conversation.paired.answers_lastTurn split
  have unanswered := conversation.paired.fresh_answer split last called answers
  rw [last] at ready
  obtain ⟨resolutions, tables⟩ := ready
  obtain ⟨object, block⟩ := mem_toolCalls.mp called
  have name := tables.names _ block
  dsimp only at name
  rw [answers.1] at name
  have listed : (nextId resolutions object call, call.name) ∈
      t.pendingToolCalls.map fun block => (block.2.id, block.2.name) := by
    rw [tables.calls]
    exact List.mem_map.mpr ⟨_, block, rfl⟩
  obtain ⟨pending, waiting, same⟩ := List.mem_map.mp listed
  rw [Prod.mk.injEq] at same
  have keys : ((t.pendingToolCalls.map fun block => (block.2.id, block.2)).map Prod.fst).Nodup := by
    have ids := congrArg (List.map Prod.fst) tables.calls
    rw [List.map_map, List.map_map] at ids
    rw [List.map_map]
    exact ids ▸ tables.distinct
  obtain ⟨diagnostics, same_result⟩ := toolResult_eq .strict result path t
  rw [same_result]
  refine ⟨_, acceptResult_answers pending.2 ?_ ?_ ?_ ?_, rfl, ?_⟩
  · dsimp only
    rw [name]
    exact tables.opened _ block
  · dsimp only
    rw [tables.table, name]
    exact Dict.get?_update_of_mem keys (List.mem_map.mpr ⟨pending, waiting, by rw [same.1]⟩)
  · exact same.2.trans answers.2
  · dsimp only
    rw [tables.existing, name]
    intro known
    obtain ⟨other, member, same_id⟩ := List.mem_map.mp known
    obtain ⟨earlier, placed⟩ := split_of_lastTurn last
    obtain ⟨before, after, cut⟩ := List.append_of_mem member
    have here : messages = (earlier ++ .assistant message :: before.map .toolResult) ++
        .toolResult other :: (after.map .toolResult ++ .toolResult result :: back) := by
      rw [split, placed, cut]
      simp
    obtain ⟨message', _, last', call', called', answers'⟩ :=
      conversation.paired.answers_lastTurn here
    rw [lastTurn_of_split, Option.some.injEq, Prod.mk.injEq] at last'
    rw [← last'.1] at called'
    obtain ⟨object', block'⟩ := mem_toolCalls.mp called'
    have name' := tables.names _ block'
    dsimp only at name'
    rw [answers'.1, same_id] at name'
    have equal := List.inj_on_of_nodup_map tables.distinct block block' name'
    rw [Prod.mk.injEq] at equal
    exact unanswered other member (by rw [← answers'.1, equal.2])
  · rw [lastTurn_concat, last, scanTurn]
    refine ⟨resolutions, tables.calls, tables.table, ?_, tables.opened, tables.names, tables.distinct⟩
    dsimp only [Transformer.append]
    rw [tables.existing, List.map_append]
    rfl

theorem openTurn_ready {path : String} {resolutions : Dict ObjectId PyStr}
    (conversation : Conversation messages) (clean : RenamesCleanly normalize messages)
    (split : messages = front ++ .assistant message :: back)
    (known : TableFrom normalize front t.toolCallIdMap)
    (resolves : resolveToolCallIds normalize message = .ok resolutions) :
    Ready (lastTurn (front ++ [.assistant message])) (t.openTurn resolutions message path) := by
  have member : Message.assistant message ∈ messages := by
    rw [split]
    exact List.mem_append_right _ List.mem_cons_self
  obtain ⟨_, map, closed, calls⟩ := openTurn_fields resolutions message path t
  rw [lastTurn_concat, scanTurn]
  refine ⟨resolutions, calls, rfl, rfl, ?_, ?_, ?_⟩
  · intro block called
    rw [closed, List.mem_filter, not_and]
    intro _ absent
    exact of_decide_eq_true absent (List.mem_map.mpr ⟨block, called, rfl⟩)
  · intro block called
    rw [map]
    exact newestId_update conversation member resolves (clean.fresh split known) called
  · exact resolveToolCallIds_nodup resolves (conversation.distinctBlocks member)

/-- On a conversation whose renamings are clean a strict run goes through. -/
theorem run_ready {paths : List String} (conversation : Conversation messages)
    (clean : RenamesCleanly normalize messages) (split : messages = front ++ back)
    (lengths : back.length = paths.length) (known : TableFrom normalize front t.toolCallIdMap)
    (ready : Ready (lastTurn front) t) :
    ∃ t', t.run normalize .strict (back.zip paths) = .ok t' ∧ Ready (lastTurn messages) t' := by
  induction back generalizing front t paths with
  | nil =>
    refine ⟨t, rfl, ?_⟩
    rwa [split, List.append_nil]
  | cons head rest ih =>
    cases paths with
    | nil => cases lengths
    | cons path paths =>
    have next := split.trans (List.append_cons _ _ _)
    have shorter : rest.length = paths.length := by simpa using lengths
    rw [List.zip_cons_cons, Transformer.run]
    cases head with
    | assistant message =>
      have member : Message.assistant message ∈ messages := by
        rw [split]
        exact List.mem_append_right _ List.mem_cons_self
      obtain ⟨s, closes, map, _⟩ := closePending_ready path conversation split trivial ready
      obtain ⟨resolutions, resolves⟩ := clean.resolves message member
      obtain ⟨_, map', _, _⟩ := openTurn_fields resolutions message path s
      rw [← map] at known
      simp only [Transformer.step, closes, assistantTurn_kept (conversation.kept message member) resolves]
      apply ih next shorter
      · rw [map']
        exact known.update resolves
      · exact openTurn_ready conversation clean split known resolves
    | toolResult result =>
      obtain ⟨s, accepts, map, ready'⟩ := toolResult_ready path conversation split ready
      simp only [Transformer.step, accepts]
      apply ih next shorter
      · rw [map]
        exact known.append _
      · exact ready'
    | other object =>
      obtain ⟨s, closes, map, idle⟩ := closePending_ready path conversation split trivial ready
      simp only [Transformer.step, closes]
      apply ih next shorter
      · change TableFrom normalize _ s.toolCallIdMap
        rw [map]
        exact known.append _
      · rw [lastTurn_concat]
        exact idle

end Messages

/-- A strict run over a well-paired conversation only renames, and renames consistently, exactly
when the renamings are clean. -/
theorem strict_renames_iff {messagePaths : Option (List String)} (conversation : Conversation messages)
    (lengths : (pathsOf messagePaths messages).length = messages.length) :
    (∃ result, transformMessagesResult normalize .strict messagePaths messages = .ok result ∧
        Renaming id messages result.messages) ↔
      RenamesCleanly normalize messages := by
  constructor
  · rintro ⟨result, returned, renames⟩
    unfold transformMessagesResult at returned
    dsimp only at returned
    rw [if_neg (not_not.mpr lengths)] at returned
    split at returned
    · cases returned
    next t runs =>
    split at returned
    · cases returned
    next t' closes =>
    cases returned
    obtain ⟨out, output, traced⟩ := run_traced lengths.symm conversation.kept runs
    have same : t'.transformed = out := by
      rcases closePending_strict closes with rfl | rfl
      · exact output
      · exact output
    dsimp only at renames
    rw [same] at renames
    exact clean_of_renaming conversation traced renames
  · intro clean
    obtain ⟨t, runs, ready⟩ := @run_ready normalize {} messages [] messages _ conversation clean rfl
      lengths.symm (fun _ listed => absurd listed List.not_mem_nil) rfl
    obtain ⟨t', closes, _⟩ := closePending_ready
      ((pathsOf messagePaths messages).getLastD "messages") conversation (List.append_nil messages).symm trivial ready
    obtain ⟨out, output, traced⟩ := run_traced lengths.symm conversation.kept runs
    have same : t'.transformed = out := by
      rcases closePending_strict closes with rfl | rfl
      · exact output
      · exact output
    refine ⟨⟨t'.transformed, t'.diagnostics, t'.transformedPaths⟩, ?_, ?_⟩
    · unfold transformMessagesResult
      dsimp only
      rw [if_neg (not_not.mpr lengths), runs]
      dsimp only
      rw [closes]
    · dsimp only
      rw [same]
      exact @renaming_of_traced normalize messages .empty out [] messages conversation clean rfl
        (fun _ listed => absurd listed List.not_mem_nil) traced

def foreignLabel : Label := ⟨("foreign" : String), by decide, by decide⟩

/-- A normalizer that rewrites the ids of another model's turns only. -/
def foreignIds : IdNormalizer := fun id message =>
  if message.model = foreignLabel then id ++ ("_1" : String) else id

def foreignTurn : AssistantMessage :=
  { sampleTurn [.toolCall (.given 0) (sampleCall "a")] with model := foreignLabel }

def ownTurn : AssistantMessage := sampleTurn [.toolCall (.given 1) (sampleCall "a")]

/-- Two models use the id in turn. -/
def handover : List Message :=
  [.assistant foreignTurn, .toolResult (sampleResult "a"), .other .null, .assistant ownTurn,
    .toolResult (sampleResult "a")]

theorem wellPaired_single (call : ToolCall) {result : ToolResultMessage} (calls : message.toolCalls = [call])
    (answers : Answers result call) : WellPaired [.assistant message, .toolResult result] := by
  apply @wellPaired_turn message [result]
  · intro other member
    rw [List.mem_singleton.mp member, calls]
    exact ⟨call, List.mem_singleton_self call, answers⟩
  · intro other member
    rw [calls, List.mem_singleton] at member
    rw [member, List.countP_singleton, answers.1]
    simp

theorem handover_turns (member : .assistant message ∈ handover) :
    message = foreignTurn ∨ message = ownTurn := by
  simpa [handover] using member

theorem handover_conversation : Conversation handover where
  paired :=
    WellPaired.append (wellPaired_single (sampleCall "a") rfl ⟨rfl, rfl⟩)
      (WellPaired.append (wellPaired_other .null)
        (wellPaired_single (sampleCall "a") rfl ⟨rfl, rfl⟩) trivial) trivial
  kept := by
    intro message member
    rcases handover_turns member with rfl | rfl
    · exact ⟨by decide, by decide, by decide⟩
    · exact ⟨by decide, by decide, by decide⟩
  distinct := by
    intro message member
    rcases handover_turns member with rfl | rfl
    · exact List.nodup_singleton _
    · exact List.nodup_singleton _
  objects := by
    intro message member a left b right _
    rcases handover_turns member with rfl | rfl
    · rw [List.mem_singleton.mp left, List.mem_singleton.mp right]
    · rw [List.mem_singleton.mp left, List.mem_singleton.mp right]

theorem strict_renames_iff_handover :
    (∃ result, transformMessagesResult none .strict none handover = .ok result ∧
        Renaming id handover result.messages) ↔
      RenamesCleanly none handover :=
  strict_renames_iff handover_conversation (by decide)

/-- The second turn keeps the id that the first renamed, and its result is refused. -/
theorem handover_refused :
    Conversation handover ∧ ¬ ∃ result,
      transformMessagesResult (some foreignIds) .strict none handover = .ok result ∧
        Renaming id handover result.messages := by
  refine ⟨handover_conversation, ?_⟩
  rintro ⟨result, returned, _⟩
  have refused : transformMessagesResult (some foreignIds) .strict none handover =
      .error (.pairing ⟨.lateToolResult, "messages[4]",
        [.lit "Late tool result for closed tool call: ", .repr ("a_1" : String)]⟩) := by
    decide
  rw [refused] at returned
  cases returned

end Loushang.Ai
