import Loushang.Ai.Renames
import Loushang.Lib.Lists

/-!
# Well-paired conversations

A conversation is well paired when every tool result answers a call of the assistant message
before it and every call has exactly one answer. Closed turns compose, so the property is
carried through the loop with at most one open turn.
-/
namespace Loushang.Ai
open Lib

def leadingResults : List Message → List ToolResultMessage
  | .toolResult result :: rest => result :: leadingResults rest
  | _ => []

def Answers (result : ToolResultMessage) (call : ToolCall) : Prop :=
  call.id = result.toolCallId ∧ call.name = result.toolName

/-- Every tool result names a call of the nearest preceding assistant message, nothing but results
between them, and every call has exactly one result before the next other message. -/
structure WellPaired (messages : List Message) : Prop where
  refers : ∀ front result back, messages = front ++ .toolResult result :: back →
    ∃ earlier message, ∃ between : List ToolResultMessage, front = earlier ++ .assistant message :: between.map .toolResult ∧
      ∃ call ∈ message.toolCalls, Answers result call
  answered : ∀ front message back, messages = front ++ .assistant message :: back →
    ∀ call ∈ message.toolCalls,
      (leadingResults back).countP (fun result => result.toolCallId = call.id) = 1

def startsTurn : List Message → Prop
  | .toolResult _ :: _ => False
  | _ => True

theorem leadingResults_append_of_startsTurn (front : List Message) {back : List Message}
    (starts : startsTurn back) : leadingResults (front ++ back) = leadingResults front := by
  induction front with
  | nil =>
    cases back with
    | nil => rfl
    | cons message rest =>
      cases message with
      | toolResult _ => exact absurd starts id
      | assistant _ => rfl
      | other _ => rfl
  | cons message rest ih =>
    cases message with
    | toolResult result => exact congrArg (List.cons result) ih
    | assistant _ => rfl
    | other _ => rfl

@[simp] theorem leadingResults_map (results : List ToolResultMessage) :
    leadingResults (results.map .toolResult) = results := by
  induction results with
  | nil => rfl
  | cons result rest ih => exact congrArg (List.cons result) ih

theorem wellPaired_nil : WellPaired [] where
  refers := fun front _ _ whole => by cases front <;> cases whole
  answered := fun front _ _ whole => by cases front <;> cases whole

/-- Well-paired pieces compose when the second does not start inside a turn. -/
theorem WellPaired.append {front back : List Message} (first : WellPaired front)
    (second : WellPaired back) (starts : startsTurn back) : WellPaired (front ++ back) where
  refers := by
    intro before result after whole
    rcases List.append_eq_append_iff.mp whole with ⟨extra, placed, rest⟩ | ⟨extra, placed, rest⟩
    · obtain ⟨earlier, message, between, split, call⟩ := second.refers extra result after rest
      refine ⟨front ++ earlier, message, between, ?_, call⟩
      rw [placed, split, List.append_assoc]
    · cases extra with
      | nil =>
        rw [List.nil_append] at rest
        rw [← rest] at starts
        exact absurd starts id
      | cons head extra =>
        rw [List.cons_append, List.cons.injEq] at rest
        rw [← rest.1] at placed
        exact first.refers before result extra placed
  answered := by
    intro before message after whole call member
    rcases List.append_eq_append_iff.mp whole with ⟨extra, placed, rest⟩ | ⟨extra, placed, rest⟩
    · exact second.answered extra message after rest call member
    · cases extra with
      | nil =>
        rw [List.nil_append] at rest
        exact second.answered [] message after rest.symm call member
      | cons head extra =>
        rw [List.cons_append, List.cons.injEq] at rest
        rw [← rest.1] at placed
        rw [rest.2, leadingResults_append_of_startsTurn extra starts]
        exact first.answered before message extra placed call member

theorem wellPaired_other (object : Json) : WellPaired [.other object] where
  refers := by
    intro front result back whole
    rcases front with _ | ⟨_, _ | _⟩ <;> cases whole
  answered := by
    intro front message back whole
    rcases front with _ | ⟨_, _ | _⟩ <;> cases whole

/-- A closed turn: the results answer calls of the message, each call once. -/
theorem wellPaired_turn {message : AssistantMessage} {results : List ToolResultMessage}
    (refers : ∀ result ∈ results, ∃ call ∈ message.toolCalls, Answers result call)
    (answered : ∀ call ∈ message.toolCalls,
      results.countP (fun result => result.toolCallId = call.id) = 1) :
    WellPaired (.assistant message :: results.map .toolResult) where
  refers := by
    intro front result back whole
    cases front with
    | nil => cases whole
    | cons head front =>
      rw [List.cons_append, List.cons.injEq] at whole
      obtain ⟨earlier, last, split, before, rest⟩ := List.map_eq_append_iff.mp whole.2
      obtain ⟨found, after, last_eq, found_eq, _⟩ := List.map_eq_cons_iff.mp rest
      cases found_eq
      refine ⟨[], message, earlier, ?_, ?_⟩
      · rw [← whole.1, before, List.nil_append]
      · apply refers
        rw [split, last_eq]
        exact List.mem_append_right _ List.mem_cons_self
  answered := by
    intro front found back whole call member
    cases front with
    | nil =>
      rw [List.nil_append, List.cons.injEq, Message.assistant.injEq] at whole
      rw [← whole.1] at member
      rw [← whole.2, leadingResults_map]
      exact answered call member
    | cons head front =>
      rw [List.cons_append, List.cons.injEq] at whole
      have inside : Message.assistant found ∈ results.map Message.toolResult := by
        rw [whole.2]
        exact List.mem_append_right _ List.mem_cons_self
      obtain ⟨_, _, same⟩ := List.mem_map.mp inside
      cases same

variable {normalize : Option IdNormalizer} {mode : PairingMode} {t t' : Transformer}
  {kept : List Message} {path : String}

/-- Between turns, or with the calls of the last assistant message waiting for results. -/
inductive Phase (mode : PairingMode) (t : Transformer) (kept : List Message) : Prop where
  | idle (closed : t.pendingToolCalls = []) (table : t.pendingToolCallMap = .empty)
      (paired : WellPaired kept)
  | answering (front : List Message) (message : AssistantMessage) (results : List ToolResultMessage)
      (placed : kept = front ++ .assistant message :: results.map .toolResult)
      (paired : WellPaired front)
      (waiting : t.pendingToolCalls ≠ [])
      (calls : message.toolCalls = t.pendingToolCalls.map Prod.snd)
      (table : ∀ id call, t.pendingToolCallMap.get? id = some call →
        call ∈ message.toolCalls ∧ call.id = id)
      (refers : ∀ result ∈ results, ∃ call ∈ message.toolCalls, Answers result call)
      (existing : t.existingToolResultIds = results.map ToolResultMessage.toolCallId)
      (once : t.existingToolResultIds.Nodup)
      (distinct : mode = .repair → (message.toolCalls.map ToolCall.id).Nodup)

theorem countP_toolCallId {results : List ToolResultMessage} {id : PyStr}
    (once : (results.map ToolResultMessage.toolCallId).Nodup)
    (member : id ∈ results.map ToolResultMessage.toolCallId) :
    results.countP (fun result => result.toolCallId = id) = 1 := by
  have counted := List.count_eq_one_of_mem once member
  rw [List.count, List.countP_map] at counted
  rw [← counted]
  apply List.countP_congr
  intro result _
  simp

theorem foldl_appendSynthetic (blocks : List (ObjectId × ToolCall)) (t : Transformer) :
    (blocks.foldl Transformer.appendSynthetic t).transformed = t.transformed ++
      ((missingToolCalls blocks t.existingToolResultIds).map fun block =>
        syntheticResult block.2).map .toolResult := by
  induction blocks generalizing t with
  | nil => simp [missingToolCalls]
  | cons block rest ih =>
    rw [List.foldl_cons, ih]
    unfold Transformer.appendSynthetic missingToolCalls
    split
    · next known => simp [known]
    · next missing => simp [missing]

/-- The synthetic results answer the calls that had none, so the turn is closed. -/
theorem closePending_paired (phase : Phase mode t kept) (closes : t.closePending mode path = .ok t') :
    t'.pendingToolCalls = [] ∧ t'.pendingToolCallMap = .empty ∧
      ∃ synthetic : List ToolResultMessage,
        t'.transformed = t.transformed ++ synthetic.map .toolResult ∧
          WellPaired (kept ++ synthetic.map .toolResult) := by
  cases phase with
  | idle closed table paired =>
    rw [Transformer.closePending, if_pos closed, Except.ok.injEq] at closes
    subst closes
    exact ⟨closed, table, [], by simp, by simpa using paired⟩
  | answering front message results placed paired waiting calls table refers existing once distinct =>
    rw [Transformer.closePending, if_neg waiting] at closes
    dsimp only at closes
    have closedTurn : ∀ synthetic : List ToolResultMessage,
        (∀ result ∈ synthetic, ∃ call ∈ message.toolCalls, Answers result call) →
        ((results ++ synthetic).map ToolResultMessage.toolCallId).Nodup →
        (∀ call ∈ message.toolCalls, call.id ∈ (results ++ synthetic).map ToolResultMessage.toolCallId) →
        WellPaired (kept ++ synthetic.map .toolResult) := by
      intro synthetic answers distinctIds all
      have turn : WellPaired (.assistant message :: (results ++ synthetic).map .toolResult) := by
        apply wellPaired_turn
        · exact List.forall_mem_append.mpr ⟨refers, answers⟩
        · exact fun call member => countP_toolCallId distinctIds (all call member)
      have whole := paired.append turn trivial
      rwa [List.map_append, ← List.cons_append, ← List.append_assoc, ← placed] at whole
    rw [existing] at once
    split at closes
    · cases closes
    next notRefused =>
    split at closes
    · next some_missing =>
      rw [Except.ok.injEq] at closes
      subst closes
      refine ⟨rfl, rfl, _, foldl_appendSynthetic _ _, closedTurn _ ?_ ?_ ?_⟩
      · intro result member
        obtain ⟨block, missing, rfl⟩ := List.mem_map.mp member
        refine ⟨block.2, ?_, rfl, rfl⟩
        rw [calls]
        exact List.mem_map_of_mem (List.mem_of_mem_filter missing)
      · have mode_repair : mode = .repair := by
          cases mode with
          | strict => exact absurd ⟨some_missing, rfl⟩ notRefused
          | repair => rfl
        have ids := distinct mode_repair
        rw [calls, List.map_map] at ids
        rw [List.map_append, List.map_map, List.nodup_append]
        refine ⟨once, (List.filter_sublist.map _).nodup ids, ?_⟩
        intro id known other missing same
        obtain ⟨block, member, rfl⟩ := List.mem_map.mp missing
        rw [missingToolCalls, List.mem_filter, existing, decide_eq_true_eq] at member
        rw [same] at known
        exact member.2 known
      · intro call member
        rw [List.map_append, List.mem_append, ← existing]
        by_cases known : call.id ∈ t.existingToolResultIds
        · exact Or.inl known
        · rw [calls] at member
          obtain ⟨block, pending, rfl⟩ := List.mem_map.mp member
          right
          apply List.mem_map.mpr
          refine ⟨syntheticResult block.2, List.mem_map.mpr ⟨block, ?_, rfl⟩, rfl⟩
          exact List.mem_filter.mpr ⟨pending, decide_eq_true known⟩
    · next none_missing =>
      rw [Except.ok.injEq] at closes
      subst closes
      refine ⟨rfl, rfl, [], by simp [Transformer.clearPending], closedTurn [] ?_ ?_ ?_⟩
      · exact fun _ member => absurd member List.not_mem_nil
      · rwa [List.append_nil]
      · intro call member
        rw [List.append_nil, ← existing]
        rw [calls] at member
        obtain ⟨block, pending, rfl⟩ := List.mem_map.mp member
        by_contra missing
        apply none_missing
        exact List.ne_nil_of_mem (List.mem_filter.mpr ⟨pending, decide_eq_true missing⟩)

/-- The message stays in the output and its calls wait for results. -/
def AssistantMessage.opensTurn (message : AssistantMessage) : Prop :=
  message.stopReason ≠ .aborted ∧ message.stopReason ≠ .error ∧ message.toolCalls ≠ []

instance (message : AssistantMessage) : Decidable message.opensTurn :=
  inferInstanceAs (Decidable (_ ∧ _ ∧ _))

theorem foldl_recordMapping (resolutions : Dict ObjectId PyStr) (blocks : List (ObjectId × ToolCall))
    (t : Transformer) :
    ∃ closed renames, blocks.foldl (Transformer.recordMapping resolutions) t =
      { t with closedToolCallIds := closed, toolCallIdMap := renames } := by
  induction blocks generalizing t with
  | nil => exact ⟨_, _, rfl⟩
  | cons block rest ih => exact ih _

variable {message : AssistantMessage}

theorem recordToolCallIdMappings_frame (recorded : t.recordToolCallIdMappings normalize message = .ok t') :
    ∃ closed renames, t' = { t with closedToolCallIds := closed, toolCallIdMap := renames } := by
  unfold Transformer.recordToolCallIdMappings at recorded
  split at recorded
  · cases recorded
  · next resolutions _ =>
    cases recorded
    exact foldl_recordMapping resolutions _ t

theorem toolCalls_abortedBoundaryMessage (message : AssistantMessage) :
    (abortedBoundaryMessage message).toolCalls = [] := rfl

theorem wellPaired_no_calls (none_called : message.toolCalls = []) : WellPaired [.assistant message] :=
  @wellPaired_turn message [] (fun _ member => absurd member List.not_mem_nil)
    (fun _ member => absurd (none_called ▸ member) List.not_mem_nil)

theorem toolCalls_eq_nil_of_invisible {content : List ContentPart}
    (invisible : ¬ content.any ContentPart.visible) : toolCallBlocks content = [] := by
  induction content with
  | nil => rfl
  | cons part rest ih =>
    rw [List.any_cons, Bool.or_eq_true, not_or] at invisible
    cases part with
    | toolCall _ _ => exact absurd rfl invisible.1
    | text _ _ => exact ih invisible.2
    | thinking _ _ _ => exact ih invisible.2
    | image _ _ => exact ih invisible.2

theorem normalizedMessage_blocks (resolutions : Dict ObjectId PyStr) (path : String)
    (message : AssistantMessage) (t : Transformer) :
    toolCallBlocks ((Turn.takeContent resolutions path message.content t.beginTurn).normalizedMessage
        message).content =
      toolCallBlocks (message.content.zipIdx.map (renamePart resolutions)) := by
  obtain ⟨content, _, changed, _, _⟩ :=
    takeContent_spec resolutions path message.content.zipIdx t.beginTurn
  unfold Turn.normalizedMessage Turn.takeContent
  split
  · rw [content]
    rfl
  · next unchanged =>
    rw [changed, Transformer.beginTurn, Bool.false_or, Bool.not_eq_true, List.any_eq_false] at unchanged
    rw [map_renamePart_of_kept, List.zipIdx_map_fst]
    intro block member
    simpa using unchanged block member

/-- The rewritten message holds exactly the calls that wait for results, under their new ids. -/
theorem openTurn_calls (resolutions : Dict ObjectId PyStr) (message : AssistantMessage)
    (path : String) (t : Transformer) :
    ∃ normalized : AssistantMessage,
      (t.openTurn resolutions message path).transformed = t.transformed ++ [.assistant normalized] ∧
      normalized.toolCalls = (t.openTurn resolutions message path).pendingToolCalls.map Prod.snd ∧
      normalized.toolCalls.map ToolCall.id =
        (toolCallBlocks message.content).map fun block => nextId resolutions block.1 block.2 := by
  refine ⟨_, rfl, ?_, ?_⟩
  · obtain ⟨_, calls, _⟩ := takeContent_spec resolutions path message.content.zipIdx t.beginTurn
    unfold AssistantMessage.toolCalls Transformer.openTurn
    rw [normalizedMessage_blocks]
    dsimp only
    rw [Turn.takeContent, calls]
    rfl
  · have ids := congrArg (List.map Prod.fst)
      (toolCallBlocks_renamePart_names resolutions message.content.zipIdx)
    rw [List.map_map, List.map_map, List.zipIdx_map_fst] at ids
    unfold AssistantMessage.toolCalls
    rw [normalizedMessage_blocks, List.map_map]
    exact ids

/-- An assistant message met between turns; `added` is what it leaves in the output. -/
theorem assistantTurn_paired (closed : t.pendingToolCalls = []) (table : t.pendingToolCallMap = .empty)
    (paired : WellPaired kept) (distinct : mode = .repair → DistinctBlocks message)
    (takes : t.assistantTurn normalize message path = .ok t') :
    ∃ added, t'.transformed = t.transformed ++ added ∧ Phase mode t' (kept ++ added) ∧
      (t'.pendingToolCalls ≠ [] ↔ message.opensTurn) := by
  unfold Transformer.assistantTurn at takes
  split at takes
  · next aborted =>
    split at takes
    · cases takes
    next recorded =>
    obtain ⟨_, _, rfl⟩ := recordToolCallIdMappings_frame recorded
    cases takes
    refine ⟨[.assistant (abortedBoundaryMessage message)], rfl, ?_, ?_⟩
    · exact .idle closed table
        (paired.append (wellPaired_no_calls (toolCalls_abortedBoundaryMessage message)) trivial)
    · exact ⟨fun waiting => absurd closed waiting, fun opens => absurd aborted opens.1⟩
  split at takes
  · next failed =>
    split at takes
    · cases takes
    next recorded =>
    obtain ⟨_, _, rfl⟩ := recordToolCallIdMappings_frame recorded
    cases takes
    refine ⟨[], (List.append_nil _).symm, ?_, ?_⟩
    · rw [List.append_nil]
      exact .idle closed table paired
    · exact ⟨fun waiting => absurd closed waiting, fun opens => absurd failed opens.2.1⟩
  split at takes
  · next invisible =>
    cases takes
    refine ⟨[], (List.append_nil _).symm, ?_, ?_⟩
    · rw [List.append_nil]
      exact .idle closed table paired
    · refine ⟨fun waiting => absurd closed waiting, fun opens => absurd ?_ opens.2.2⟩
      rw [AssistantMessage.toolCalls, toolCalls_eq_nil_of_invisible invisible, List.map_nil]
  next notAborted notFailed _ =>
  split at takes
  · cases takes
  next resolutions resolves =>
  cases takes
  obtain ⟨normalized, placed, calls, ids⟩ := openTurn_calls resolutions message path t
  have called : (t.openTurn resolutions message path).pendingToolCalls ≠ [] ↔ message.toolCalls ≠ [] := by
    rw [AssistantMessage.toolCalls, ne_eq, ne_eq, List.map_eq_nil_iff, ← @List.map_eq_nil_iff _ _ Prod.snd,
      ← calls, ← @List.map_eq_nil_iff _ _ ToolCall.id, ids, List.map_eq_nil_iff]
  refine ⟨[.assistant normalized], placed, ?_, ?_⟩
  · by_cases waiting : (t.openTurn resolutions message path).pendingToolCalls = []
    · apply Phase.idle waiting
      · have no_calls : (Turn.takeContent resolutions path message.content t.beginTurn).currentToolCalls = [] :=
          waiting
        rw [Transformer.openTurn, no_calls]
        rfl
      · apply paired.append (wellPaired_no_calls _) trivial
        rw [calls, waiting, List.map_nil]
    · apply Phase.answering kept normalized [] rfl paired waiting calls
      · intro id call found
        have placed_call : (id, call) ∈
            (t.openTurn resolutions message path).pendingToolCalls.map fun block => (block.2.id, block.2) := by
          rcases Dict.get?_update_cases found with old | member
          · cases old
          · exact member
        obtain ⟨block, pending, same⟩ := List.mem_map.mp placed_call
        cases same
        rw [calls]
        exact ⟨List.mem_map_of_mem pending, rfl⟩
      · exact fun _ member => absurd member List.not_mem_nil
      · rfl
      · exact List.nodup_nil
      · intro repairs
        rw [ids]
        exact resolveToolCallIds_nodup resolves (distinct repairs)
  · rw [called]
    exact ⟨fun opens => ⟨notAborted, notFailed, opens⟩, fun opens => opens.2.2⟩

/-- What an accepted result can be: an answer to a waiting call, or an orphan in repair mode. -/
theorem acceptResult_cases {message : ToolResultMessage}
    (accepts : t.acceptResult mode message path = .ok t') :
    t' = { t.append (.toolResult message) path with
        existingToolResultIds := t.existingToolResultIds ++ [message.toolCallId] } ∧
      ((∃ matched, t.pendingToolCallMap.get? message.toolCallId = some matched ∧
          matched.name = message.toolName ∧ message.toolCallId ∉ t.existingToolResultIds) ∨
        (t.pendingToolCallMap.get? message.toolCallId = none ∧ mode = .repair ∧
          t.pendingToolCalls = [])) := by
  unfold Transformer.acceptResult at accepts
  dsimp only at accepts
  split at accepts
  · cases accepts
  split at accepts
  · next unmatched =>
    split at accepts
    · cases accepts
    next notOrphan =>
    split at accepts
    · cases accepts
    next closed =>
    rw [not_not] at closed
    cases accepts
    refine ⟨rfl, Or.inr ⟨unmatched, ?_, closed⟩⟩
    cases mode with
    | strict => exact absurd ⟨rfl, closed⟩ notOrphan
    | repair => rfl
  · next matched found =>
    split at accepts
    · cases accepts
    next named =>
    rw [not_not] at named
    split at accepts
    · cases accepts
    next fresh =>
    cases accepts
    exact ⟨rfl, Or.inl ⟨matched, found, named, fresh⟩⟩

/-- The message is the result, at most under another id. -/
def PassedAs (message : Message) (result : ToolResultMessage) : Prop :=
  ∃ id, message = .toolResult { result with toolCallId := id }

theorem toolResult_paired {message : ToolResultMessage} (phase : Phase mode t kept)
    (takes : t.toolResult mode message path = .ok t') :
    ∃ added, PassedAs added message ∧ t'.transformed = t.transformed ++ [added] ∧
      t'.pendingToolCalls = t.pendingToolCalls ∧
      ((t.pendingToolCalls ≠ [] ∧ Phase mode t' (kept ++ [added])) ∨
        (t.pendingToolCalls = [] ∧ mode = .repair ∧ Phase mode t' kept)) := by
  obtain ⟨diagnostics, same⟩ := toolResult_eq mode message path t
  rw [same] at takes
  obtain ⟨after, reason⟩ := acceptResult_cases takes
  generalize newestId t.toolCallIdMap message.toolCallId = id at after reason
  have output : t'.transformed = t.transformed ++ [.toolResult { message with toolCallId := id }] := by
    rw [after]
    rfl
  have waiting' : t'.pendingToolCalls = t.pendingToolCalls := by
    rw [after]
    rfl
  have map' : t'.pendingToolCallMap = t.pendingToolCallMap := by
    rw [after]
    rfl
  have known' : t'.existingToolResultIds = t.existingToolResultIds ++ [id] := by rw [after]
  refine ⟨_, ⟨id, rfl⟩, output, waiting', ?_⟩
  cases phase with
  | idle closed table paired =>
    right
    rcases reason with ⟨matched, found, _⟩ | ⟨_, repairs, _⟩
    · rw [table] at found
      cases found
    · exact ⟨closed, repairs, .idle (waiting'.trans closed) (map'.trans table) paired⟩
  | answering front head results placed paired waiting calls table refers existing once distinct =>
    left
    rcases reason with ⟨matched, found, named, fresh⟩ | ⟨_, _, closed⟩
    · refine ⟨waiting, .answering front head (results ++ [{ message with toolCallId := id }])
        ?_ paired (waiting' ▸ waiting) (waiting' ▸ calls) (map' ▸ table) ?_ ?_ ?_ distinct⟩
      · rw [placed, List.map_append, List.append_assoc]
        rfl
      · refine forall_mem_snoc refers ?_
        obtain ⟨called, same⟩ := table _ _ found
        exact ⟨matched, called, same, named⟩
      · rw [known', existing, List.map_append]
        rfl
      · rw [known', List.nodup_append]
        refine ⟨once, List.nodup_singleton id, ?_⟩
        intro other member found belongs same
        rw [same, List.mem_singleton.mp belongs] at member
        exact fresh member
    · exact absurd closed waiting

/-- The tool results of a conversation that arrive while no call waits for a result. -/
def orphanResults : Bool → List Message → List ToolResultMessage
  | _, [] => []
  | _, .assistant message :: rest => orphanResults (decide message.opensTurn) rest
  | waiting, .toolResult result :: rest =>
    if waiting then orphanResults waiting rest else result :: orphanResults waiting rest
  | _, .other _ :: rest => orphanResults false rest

/-- Output messages, each with a mark if it is an orphan that was passed through. -/
abbrev Marked := List (Message × Bool)

def Marked.paired (marked : Marked) : List Message :=
  (marked.filter fun entry => !entry.2).map Prod.fst

def Marked.orphans (marked : Marked) : List Message :=
  (marked.filter fun entry => entry.2).map Prod.fst

def unmarked (messages : List Message) : Marked := messages.map fun message => (message, false)

@[simp] theorem unmarked_fst (messages : List Message) : (unmarked messages).map Prod.fst = messages := by
  simp [unmarked, Function.comp_def]

@[simp] theorem unmarked_paired (messages : List Message) :
    Marked.paired (unmarked messages) = messages := by
  simp [Marked.paired, unmarked, List.filter_map, Function.comp_def]

@[simp] theorem unmarked_orphans (messages : List Message) :
    Marked.orphans (unmarked messages) = [] := by
  simp [Marked.orphans, unmarked, List.filter_map, Function.comp_def]

theorem Marked.paired_append (front back : Marked) :
    Marked.paired (front ++ back) = front.paired ++ back.paired := by
  simp [Marked.paired]

theorem Marked.paired_of_no_orphans {marked : Marked} (clean : marked.orphans = []) :
    marked.paired = marked.map Prod.fst := by
  rw [Marked.orphans, List.map_eq_nil_iff, List.filter_eq_nil_iff] at clean
  rw [Marked.paired, List.filter_eq_self.mpr]
  intro entry member
  simpa using clean entry member

theorem Marked.orphans_append (front back : Marked) :
    Marked.orphans (front ++ back) = front.orphans ++ back.orphans := by
  simp [Marked.orphans]

def distinctBlocks : Message → Prop
  | .assistant message => DistinctBlocks message
  | _ => True

/-- What one round adds to the output, and how it moves the scan for orphans. -/
theorem step_paired {message : Message} (rest : List Message) (phase : Phase mode t kept)
    (distinct : mode = .repair → distinctBlocks message)
    (steps : t.step normalize mode (message, path) = .ok t') :
    ∃ added : Marked, t'.transformed = t.transformed ++ added.map Prod.fst ∧
      Phase mode t' (kept ++ added.paired) ∧
      ∃ passed, List.Forall₂ PassedAs added.orphans passed ∧ (mode = .strict → passed = []) ∧
        orphanResults (decide (t.pendingToolCalls ≠ [])) (message :: rest) =
          passed ++ orphanResults (decide (t'.pendingToolCalls ≠ [])) rest := by
  cases message with
  | assistant message =>
    simp only [Transformer.step] at steps
    split at steps
    · cases steps
    next s closes =>
    obtain ⟨closed, table, synthetic, before, paired⟩ := closePending_paired phase closes
    obtain ⟨added, output, phase', opens⟩ := assistantTurn_paired closed table paired distinct steps
    refine ⟨unmarked (synthetic.map .toolResult ++ added), ?_, ?_, [], ?_, fun _ => rfl, ?_⟩
    · rw [output, before, unmarked_fst, List.append_assoc]
    · rwa [unmarked_paired, ← List.append_assoc]
    · rw [unmarked_orphans]
      exact .nil
    · rw [orphanResults, List.nil_append]
      congr 1
      exact decide_eq_decide.mpr opens.symm
  | toolResult message =>
    obtain ⟨added, passed, output, waiting, ⟨opened, phase'⟩ | ⟨closed, repairs, phase'⟩⟩ :=
      toolResult_paired phase steps
    · refine ⟨unmarked [added], ?_, ?_, [], ?_, fun _ => rfl, ?_⟩
      · rw [output, unmarked_fst]
      · rwa [unmarked_paired]
      · rw [unmarked_orphans]
        exact .nil
      · rw [orphanResults, waiting, decide_eq_true opened, if_pos rfl, List.nil_append]
    · refine ⟨[(added, true)], output, ?_, [message], .cons passed .nil, ?_, ?_⟩
      · rwa [show Marked.paired [(added, true)] = [] from rfl, List.append_nil]
      · intro strict
        rw [strict] at repairs
        cases repairs
      · rw [orphanResults, waiting, closed]
        rfl
  | other object =>
    simp only [Transformer.step] at steps
    split at steps
    · cases steps
    next s closes =>
    obtain ⟨closed, table, synthetic, before, paired⟩ := closePending_paired phase closes
    cases steps
    refine ⟨unmarked (synthetic.map .toolResult ++ [.other object]), ?_, ?_, [], ?_, fun _ => rfl, ?_⟩
    · rw [unmarked_fst, ← List.append_assoc, ← before]
      rfl
    · rw [unmarked_paired, ← List.append_assoc]
      exact .idle closed table (paired.append (wellPaired_other object) trivial)
    · rw [unmarked_orphans]
      exact .nil
    · rw [orphanResults, List.nil_append, Transformer.append, closed]
      rfl

theorem run_paired {messages : List Message} {paths : List String} (phase : Phase mode t kept)
    (lengths : messages.length = paths.length)
    (distinct : mode = .repair → ∀ message ∈ messages, distinctBlocks message)
    (runs : t.run normalize mode (messages.zip paths) = .ok t') :
    ∃ added : Marked, t'.transformed = t.transformed ++ added.map Prod.fst ∧
      Phase mode t' (kept ++ added.paired) ∧
      List.Forall₂ PassedAs added.orphans
        (orphanResults (decide (t.pendingToolCalls ≠ [])) messages) ∧
      (mode = .strict → orphanResults (decide (t.pendingToolCalls ≠ [])) messages = []) := by
  induction messages generalizing t kept paths with
  | nil =>
    cases runs
    refine ⟨[], (List.append_nil _).symm, ?_, .nil, fun _ => rfl⟩
    rwa [show Marked.paired [] = [] from rfl, List.append_nil]
  | cons message rest ih =>
    cases paths with
    | nil => cases lengths
    | cons path paths =>
      rw [List.zip_cons_cons, Transformer.run] at runs
      split at runs
      · cases runs
      next s steps =>
      obtain ⟨added, output, phase', passed, orphans, strict, scan⟩ := step_paired rest phase
        (fun repairs => distinct repairs message List.mem_cons_self) steps
      obtain ⟨more, output', phase'', orphans', strict'⟩ := ih phase' (by simpa using lengths)
        (fun repairs other member => distinct repairs other (List.mem_cons_of_mem _ member)) runs
      refine ⟨added ++ more, ?_, ?_, ?_, ?_⟩
      · rw [output', output, List.map_append, List.append_assoc]
      · rwa [Marked.paired_append, ← List.append_assoc]
      · rw [scan, Marked.orphans_append]
        exact List.rel_append orphans orphans'
      · intro mode_strict
        rw [scan, strict mode_strict, strict' mode_strict, List.append_nil]

/-- In strict mode the output is well paired. In repair mode it is once the results that arrived
while no call was waiting are set aside; they are passed through, at most under another id. -/
theorem transform_paired {messages : List Message} {messagePaths : Option (List String)}
    {result : MessageTransformResult}
    (returned : transformMessagesResult normalize mode messagePaths messages = .ok result)
    (distinct : mode = .repair → ∀ message ∈ messages, distinctBlocks message) :
    (mode = .strict → WellPaired result.messages) ∧
      ∃ marked : Marked, marked.map Prod.fst = result.messages ∧ WellPaired marked.paired ∧
        List.Forall₂ PassedAs marked.orphans (orphanResults false messages) := by
  unfold transformMessagesResult at returned
  dsimp only at returned
  split at returned
  · cases returned
  next lengths =>
  split at returned
  · cases returned
  next t runs =>
  split at returned
  · cases returned
  next t' closes =>
  cases returned
  obtain ⟨added, output, phase, orphans, strict⟩ := 
    run_paired (.idle rfl rfl wellPaired_nil) (not_not.mp lengths).symm distinct runs
  obtain ⟨_, _, synthetic, output', paired⟩ := closePending_paired phase closes
  have placed : (added ++ unmarked (synthetic.map .toolResult)).map Prod.fst = t'.transformed := by
    rw [output', output, List.map_append, unmarked_fst]
    rfl
  have kept_paired : WellPaired (Marked.paired (added ++ unmarked (synthetic.map .toolResult))) := by
    rwa [Marked.paired_append, unmarked_paired]
  have kept_orphans : Marked.orphans (added ++ unmarked (synthetic.map .toolResult)) = added.orphans := by
    rw [Marked.orphans_append, unmarked_orphans, List.append_nil]
  refine ⟨?_, _, placed, kept_paired, ?_⟩
  · intro mode_strict
    rw [strict mode_strict, List.forall₂_nil_right_iff] at orphans
    rw [← placed, ← Marked.paired_of_no_orphans (kept_orphans.trans orphans)]
    exact kept_paired
  · rw [kept_orphans]
    exact orphans

def sampleLabel : Label := ⟨("model" : String), by decide, by decide⟩

def sampleTurn (content : List ContentPart) : AssistantMessage where
  content := content
  api := sampleLabel
  provider := sampleLabel
  endpoint := sampleLabel
  model := sampleLabel
  responseId := none
  usage := {}
  stopReason := .toolUse
  errorMessage := none
  timestamp := 0

def sampleCall (id : String) : ToolCall := { id := id, name := ("calc" : String), arguments := .null }

def sampleResult (id : String) : ToolResultMessage where
  toolCallId := id
  toolName := ("calc" : String)
  content := []
  isError := false
  timestamp := 0

instance : DecidablePred distinctBlocks := fun message =>
  match message with
  | .assistant message => inferInstanceAs (Decidable ((toolCallBlocks message.content).map Prod.fst).Nodup)
  | .toolResult _ => inferInstanceAs (Decidable True)
  | .other _ => inferInstanceAs (Decidable True)

/-- One call answered, one not, and a result that no call waits for. -/
def interrupted : List Message :=
  [.assistant (sampleTurn [.toolCall (.given 0) (sampleCall "a"), .toolCall (.given 1) (sampleCall "b")]),
    .toolResult (sampleResult "a"), .other .null, .toolResult (sampleResult "z")]

def repaired : MessageTransformResult where
  messages :=
    [.assistant (sampleTurn [.toolCall (.given 0) (sampleCall "a"), .toolCall (.given 1) (sampleCall "b")]),
      .toolResult (sampleResult "a"), .toolResult (syntheticResult (sampleCall "b")), .other .null,
      .toolResult (sampleResult "z")]
  diagnostics := [⟨.missingToolResultRepaired, "messages[0].content[1]",
    [.lit "Inserted synthetic error result for missing tool call ", .repr ("b" : String), .lit "."]⟩]
  messagePaths :=
    ["messages[0]", "messages[1]", "messages[0].content[1]", "messages[2]", "messages[3]"]

theorem transform_paired_interrupted :
    (PairingMode.repair = .strict → WellPaired repaired.messages) ∧
      ∃ marked : Marked, marked.map Prod.fst = repaired.messages ∧ WellPaired marked.paired ∧
        List.Forall₂ PassedAs marked.orphans (orphanResults false interrupted) :=
  @transform_paired none .repair interrupted none repaired (by decide)
    (fun _ => by decide)

theorem not_wellPaired_toolResult (result : ToolResultMessage) : ¬ WellPaired [.toolResult result] := by
  intro paired
  obtain ⟨earlier, message, between, placed, _⟩ := paired.refers [] result [] rfl
  cases earlier <;> cases placed

/-- One object twice in a content list. -/
def shared : List Message :=
  [.assistant (sampleTurn [.toolCall (.given 0) (sampleCall "a"), .toolCall (.given 0) (sampleCall "a")])]

def sharedRepaired : MessageTransformResult where
  messages :=
    .assistant (sampleTurn
        [.toolCall (.rebuilt 0) (sampleCall "a_6179c909"), .toolCall (.rebuilt 1) (sampleCall "a_6179c909")]) ::
      List.replicate 2 (.toolResult (syntheticResult (sampleCall "a_6179c909")))
  diagnostics :=
    [0, 1].map (fun index => ⟨.toolCallIdNormalized, s!"messages[0].content[{index}]",
        [.lit "Normalized tool call id ", .repr ("a" : String), .lit " to ",
          .repr ("a_6179c909" : String), .lit "."]⟩) ++
      [0, 1].map fun index => ⟨.missingToolResultRepaired, s!"messages[0].content[{index}]",
        [.lit "Inserted synthetic error result for missing tool call ",
          .repr ("a_6179c909" : String), .lit "."]⟩
  messagePaths := ["messages[0]", "messages[0].content[0]", "messages[0].content[1]"]

/-- Repair mode lets an orphan through, and answers a call that stands twice in one message twice. -/
theorem repair_not_wellPaired :
    (∃ result, transformMessagesResult none .repair none [.toolResult (sampleResult "z")] = .ok result ∧
      ¬ WellPaired result.messages) ∧
    ∃ result, transformMessagesResult none .repair none shared = .ok result ∧
      ¬ WellPaired result.messages := by
  constructor
  · exact ⟨⟨[.toolResult (sampleResult "z")], [], ["messages[0]"]⟩, by decide,
      not_wellPaired_toolResult _⟩
  · refine ⟨sharedRepaired, by decide +kernel, ?_⟩
    intro paired
    have once := paired.answered [] _ _ rfl (sampleCall "a_6179c909") (by decide)
    revert once
    decide

end Loushang.Ai
