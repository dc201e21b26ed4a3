import Loushang.Agent.SequentialCalls
import Loushang.Agent.ParallelCalls

/-!
# Answered responses

The messages of a run, response by response, and what a batch of tool calls adds to them.
-/
namespace Loushang.Agent
open Loushang.Lib

/-- The tool results in front of any other message. -/
def leadingResults : List Message → List ToolResultMessage
  | .toolResult result :: rest => result :: leadingResults rest
  | _ => []

/-- Each response that did not fail has one result for each of its calls behind it, and no other. -/
def Answered : List Message → Prop
  | [] => True
  | .assistant message :: rest =>
    (message.failed = false →
      (resultIds (leadingResults rest)).Perm (message.toolCalls.map ToolCall.id)) ∧ Answered rest
  | .user _ _ :: rest => Answered rest
  | .toolResult _ :: rest => Answered rest

def toolResults (messages : List Message) : List ToolResultMessage :=
  messages.filterMap fun message =>
    match message with
    | .toolResult result => some result
    | .user _ _ => none
    | .assistant _ => none

def Message.callIds : Message → List String
  | .assistant message => message.toolCalls.map ToolCall.id
  | .user _ _ => []
  | .toolResult _ => []

/-- No response has two calls of one id. -/
def DistinctCalls (messages : List Message) : Prop := ∀ message ∈ messages, message.callIds.Nodup

instance (messages : List Message) : Decidable (DistinctCalls messages) :=
  inferInstanceAs (Decidable (∀ message ∈ messages, message.callIds.Nodup))

def Message.isUser : Message → Bool
  | .user _ _ => true
  | .assistant _ => false
  | .toolResult _ => false

/-- No response with tool calls is left for an abort that is seen right behind it. -/
def Action.answering : Action → Bool
  | .checked (.afterResponse message) seen => !seen || message.toolCalls.isEmpty
  | _ => true

def World.Answering (w : World) : Prop := ∀ action ∈ w.history, action.answering = true

instance (w : World) : Decidable w.Answering :=
  inferInstanceAs (Decidable (∀ action ∈ w.history, action.answering = true))

def decideAnswered : (messages : List Message) → Decidable (Answered messages)
  | [] => .isTrue trivial
  | .assistant message :: rest =>
    match decideAnswered rest with
    | .isTrue later =>
      if each : message.failed = false →
          (resultIds (leadingResults rest)).Perm (message.toolCalls.map ToolCall.id) then .isTrue ⟨each, later⟩
      else .isFalse fun answered => each answered.1
    | .isFalse later => .isFalse fun answered => later answered.2
  | .user _ _ :: rest => decideAnswered rest
  | .toolResult _ :: rest => decideAnswered rest

instance (messages : List Message) : Decidable (Answered messages) := decideAnswered messages

section

variable {messages more : List Message}

theorem leadingResults_append (apart : leadingResults more = []) (messages : List Message) :
    leadingResults (messages ++ more) = leadingResults messages := by
  induction messages with
  | nil => exact apart
  | cons message rest ih =>
    cases message with
    | user origin text => rfl
    | assistant message => rfl
    | toolResult result => exact congrArg (result :: ·) ih

theorem leadingResults_map (results : List ToolResultMessage) :
    leadingResults (results.map Message.toolResult) = results := by
  induction results with
  | nil => rfl
  | cons result rest ih => exact congrArg (result :: ·) ih

theorem Answered.append (answered : Answered messages) (apart : leadingResults more = []) (also : Answered more) :
    Answered (messages ++ more) := by
  induction messages with
  | nil => exact also
  | cons message rest ih =>
    cases message with
    | user origin text => exact ih answered
    | toolResult result => exact ih answered
    | assistant message =>
      refine ⟨fun fine => ?_, ih answered.2⟩
      show (resultIds (leadingResults (rest ++ more))).Perm _
      rw [leadingResults_append apart]
      exact answered.1 fine

theorem answered_results (results : List ToolResultMessage) : Answered (results.map Message.toolResult) := by
  induction results with
  | nil => trivial
  | cons result rest ih => exact ih

/-- A response and its results. -/
theorem answered_response {message : AssistantMessage} {results : List ToolResultMessage}
    (each : message.failed = false → (resultIds results).Perm (message.toolCalls.map ToolCall.id)) :
    Answered (.assistant message :: results.map Message.toolResult) := by
  refine ⟨?_, answered_results results⟩
  rw [leadingResults_map]
  exact each

theorem leadingResults_users (users : ∀ message ∈ messages, message.isUser) : leadingResults messages = [] := by
  cases messages with
  | nil => rfl
  | cons message rest =>
    have isUser := users message List.mem_cons_self
    cases message with
    | user origin text => rfl
    | assistant message => cases isUser
    | toolResult result => cases isUser

theorem answered_users (users : ∀ message ∈ messages, message.isUser) : Answered messages := by
  induction messages with
  | nil => trivial
  | cons message rest ih =>
    have isUser := users message List.mem_cons_self
    cases message with
    | user origin text => exact ih fun other member => users other (List.mem_cons_of_mem _ member)
    | assistant message => cases isUser
    | toolResult result => cases isUser

theorem toolResults_append (messages more : List Message) :
    toolResults (messages ++ more) = toolResults messages ++ toolResults more := List.filterMap_append

theorem toolResults_map (results : List ToolResultMessage) :
    toolResults (results.map Message.toolResult) = results := by
  induction results with
  | nil => rfl
  | cons result rest ih => exact congrArg (result :: ·) ih

theorem DistinctCalls.of_prefix (distinct : DistinctCalls more) (extends? : messages <+: more) :
    DistinctCalls messages :=
  fun message member => distinct message (extends?.subset member)

end

/-! ## Between batches -/

/-- The books of a run while no tool call is under way: every tool that completed in time is
finalized, as itself, and its message is among the new ones. -/
structure Books (new : List Message) (w : World) : Prop where
  accounts : w.completions.Perm (w.finals.map Prod.fst)
  finals : (w.finals.map Prod.snd).Sublist (toolResults new)
  real : ∀ final ∈ w.finals, RealResult final
  idle : w.Idle
  answered : w.Answering → Answered new

section

variable {w w' : World} {new more : List Message}

theorem Settles.history (settles : Settles w w') : ∀ action ∈ w.history, action ∈ w'.history := by
  cases settles with
  | same w' tasks results aborted completions finals history => exact history
  | finished index task outcome isTask executing flag => exact fun action member => List.mem_append_left _ member
  | cancelled index task isTask executing aborted => exact fun action member => List.mem_append_left _ member

theorem Settles.finals (settles : Settles w w') : w'.finals = w.finals := by
  cases settles with
  | same w' tasks results aborted completions finals history => exact finals
  | finished index task outcome isTask executing flag =>
    exact (w.finals_log (.completed task.call outcome)).trans (List.append_nil _)
  | cancelled index task isTask executing aborted =>
    exact (w.finals_log (.cancelled task.call)).trans (List.append_nil _)

/-- With no task under way nothing completes. -/
theorem Settles.completions_of_idle (settles : Settles w w') (idle : w.Idle) : w'.completions = w.completions := by
  cases settles with
  | same w' tasks results aborted completions finals history => exact completions
  | finished index task outcome isTask executing flag =>
    exact absurd executing (idle task (List.mem_of_getElem? isTask))
  | cancelled index task isTask executing aborted =>
    exact absurd executing (idle task (List.mem_of_getElem? isTask))

theorem settles_books (books : Books new w) (settles : Settles w w') : Books new w' := by
  refine ⟨?_, ?_, ?_, settles.ahead.idle books.idle, fun answering => ?_⟩
  · rw [settles.completions_of_idle books.idle, settles.finals]
    exact books.accounts
  · rw [settles.finals]
    exact books.finals
  · rw [settles.finals]
    exact books.real
  · exact books.answered fun action member => answering action (settles.history _ member)

theorem tame_books (new : List Message) : Tame (Books new) :=
  tame_of_settles fun _ _ settles books => settles_books books settles

/-- Messages that are no tool results. -/
theorem Books.extend (books : Books new w) (apart : leadingResults more = []) (answered : Answered more) :
    Books (new ++ more) w := by
  refine ⟨books.accounts, ?_, books.real, books.idle, fun answering => ?_⟩
  · rw [toolResults_append]
    exact books.finals.trans (List.sublist_append_left _ _)
  · exact (books.answered answering).append apart answered

/-- What a run did stays in its history. -/
theorem stable_history (w : World) : Stable fun w' => ∀ action ∈ w.history, action ∈ w'.history where
  toTame := tame_of_settles fun _ _ settles kept action member => settles.history _ (kept action member)
  finalized _ _ _ _ kept action member := List.mem_append_left _ (kept action member)
  batch _ _ _ kept := kept

/-! ## A batch from its start -/

/-- No call was begun yet. -/
theorem Books.startBatch (books : Books new w) (traced : Traced (InBatch more [] []) w) :
    Batch (w.finals.map Prod.snd) more [] [] [] { w with tasks := [], finalizedMessages := [] } := by
  refine ⟨⟨?_, ⟨[], (List.append_nil _).symm, .slnil⟩, books.real, .nil, .nil, nofun, nofun, nofun, nofun, nofun⟩,
    rfl, nofun, traced.same rfl⟩
  show w.completions.Perm (w.finals.map Prod.fst ++ [])
  rw [List.append_nil]
  exact books.accounts

theorem executeToolCalls_ends (config : LoopConfig) {before : List ToolResultMessage} {calls : List ToolCall}
    (distinct : (calls.map ToolCall.id).Nodup) (batch : Batch before new [] [] [] w) (noTasks : w.tasks = []) :
    (executeToolCalls config calls).Ensures w fun outcome w' =>
      BatchEnd before new (calls.map ToolCall.id) outcome w' := by
  have quiet := (quiet_batch before new [] [] []).and tame_noTasks.toQuiet
  refine .bind ((isAborted_reads quiet rfl ⟨batch, noTasks⟩).mono ?_)
  rintro stopped w1 ⟨⟨batch, noTasks⟩, signal⟩
  have idle : w1.Idle := fun task member => by
    rw [noTasks] at member
    cases member
  have settled : w1.held = [] := by
    unfold World.held
    rw [noTasks]
    rfl
  split
  · rename_i isStopped
    exact .pure (batchEnd_aborted batch.accounts nofun idle settled (signal.trans isStopped))
  · split
    · exact executeSequential_ends config (.refl _) distinct batch nofun idle settled
    · exact executeParallel_ends config distinct batch noTasks

theorem emitAborted_ids (finalizedIds : List String) (calls : List ToolCall) (w : World) :
    (emitAborted finalizedIds calls).Ensures w fun results _ =>
      resultIds results = (calls.map ToolCall.id).filter (· ∉ finalizedIds) := by
  induction calls generalizing w with
  | nil => exact .pure rfl
  | cons call rest ih =>
    unfold emitAborted
    split
    · rename_i isFinal
      refine (ih w).mono fun results w' isIds => isIds.trans ?_
      rw [List.map_cons, List.filter_cons_of_neg (by simpa using isFinal)]
    · rename_i isFree
      have named : (emitToolCallOutcome call abortedToolResult true).Ensures w fun message _ =>
          message.toolCallId = call.id :=
        .bind ((Coroutine.Ensures.any _).mono fun _ _ _ => .bind ((Coroutine.Ensures.any _).mono fun _ _ _ =>
          .bind ((Coroutine.Ensures.any _).mono fun _ _ _ => .pure rfl)))
      refine .bind (named.mono fun message w1 isId => .bind ((ih w1).mono fun results w' isIds => .pure ?_))
      rw [List.map_cons, List.filter_cons_of_pos (by simpa using isFree), ← isIds, ← isId]
      rfl

/-- Results for some of the ids, and for those that are missing. -/
theorem perm_complete {ids some : List String} (distinct : ids.Nodup) (someDistinct : some.Nodup)
    (among : ∀ id ∈ some, id ∈ ids) : (some ++ ids.filter (· ∉ some)).Perm ids := by
  refine (List.perm_ext_iff_of_nodup ?_ distinct).mpr fun id => ?_
  · refine List.nodup_append.mpr ⟨someDistinct, distinct.filter _, ?_⟩
    rintro id isSome other missing rfl
    obtain ⟨-, isFree⟩ := List.mem_filter.mp missing
    exact absurd isSome (by simpa using isFree)
  · rw [List.mem_append, List.mem_filter]
    constructor
    · rintro (isSome | ⟨member, -⟩)
      · exact among id isSome
      · exact member
    · intro member
      by_cases isSome : id ∈ some
      · exact .inl isSome
      · exact .inr ⟨member, by simpa using isSome⟩

/-- The books of a batch are those of a run again. -/
theorem Accounts.close {ids : List String} {message : AssistantMessage} {results : List ToolResultMessage}
    (accounts : Accounts (w.finals.map Prod.snd) ids w') (books : Books new w) (idle : w'.Idle) (settled : w'.held = [])
    (kept : ∀ action ∈ w.history, action ∈ w'.history) (listed : w'.finalizedMessages.Sublist results)
    (complete : (resultIds results).Perm (message.toolCalls.map ToolCall.id)) :
    Books (new ++ [.assistant message] ++ results.map Message.toolResult) w' := by
  refine ⟨?_, ?_, accounts.real, idle, fun answering => ?_⟩
  · have balanced := accounts.accounts
    rw [settled, List.append_nil] at balanced
    exact balanced
  · obtain ⟨made, isMade, inOrder⟩ := accounts.results
    rw [isMade, toolResults_append, toolResults_append, toolResults_map]
    exact (books.finals.trans (List.sublist_append_left _ _)).append (inOrder.trans listed)
  · rw [List.append_assoc]
    exact (books.answered fun other member => answering other (kept _ member)).append rfl
      (answered_response fun _ => complete)

end

end Loushang.Agent
