import Loushang.Agent.TurnResults

/-!
# Runs

Every run that returns has balanced books, and its trace is complete while it is orderly.
-/
namespace Loushang.Agent
open Loushang.Lib

section

variable {w w' : World} {new : List Message}

/-! ## Reading the queues -/

/-- The queues are apart from what a run did. -/
theorem Books.same (books : Books new w) (history : w'.history = w.history) (tasks : w'.tasks = w.tasks) :
    Books new w' := by
  have completions : w'.completions = w.completions := by
    unfold World.completions
    rw [history]
  have finals : w'.finals = w.finals := by
    unfold World.finals
    rw [history]
  refine ⟨?_, ?_, ?_, ?_, fun answering => ?_⟩
  · rw [completions, finals]
    exact books.accounts
  · rw [finals]
    exact books.finals
  · rw [finals]
    exact books.real
  · unfold World.Idle
    rw [tasks]
    exact books.idle
  · unfold World.Answering at answering
    rw [history] at answering
    exact books.answered answering

/-- A property of what a run did and of its tasks. -/
structure Recorded (inv : World → Prop) : Prop where
  same : ∀ w w' : World, w'.history = w.history → w'.tasks = w.tasks → inv w → inv w'

theorem recorded_books (new : List Message) : Recorded (Books new) := 
  ⟨fun _ _ history tasks books => books.same history tasks⟩

theorem recorded_traced (good : TraceState → Prop) : Recorded (Traced good) := 
  ⟨fun _ _ history _ traced => traced.same history⟩

theorem Recorded.and {inv inv' : World → Prop} (recorded : Recorded inv) (also : Recorded inv') :
    Recorded fun w => inv w ∧ inv' w :=
  ⟨fun w w' history tasks holds => ⟨recorded.same w w' history tasks holds.1, also.same w w' history tasks holds.2⟩⟩

section

variable {inv : World → Prop} (recorded : Recorded inv)

include recorded

theorem Recorded.mailbox (config : LoopConfig) : (getMailboxMessages config).Keeps inv := by
  unfold getMailboxMessages
  split
  · exact .bind .read fun _ => .bind (.modify fun w holds => recorded.same w _ rfl rfl holds) fun _ => .pure
  · exact .pure

theorem Recorded.steering (config : LoopConfig) : (getSteeringMessages config).Keeps inv := by
  unfold getSteeringMessages
  split
  · refine .bind .read fun skip => ?_
    split
    · exact .bind (.modify fun w holds => recorded.same w _ rfl rfl holds) fun _ => .pure
    · exact .bind .read fun _ => .bind (.modify fun w holds => recorded.same w _ rfl rfl holds) fun _ => .pure
  · exact .pure

theorem Recorded.followUp (config : LoopConfig) : (getFollowUpMessages config).Keeps inv := by
  unfold getFollowUpMessages
  split
  · exact .bind .read fun _ => .bind (.modify fun w holds => recorded.same w _ rfl rfl holds) fun _ => .pure
  · exact .pure

theorem Recorded.pollImmediateInputs (config : LoopConfig) : (pollImmediateInputs config).Keeps inv :=
  .bind (recorded.mailbox config) fun _ => .bind (recorded.steering config) fun _ => .pure

theorem Recorded.pollBeforeStop (config : LoopConfig) : (pollBeforeStop config).Keeps inv := by
  refine .bind (recorded.mailbox config) fun taken => ?_
  split
  · exact recorded.followUp config
  · exact .pure

end

theorem pollBeforeStop_users (config : LoopConfig) (w : World) :
    (pollBeforeStop config).Ensures w fun pending _ => ∀ message ∈ pending, message.isUser := by
  refine .bind ((mailbox_users config w).mono fun taken w isTaken => ?_)
  split
  · unfold getFollowUpMessages
    split
    · exact .bind (.read (.bind (.modify (.pure (isUser_tag _ _)))))
    · exact .pure nofun
  · exact .pure isTaken

/-! ## Tool calls of a response -/

theorem leaves_of_extends {outcome : TurnEnd} (extends? : outcome.Extends new) (doubled : ¬ DistinctCalls new) :
    outcome.Leaves w := by
  cases outcome with
  | returned messages => exact fun distinct => absurd (distinct.of_prefix (extends?.1 _ rfl)) doubled
  | failed failure => trivial
  | proceed messages hasMore pending => exact fun distinct => absurd (distinct.of_prefix (extends?.1 _ rfl)) doubled

variable {message : AssistantMessage}

theorem runToolCalls_leaves (config : LoopConfig) (books : Books new w)
    (traced : Traced (AtRest true (new ++ [.assistant message])) w)
    (distinct : (message.toolCalls.map ToolCall.id).Nodup) :
    (runToolCalls config (new ++ [.assistant message]) message).Ensures w fun outcome w' => outcome.Leaves w' := by
  have opened : Traced (InBatch (new ++ [.assistant message]) [] []) w :=
    traced.mono fun s ⟨turn, noMessage, tools, ended⟩ =>
      ⟨turn, noMessage, by rw [tools]; exact fun _ => .rfl, ended.trans (List.append_nil _).symm⟩
  have checked : ∀ (w : World) check aborted, .checked check aborted ∈ (w.log (.checked check aborted)).history :=
    fun w check aborted => List.mem_append_right _ (List.mem_singleton.mpr rfl)
  refine .bind (.modify (.bind (isAborted_now ?_)))
  have batch := (quiet_batch _ _ _ _ _).checked _ .beforeBatch w.abortSignal rfl (books.startBatch opened)
  have kept : ∀ action ∈ w.history, action ∈ w.history ++ [.checked .beforeBatch w.abortSignal] := fun action member =>
    List.mem_append_left _ member
  split
  · rename_i isStopped
    refine abortBatch_leaves books distinct (batch.accounts.widen nofun) nofun rfl kept (checked _ _ _) ?_
    rw [isStopped]
    rfl
  · refine .bind (((executeToolCalls_ends config distinct batch rfl).and
      ((stable_history w).executeToolCalls config _ _ kept)).mono ?_)
    rintro outcome w1 ⟨ended, kept⟩
    split
    · rename_i fault
      obtain ⟨call, isCancelled⟩ := ended.interrupted fault rfl
      exact abortBatch_leaves books distinct ended.accounts ended.idle ended.settled kept isCancelled rfl
    · rename_i terminate
      refine .bind (isAborted_now ?_)
      have accounts := (tame_accounts _ _).checked w1 .afterBatch w1.abortSignal rfl ended.accounts
      have kept := (stable_history w).checked w1 .afterBatch w1.abortSignal rfl kept
      split
      · rename_i isStopped
        refine abortBatch_leaves books distinct accounts ended.idle ended.settled kept (checked _ _ _) ?_
        rw [isStopped]
        rfl
      · rename_i running
        obtain ⟨complete, traced⟩ := ended.complete terminate rfl (by simpa using running)
        have closed := accounts.close books ended.idle ended.settled kept (List.Sublist.refl _) complete
        have rested : Traced (AtRest true (new ++ [.assistant message] ++ w1.finalizedMessages.map Message.toolResult))
            (w1.log (.checked .afterBatch w1.abortSignal)) :=
          (traced.log rfl).mono fun s ⟨turn, noMessage, tools, ended⟩ =>
            ⟨turn, noMessage, List.eq_nil_iff_forall_not_mem.mpr fun id member =>
              absurd ((tools id).mp member) List.not_mem_nil, ended⟩
        refine .bind (.read (.bind (((emit_books closed).and (emitTurnEnd_traced rested)).mono ?_)))
        rintro - w2 ⟨books, traced⟩
        split
        · exact .bind (((emit_books books).and (emitAgentEnd_ends traced books.idle)).mono
            fun _ _ ⟨books, ended⟩ => .pure fun _ => ⟨books, ended⟩)
        · exact .bind ((((recorded_books _).and (recorded_traced _)).pollImmediateInputs config w2 ⟨books, traced⟩).mono
            fun _ _ kept => .pure fun _ => kept)

/-- What the loop does with a response of the run. -/
theorem afterResponse_leaves (config : LoopConfig) (books : Books new w)
    (traced : Traced (AtRest true (new ++ [.assistant message])) w) :
    (afterResponse config (new ++ [.assistant message]) message).Ensures w fun outcome w' => outcome.Leaves w' := by
  have plain : message.toolCalls = [] → Answered [.assistant message] := fun none =>
    ⟨fun _ => by rw [none]; exact .nil, trivial⟩
  unfold afterResponse
  split
  · rename_i failed
    refine .bind (((emit_books (books.extend rfl (answered_failed failed))).and (emitTurnEnd_traced traced)).mono ?_)
    rintro - w1 ⟨books, traced⟩
    exact .bind (((emit_books books).and (emitAgentEnd_ends traced books.idle)).mono
      fun _ _ ⟨books, ended⟩ => .pure fun _ => ⟨books, ended⟩)
  · refine .bind (isAborted_now ?_)
    have traced := (quiet_traced _).checked w (.afterResponse message) w.abortSignal rfl traced
    have books := (tame_books new).checked w (.afterResponse message) w.abortSignal rfl books
    split
    · rename_i isStopped
      refine emitAbortedTurn_leaves ?_ traced
      by_cases none : message.toolCalls = []
      · exact books.extend rfl (plain none)
      · -- the response's calls stay without results
        refine ⟨books.accounts, ?_, books.real, books.idle, fun answering => absurd ?_ none⟩
        · rw [toolResults_append]
          exact books.finals.trans (List.sublist_append_left _ _)
        · have left := answering (.checked (.afterResponse message) w.abortSignal)
            (List.mem_append_right _ (List.mem_singleton.mpr rfl))
          rw [isStopped] at left
          exact List.isEmpty_iff.mp left
    · split
      · rename_i none
        refine .bind (((emit_books (books.extend rfl (plain (List.isEmpty_iff.mp none)))).and
          (emitTurnEnd_traced traced)).mono ?_)
        rintro - w1 ⟨books, traced⟩
        exact .bind ((((recorded_books _).and (recorded_traced _)).pollImmediateInputs config w1 ⟨books, traced⟩).mono
          fun _ _ kept => .pure fun _ => kept)
      · by_cases distinct : (message.toolCalls.map ToolCall.id).Nodup
        · exact runToolCalls_leaves config books traced distinct
        · refine (runToolCalls_extends config _ message _).mono fun outcome w' extends? =>
            leaves_of_extends extends? fun all => distinct (all (.assistant message) ?_)
          exact List.mem_append_right _ (List.mem_singleton.mpr rfl)

/-! ## Turns -/

variable {pending : List Message}

/-- Input enters the conversation. -/
theorem deliver_leaves (users : ∀ message ∈ pending, message.isUser) (books : Books new w)
    (traced : Traced (AtRest true new) w) :
    (deliver pending).Ensures w fun _ w' => Books (new ++ pending) w' ∧ Traced (AtRest true (new ++ pending)) w' := by
  induction pending generalizing w new with
  | nil =>
    rw [List.append_nil]
    exact .pure ⟨books, traced⟩
  | cons message rest ih =>
    refine .bind (((emit_books books).and (emitStart_traced traced)).mono ?_)
    rintro - w1 ⟨books, traced⟩
    refine .bind (((emit_books books).and (emitEnd_traced (continues_self message) traced)).mono ?_)
    rintro - w2 ⟨books, traced⟩
    have only : ∀ other ∈ [message], other.isUser := fun other member =>
      List.mem_singleton.mp member ▸ users message List.mem_cons_self
    have later := ih (fun other member => users other (List.mem_cons_of_mem _ member))
      (books.extend (leadingResults_users only) (answered_users only)) traced
    rw [List.append_assoc] at later
    exact later

theorem takeTurn_leaves (config : LoopConfig) (rounds : Nat) (users : ∀ message ∈ pending, message.isUser)
    (books : Books new w) (traced : Traced (AtRest true new) w) :
    (takeTurn config rounds new pending).Ensures w fun outcome w' => outcome.Leaves w' := by
  refine .bind ((deliver_leaves users books traced).mono ?_)
  rintro - w1 ⟨books, traced⟩
  refine .bind (isAborted_now ?_)
  have books := (tame_books _).checked w1 .beforeResponse w1.abortSignal rfl books
  have traced := (quiet_traced _).checked w1 .beforeResponse w1.abortSignal rfl traced
  split
  · exact emitAbortedTurn_leaves books traced
  · refine .bind ((((tame_books _).streamAssistantResponse rounds _ books).and
      (streamAssistantResponse_leaves rounds traced)).mono ?_)
    rintro streamed w2 ⟨books, traced⟩
    split
    · exact emitAbortedTurn_leaves books traced
    · refine .bind (.read ?_)
      split
      · exact emitAbortedTurn_leaves books traced
      · exact .pure trivial
    · exact afterResponse_leaves config books traced

theorem emitTurnStart_traced (traced : Traced (AtRest false new) w) :
    (emit .turnStart).Ensures w fun _ w' => Traced (AtRest true new) w' :=
  traced.emit (AtRest true new) fun s running ⟨turn, noMessage, tools, ended⟩ =>
    ⟨{ s with turnOpen := true }, if_pos ⟨running, turn, noMessage⟩, running, rfl, noMessage, tools, ended⟩

/-- One round of the loop. -/
theorem turn_leaves (config : LoopConfig) (rounds : Nat) (first : Bool)
    (users : ∀ message ∈ pending, message.isUser) (books : Books new w) (traced : Traced (AtRest first new) w) :
    (turn config rounds first new pending).Ensures w fun outcome w' => outcome.Leaves w' := by
  refine .bind (isAborted_now ?_)
  have books := settles_books books (@settles_log w (.checked (.turnTop first pending) w.abortSignal) rfl rfl)
  split
  · rename_i isStopped
    refine emitAbortedTurn_leaves books ?_
    cases first with
    | true => exact traced.log rfl
    | false =>
      -- no turn is open here
      refine Traced.spoiled ?_
      rw [isStopped]
      rfl
  · split
    · rename_i isFirst
      rw [isFirst] at traced
      exact takeTurn_leaves config rounds users books (traced.log rfl)
    · rename_i isLater
      rw [Bool.not_eq_true] at isLater
      rw [isLater] at traced books
      rw [isLater]
      refine .bind (((emit_books books).and (emitTurnStart_traced (traced.log rfl))).mono ?_)
      rintro - w1 ⟨books, traced⟩
      exact takeTurn_leaves config rounds users books traced

/-! ## Runs -/

/-- What a run leaves. -/
def RunLeaves (new : List Message) (outcome : Except Failure (List Message)) (w : World) : Prop :=
  ∀ messages, outcome = .ok messages →
    new <+: messages ∧ (DistinctCalls messages → Books messages w ∧ EndedTrace messages w)

theorem runLeaves_error (new : List Message) (failure : Failure) (w : World) : RunLeaves new (.error failure) w := nofun

theorem RunLeaves.trans {more : List Message} {outcome : Except Failure (List Message)} (leaves : RunLeaves more outcome w)
    (first : new <+: more) : RunLeaves new outcome w := fun messages isOk =>
  ⟨first.trans (leaves messages isOk).1, (leaves messages isOk).2⟩

theorem runLoop_leaves (config : LoopConfig) (rounds : Nat) (first : Bool)
    (users : ∀ message ∈ pending, message.isUser)
    (start : DistinctCalls new → Books new w ∧ Traced (AtRest first new) w) :
    (runLoop config rounds first new pending).Ensures w (RunLeaves new) := by
  induction rounds generalizing w new first pending with
  | zero => exact .stuck
  | succ rounds ih =>
    have taken : (turn config rounds first new pending).Ensures w fun outcome w' =>
        outcome.Extends new ∧ outcome.Leaves w' := by
      by_cases distinct : DistinctCalls new
      · obtain ⟨books, traced⟩ := start distinct
        exact (turn_extends config rounds first new pending w).and (turn_leaves config rounds first users books traced)
      · exact (turn_extends config rounds first new pending w).mono fun outcome w' extends? =>
          ⟨extends?, leaves_of_extends extends? distinct⟩
    refine .bind (taken.mono ?_)
    rintro outcome w1 ⟨extends?, leaves⟩
    cases outcome with
    | failed failure => exact .pure (runLeaves_error _ _ _)
    | returned messages =>
      refine .pure fun other isOk => ?_
      cases isOk
      exact ⟨extends?.1 messages rfl, leaves⟩
    | proceed messages hasMore pending =>
      have added := extends?.1 messages rfl
      dsimp only
      split
      · exact (ih false extends?.2 leaves).mono fun _ _ leaves => leaves.trans added
      · have polled : (pollBeforeStop config).Ensures w1 fun _ w' => DistinctCalls messages →
            Books messages w' ∧ Traced (AtRest false messages) w' := by
          by_cases distinct : DistinctCalls messages
          · exact (((recorded_books _).and (recorded_traced _)).pollBeforeStop config w1 (leaves distinct)).mono
              fun _ _ kept _ => kept
          · exact (Coroutine.Ensures.any _).mono fun _ _ _ all => absurd all distinct
        refine .bind ((polled.and (pollBeforeStop_users config w1)).mono ?_)
        rintro pending w2 ⟨leaves, users⟩
        split
        · have closed : (emit (.agentEnd messages)).Ensures w2 fun _ w' => DistinctCalls messages →
              Books messages w' ∧ EndedTrace messages w' := by
            by_cases distinct : DistinctCalls messages
            · obtain ⟨books, traced⟩ := leaves distinct
              exact ((emit_books books).and (emitAgentEnd_ends traced books.idle)).mono fun _ _ ended _ => ended
            · exact (Coroutine.Ensures.any _).mono fun _ _ _ all => absurd all distinct
          refine .bind (closed.mono fun _ w' ended => .pure fun other isOk => ?_)
          cases isOk
          exact ⟨added, ended⟩
        · exact (ih false users leaves).mono fun _ _ leaves => leaves.trans added

/-- A world before a run that has done nothing yet. -/
def World.fresh (w : World) : World := { w with tasks := [], finalizedMessages := [], history := [] }

theorem books_fresh (w : World) : Books [] w.fresh := ⟨.nil, .slnil, nofun, nofun, fun _ => trivial⟩

theorem runAgentLoop_leaves (config : LoopConfig) (rounds : Nat) {prompts : List Message}
    (users : ∀ message ∈ prompts, message.isUser) (w : World) :
    (runAgentLoop config rounds prompts).Ensures w.fresh (RunLeaves prompts) := by
  have begun : Traced (AtRest false []) (w.fresh.process .agentStart) := fun _ =>
    ⟨⟨.running, false, none, [], []⟩, rfl, rfl, rfl, rfl, rfl, rfl⟩
  have started : (emit .agentStart).Ensures w.fresh fun _ w' => Traced (AtRest false []) w' :=
    .bind (.modify (.bind (((quiet_traced _).wait _ begun).mono fun _ _ traced => .pure traced)))
  refine .bind (((emit_books (books_fresh w)).and started).mono ?_)
  rintro - w1 ⟨books, traced⟩
  refine .bind (((emit_books books).and (emitTurnStart_traced traced)).mono ?_)
  rintro - w2 ⟨books, traced⟩
  refine .bind ((deliver_leaves users books traced).mono fun _ w3 kept => ?_)
  refine .bind (((((recorded_books _).and (recorded_traced _)).pollImmediateInputs config w3 kept).and
    (polled_users config w3)).mono ?_)
  rintro pending w4 ⟨kept, users⟩
  exact runLoop_leaves config rounds true users fun _ => kept

end

/-!
## Runs and their messages

Two things can be said of a run that returns: whether its tool calls are answered, and whether its
events are a well-formed trace.
-/

/-- How a run starts: with user messages, or from the messages of a context. -/
inductive RunStart where
  | prompts (messages : List (Origin × String))
  | continuation (context : List Message)

def RunStart.run (config : LoopConfig) (rounds : Nat) : RunStart → Run (Except Failure (List Message))
  | .prompts messages => runAgentLoop config rounds (messages.map fun message => .user message.1 message.2)
  | .continuation context => runAgentLoopContinue config rounds context

theorem run_leaves (config : LoopConfig) (rounds : Nat) (start : RunStart) (w : World) :
    (start.run config rounds).Ensures w.fresh (RunLeaves []) := by
  cases start with
  | prompts messages =>
    refine (runAgentLoop_leaves config rounds (fun message member => ?_) w).mono fun _ _ leaves =>
      leaves.trans List.nil_prefix
    obtain ⟨given, -, rfl⟩ := List.mem_map.mp member
    rfl
  | continuation context =>
    unfold RunStart.run runAgentLoopContinue
    dsimp only
    split
    · exact .pure (runLeaves_error _ _ _)
    · exact .pure (runLeaves_error _ _ _)
    · exact runAgentLoop_leaves config rounds (fun _ member => absurd member List.not_mem_nil) w

def readTool : Tool := ⟨"read", false, .ok, .ok⟩

def readConfig : LoopConfig := ⟨[readTool], false, false, false, true⟩

def hello : RunStart := .prompts [(.prompt, "hello")]

def readCall : AssistantMessage := ⟨[.toolCall ⟨"call_1", "read", "a"⟩], .toolUse, none⟩

def idleWorld : World := World.initial [] .all .all

/-- A wait in which nothing happens. -/
def still : Tick := ⟨[], .nothing⟩

/-- Up to the response: the prompt enters, and the provider streams no draft. -/
def respond (message : AssistantMessage) : List Tick :=
  List.replicate 6 still ++ [⟨[], .exhausted⟩, ⟨[], .response message⟩] ++ List.replicate 3 still

/-- The tool runs to its end, and the next response ends the run. -/
def oneRead : List Tick :=
  respond readCall ++ List.replicate 2 still ++
    [⟨[.toolFinished 0 (.ok ⟨"text", ⟨"", []⟩, false⟩)], .nothing⟩] ++ List.replicate 7 still ++
    [⟨[], .exhausted⟩, ⟨[], .response ⟨[.text "done"], .stop, none⟩⟩] ++ List.replicate 6 still

/-- An abort while the end of a response with a tool call is told to the listeners. -/
def abortBehindResponse : List Tick := respond readCall ++ [⟨[.abort], .nothing⟩] ++ List.replicate 4 still

/-- As long as its history is orderly, a run's events are a well-formed trace of its new messages. -/
theorem events_well_formed {config : LoopConfig} {rounds : Nat} {start : RunStart} {w w' : World}
    {ticks rest : List Tick} {new : List Message}
    (returned : start.run config rounds w.fresh ticks = some (.ok new, w', rest)) (distinct : DistinctCalls new)
    (orderly : w'.Orderly) : WellFormedTrace w'.events new := by
  obtain ⟨-, leaves⟩ := run_leaves config rounds start w ticks _ w' rest returned new rfl
  obtain ⟨-, ended⟩ := leaves distinct
  exact ended.2 orderly

theorem events_well_formed_read :
    ∃ new w' rest, hello.run readConfig 10 idleWorld.fresh oneRead = some (.ok new, w', rest) ∧
      WellFormedTrace w'.events new := by
  have ran : ((hello.run readConfig 10 idleWorld.fresh oneRead).map fun done =>
      (done.1.toOption.map fun new => decide (DistinctCalls new), decide done.2.1.Orderly)) =
      some (some true, true) := by
    decide +kernel
  obtain ⟨⟨outcome, w', rest⟩, returned, checks⟩ := Option.map_eq_some_iff.mp ran
  rw [Prod.mk.injEq, decide_eq_true_eq] at checks
  cases outcome with
  | error failure => cases checks.1
  | ok new =>
    have distinct : DistinctCalls new := by simpa [Except.toOption] using checks.1
    exact ⟨new, w', rest, returned, events_well_formed returned distinct checks.2⟩

/-- A message is queued and the run is aborted while a turn ends, so that no turn starts after it. -/
def abortBetweenTurns : List Tick :=
  respond ⟨[.text "hi"], .stop, none⟩ ++ [still] ++ [⟨[.steer "and one more thing", .abort], .nothing⟩] ++
    List.replicate 4 still

/-- The aborted turn's message starts outside any turn, and the turn ends without having started. -/
theorem abort_outside_turn :
    ∃ new w' rest, hello.run readConfig 10 idleWorld.fresh abortBetweenTurns = some (.ok new, w', rest) ∧
      DistinctCalls new ∧ ¬ WellFormedTrace w'.events new := by
  have ran : ((hello.run readConfig 10 idleWorld.fresh abortBetweenTurns).map fun done =>
      done.1.toOption.map fun new => decide (DistinctCalls new ∧ ¬ WellFormedTrace done.2.1.events new)) =
      some (some true) := by
    decide +kernel
  obtain ⟨⟨outcome, w', rest⟩, returned, checks⟩ := Option.map_eq_some_iff.mp ran
  cases outcome with
  | error failure => cases checks
  | ok new =>
    have failed : DistinctCalls new ∧ ¬ WellFormedTrace w'.events new := by simpa [Except.toOption] using checks
    exact ⟨new, w', rest, returned, failed⟩

end Loushang.Agent
