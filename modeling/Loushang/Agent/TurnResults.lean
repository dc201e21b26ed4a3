import Loushang.Agent.Answers

/-!
# Turns

What one round of the loop leaves: a trace whose turn is closed, answered responses and balanced
books, as long as no response has two calls of one id.
-/
namespace Loushang.Agent
open Loushang.Lib

/-- Between two events nothing is open but possibly the turn. -/
def AtRest (turnOpen : Bool) (new : List Message) (s : TraceState) : Prop :=
  s.turnOpen = turnOpen ∧ s.message = none ∧ s.tools = [] ∧ s.ended = new

/-- The run's trace is complete. -/
def EndedTrace (new : List Message) (w : World) : Prop := w.Idle ∧ (w.Orderly → WellFormedTrace w.events new)

/-- The messages a turn returns or goes on with. -/
def TurnEnd.newMessages? : TurnEnd → Option (List Message)
  | .returned newMessages => some newMessages
  | .failed _ => none
  | .proceed newMessages _ _ => some newMessages

def TurnEnd.pending : TurnEnd → List Message
  | .returned _ => []
  | .failed _ => []
  | .proceed _ _ pending => pending

/-- Messages are only added, and what is pending is input. -/
def TurnEnd.Extends (new : List Message) (outcome : TurnEnd) : Prop :=
  (∀ messages, outcome.newMessages? = some messages → new <+: messages) ∧ ∀ message ∈ outcome.pending, message.isUser

/-- What a turn leaves. -/
def TurnEnd.Leaves (w : World) : TurnEnd → Prop
  | .returned new => DistinctCalls new → Books new w ∧ EndedTrace new w
  | .failed _ => True
  | .proceed new _ _ => DistinctCalls new → Books new w ∧ Traced (AtRest false new) w

theorem TurnEnd.Extends.trans {new more : List Message} {outcome : TurnEnd} (extends? : outcome.Extends more)
    (first : new <+: more) : outcome.Extends new :=
  ⟨fun messages isNew => first.trans (extends?.1 messages isNew), extends?.2⟩

section

variable {w w' : World} {new : List Message}

/-! ## Messages are only added -/

theorem isUser_tag (origin : Origin) (texts : List String) : ∀ message ∈ origin.tag texts, message.isUser := by
  intro message member
  obtain ⟨text, -, rfl⟩ := List.mem_map.mp member
  rfl

theorem mailbox_users (config : LoopConfig) (w : World) :
    (getMailboxMessages config).Ensures w fun taken _ => ∀ message ∈ taken, message.isUser := by
  unfold getMailboxMessages
  split
  · exact .bind (.read (.bind (.modify (.pure (isUser_tag _ _)))))
  · exact .pure nofun

theorem steering_users (config : LoopConfig) (w : World) :
    (getSteeringMessages config).Ensures w fun taken _ => ∀ message ∈ taken, message.isUser := by
  unfold getSteeringMessages
  split
  · refine .bind (.read ?_)
    split
    · exact .bind (.modify (.pure nofun))
    · exact .bind (.read (.bind (.modify (.pure (isUser_tag _ _)))))
  · exact .pure nofun

theorem polled_users (config : LoopConfig) (w : World) :
    (pollImmediateInputs config).Ensures w fun pending _ => ∀ message ∈ pending, message.isUser := by
  refine .bind ((mailbox_users config w).mono fun first w1 isFirst =>
    .bind ((steering_users config w1).mono fun second w2 isSecond => .pure ?_))
  exact List.forall_mem_append.mpr ⟨isFirst, isSecond⟩

theorem emitAbortedTurn_extends (new : List Message) (w : World) :
    (emitAbortedTurn new).Ensures w fun outcome _ =>
      outcome = .returned (new ++ [.assistant (.abortedBy "Request aborted by user")]) :=
  .bind ((Coroutine.Ensures.any _).mono fun _ _ _ => .bind ((Coroutine.Ensures.any _).mono fun _ _ _ =>
    .bind ((Coroutine.Ensures.any _).mono fun _ _ _ => .bind ((Coroutine.Ensures.any _).mono fun _ _ _ => .pure rfl))))

variable {messages more : List Message}

theorem extends_returned (extends? : messages <+: more) : (TurnEnd.returned more).Extends messages := by
  refine ⟨fun _ isNew => ?_, nofun⟩
  cases isNew
  exact extends?

theorem extends_proceed {pending : List Message} {hasMore : Bool} (extends? : messages <+: more)
    (users : ∀ message ∈ pending, message.isUser) :
    (TurnEnd.proceed more hasMore pending).Extends messages := by
  refine ⟨fun _ isNew => ?_, users⟩
  cases isNew
  exact extends?

theorem extends_aborted (new : List Message) (w : World) :
    (emitAbortedTurn new).Ensures w fun outcome _ => outcome.Extends new :=
  (emitAbortedTurn_extends new w).mono fun outcome _ isReturned => by
    rw [isReturned]
    exact extends_returned (List.prefix_append _ _)

theorem abortBatch_extends (new : List Message) (message : AssistantMessage) (w : World) :
    (abortBatch new message).Ensures w fun outcome _ => outcome.Extends new :=
  .bind (.read (.bind ((Coroutine.Ensures.any _).mono fun _ _ _ => .bind ((Coroutine.Ensures.any _).mono fun _ w _ =>
    (extends_aborted _ w).mono fun _ _ extends? => extends?.trans (List.prefix_append _ _)))))

theorem runToolCalls_extends (config : LoopConfig) (new : List Message) (message : AssistantMessage) (w : World) :
    (runToolCalls config new message).Ensures w fun outcome _ => outcome.Extends new := by
  refine .bind (.modify (.bind ((Coroutine.Ensures.any _).mono fun stopped w _ => ?_)))
  split
  · exact abortBatch_extends _ _ _
  · refine .bind ((Coroutine.Ensures.any _).mono fun outcome w _ => ?_)
    split
    · exact abortBatch_extends _ _ _
    · refine .bind ((Coroutine.Ensures.any _).mono fun stopped w _ => ?_)
      split
      · exact abortBatch_extends _ _ _
      · refine .bind (.read (.bind ((Coroutine.Ensures.any _).mono fun _ w _ => ?_)))
        split
        · exact .bind ((Coroutine.Ensures.any _).mono fun _ _ _ => .pure (extends_returned (List.prefix_append _ _)))
        · exact .bind ((polled_users config w).mono fun pending _ users =>
            .pure (extends_proceed (List.prefix_append _ _) users))

theorem afterResponse_extends (config : LoopConfig) (new : List Message) (message : AssistantMessage) (w : World) :
    (afterResponse config new message).Ensures w fun outcome _ => outcome.Extends new := by
  unfold afterResponse
  split
  · exact .bind ((Coroutine.Ensures.any _).mono fun _ _ _ => .bind ((Coroutine.Ensures.any _).mono fun _ _ _ =>
      .pure (extends_returned (List.prefix_refl _))))
  · refine .bind ((Coroutine.Ensures.any _).mono fun stopped w _ => ?_)
    split
    · exact extends_aborted _ _
    · split
      · exact .bind ((Coroutine.Ensures.any _).mono fun _ w _ => .bind ((polled_users config w).mono
          fun pending _ users => .pure (extends_proceed (List.prefix_refl _) users)))
      · exact runToolCalls_extends _ _ _ _

theorem takeTurn_extends (config : LoopConfig) (rounds : Nat) (new pending : List Message) (w : World) :
    (takeTurn config rounds new pending).Ensures w fun outcome _ => outcome.Extends new := by
  have added : new <+: new ++ pending := List.prefix_append _ _
  have aborted : ∀ w, (emitAbortedTurn (new ++ pending)).Ensures w fun outcome _ => outcome.Extends new := fun w =>
    (extends_aborted _ w).mono fun _ _ extends? => extends?.trans added
  refine .bind ((Coroutine.Ensures.any _).mono fun _ w _ => .bind ((Coroutine.Ensures.any _).mono fun stopped w _ => ?_))
  split
  · exact aborted w
  · refine .bind ((Coroutine.Ensures.any _).mono fun streamed w _ => ?_)
    split
    · exact aborted w
    · refine .bind (.read ?_)
      split
      · exact aborted w
      · exact .pure ⟨nofun, nofun⟩
    · exact (afterResponse_extends _ _ _ w).mono fun _ _ extends? =>
        extends?.trans (added.trans (List.prefix_append _ _))

theorem turn_extends (config : LoopConfig) (rounds : Nat) (first : Bool) (new pending : List Message) (w : World) :
    (turn config rounds first new pending).Ensures w fun outcome _ => outcome.Extends new := by
  refine .bind ((Coroutine.Ensures.any _).mono fun stopped w _ => ?_)
  split
  · exact extends_aborted _ _
  · split
    · exact takeTurn_extends _ _ _ _ _
    · exact .bind ((Coroutine.Ensures.any _).mono fun _ w _ => takeTurn_extends _ _ _ _ w)

/-! ## Events around the calls -/

theorem World.events_log (w : World) (action : Action) : (w.log action).events = w.events ++ action.event?.toList := by
  unfold World.events World.log
  rw [List.filterMap_append]
  cases found : action.event? with
  | none => simp [found]
  | some event => simp [found]

theorem tame_idle : Tame World.Idle := tame_of_settles fun _ _ settles idle => settles.ahead.idle idle

/-- Nobody shows anything once the tools are settled. -/
theorem happen_idle (idle : w.Idle) (happening : Happening) :
    (w.happen happening).events = w.events ∧ ((w.happen happening).Orderly → w.Orderly) := by
  have none : ∀ index, w.executing? index = none := fun index => by
    cases found : w.executing? index with
    | none => rfl
    | some task =>
      obtain ⟨isTask, executing⟩ := World.executing?_eq_some.mp found
      exact absurd executing (idle task (List.mem_of_getElem? isTask))
  have logged : ∀ {w' : World} {action : Action}, action.event? = .none → w'.history = (w.log action).history →
      w'.events = w.events ∧ (w'.Orderly → w.Orderly) := by
    intro w' action silent history
    constructor
    · have same : w'.events = (w.log action).events := by
        unfold World.events
        rw [history]
      rw [same, World.events_log, silent]
      exact List.append_nil _
    · intro orderly earlier member
      exact orderly earlier (history ▸ List.mem_append_left _ member)
  cases happening with
  | steer text => exact logged rfl rfl
  | followUp text => exact logged rfl rfl
  | enqueueMailbox text => exact logged rfl rfl
  | setSteeringMode mode => exact ⟨rfl, id⟩
  | setFollowUpMode mode => exact ⟨rfl, id⟩
  | abort => exact logged rfl rfl
  | toolUpdated index =>
    unfold World.happen
    dsimp only
    rw [none]
    exact ⟨rfl, id⟩
  | toolFinished index outcome =>
    unfold World.happen
    dsimp only
    rw [none]
    exact ⟨rfl, id⟩
  | toolCancelled index =>
    unfold World.happen
    dsimp only
    rw [none]
    exact ⟨rfl, id⟩

theorem quiet_endedTrace (new : List Message) : Quiet (EndedTrace new) where
  happen w happening ended := by
    obtain ⟨idle, complete⟩ := ended
    obtain ⟨events, orderly⟩ := happen_idle idle happening
    refine ⟨tame_idle.happen w happening idle, fun later => ?_⟩
    rw [events]
    exact complete (orderly later)
  checked w check aborted plain ended := by
    refine ⟨ended.1, fun later => ?_⟩
    have events : (w.log (.checked check aborted)).events = w.events :=
      (w.events_log (.checked check aborted)).trans (List.append_nil _)
    rw [events]
    exact ended.2 (World.orderly_log.mp later).1

theorem emitAgentEnd_ends (traced : Traced (AtRest false new) w) (idle : w.Idle) :
    (emit (.agentEnd new)).Ensures w fun _ w' => EndedTrace new w' := by
  have complete : EndedTrace new (w.process (.agentEnd new)) := by
    refine ⟨tame_idle.process w _ rfl idle, fun orderly => ?_⟩
    obtain ⟨s, isTrace, running, turn, message, tools, ended⟩ := traced (World.orderly_log.mp orderly).1
    have events : (w.process (.agentEnd new)).events = w.events ++ [.agentEnd new] := w.events_log _
    unfold WellFormedTrace
    rw [events, List.foldlM_append]
    show w.trace >>= _ = _
    rw [isTrace]
    show (s.step (.agentEnd new)).bind some = _
    have stepped : s.step (.agentEnd new) = some { s with phase := .ended } :=
      if_pos ⟨running, turn, message, ended.symm⟩
    rw [stepped]
    obtain ⟨phase, turnOpen, message', tools', ended'⟩ := s
    cases turn
    cases message
    cases tools
    cases ended
    rfl
  exact .bind (.modify (.bind (((quiet_endedTrace new).wait _ complete).mono fun _ _ ended => .pure ended)))

variable {message : AssistantMessage}

theorem emitTurnEnd_traced {results : List ToolResultMessage} (traced : Traced (AtRest true new) w) :
    (emit (.turnEnd message results)).Ensures w fun _ w' => Traced (AtRest false new) w' :=
  traced.emit (AtRest false new) fun s running ⟨turn, noMessage, tools, ended⟩ =>
    ⟨{ s with turnOpen := false }, if_pos ⟨running, turn, noMessage, tools⟩, running, rfl, noMessage, tools, ended⟩

/-- While a message is shown. -/
def Showing (message : Message) (new : List Message) (s : TraceState) : Prop :=
  s.turnOpen = true ∧ s.message = some message ∧ s.tools = [] ∧ s.ended = new

theorem emitStart_traced {message : Message} (traced : Traced (AtRest true new) w) :
    (emit (.messageStart message)).Ensures w fun _ w' => Traced (Showing message new) w' :=
  traced.emit (Showing message new) fun s running ⟨turn, noMessage, tools, ended⟩ =>
    ⟨{ s with message := some message }, if_pos ⟨running, turn, noMessage⟩, running, turn, rfl, tools, ended⟩

theorem emitEnd_traced {message shown : Message} (continues : message.continues shown = true)
    (traced : Traced (Showing shown new) w) :
    (emit (.messageEnd message)).Ensures w fun _ w' => Traced (AtRest true (new ++ [message])) w' := by
  refine traced.emit (AtRest true (new ++ [message])) fun s running ⟨turn, isShown, tools, ended⟩ => ?_
  have fits : s.message.any message.continues = true := by
    rw [isShown]
    exact continues
  refine ⟨{ s with message := none, ended := s.ended ++ [message] }, if_pos ⟨running, fits⟩, running, turn, rfl, tools, ?_⟩
  show s.ended ++ [message] = new ++ [message]
  rw [ended]

theorem continues_self (message : Message) : message.continues message = true := by
  cases message with
  | user origin text => exact decide_eq_true rfl
  | assistant message => rfl
  | toolResult result => exact decide_eq_true rfl

theorem emit_books {event : AgentEvent} (books : Books new w) : (emit event).Ensures w fun _ w' => Books new w' :=
  .bind (.modify (.bind (((tame_books new).wait _ (settles_books books (settles_process w event))).mono
    fun _ _ books => .pure books)))

/-! ## Aborted turns -/

theorem emitAbortedTurn_ends (traced : Traced (AtRest true new) w) (idle : w.Idle) :
    (emitAbortedTurn new).Ensures w fun _ w' =>
      EndedTrace (new ++ [.assistant (.abortedBy "Request aborted by user")]) w' := by
  refine .bind (((emitStart_traced traced).and (tame_idle.emit rfl w idle)).mono ?_)
  rintro - w1 ⟨traced, idle⟩
  refine .bind (((emitEnd_traced (continues_self _) traced).and (tame_idle.emit rfl w1 idle)).mono ?_)
  rintro - w2 ⟨traced, idle⟩
  refine .bind (((emitTurnEnd_traced traced).and (tame_idle.emit rfl w2 idle)).mono ?_)
  rintro - w3 ⟨traced, idle⟩
  exact .bind ((emitAgentEnd_ends traced idle).mono fun _ _ ended => .pure ended)

theorem answered_failed (failed : message.failed = true) : Answered [.assistant message] :=
  ⟨fun fine => absurd (fine.symm.trans failed) nofun, trivial⟩

theorem emitAbortedTurn_leaves (books : Books new w) (traced : Traced (AtRest true new) w) :
    (emitAbortedTurn new).Ensures w fun outcome w' => outcome.Leaves w' := by
  refine (((emitAbortedTurn_extends new w).and ((tame_books new).emitAbortedTurn new w books)).and
    (emitAbortedTurn_ends traced books.idle)).mono ?_
  rintro outcome w' ⟨⟨rfl, books⟩, ended⟩ -
  exact ⟨books.extend rfl (answered_failed rfl), ended⟩

/-- What an aborted batch lacks is made up. -/
theorem abortBatch_leaves (books : Books new w) (distinct : (message.toolCalls.map ToolCall.id).Nodup)
    (accounts : Accounts (w.finals.map Prod.snd) (message.toolCalls.map ToolCall.id) w') (idle : w'.Idle)
    (settled : w'.held = []) (kept : ∀ action ∈ w.history, action ∈ w'.history) {action : Action}
    (member : action ∈ w'.history) (spoils : action.orderly = false) :
    (abortBatch (new ++ [.assistant message]) message).Ensures w' fun outcome w'' => outcome.Leaves w'' := by
  refine .bind (.read (.bind (((emitAborted_ids _ message.toolCalls w').and
    (((tame_accounts _ _).emitAborted _ _ w' accounts).and (((tame_ahead w').emitAborted _ _ w' (ahead_refl w')).and
      ((stable_history w').emitAborted _ _ w' fun _ member => member)))).mono ?_)))
  rintro aborted w1 ⟨isIds, accounts, ahead, kept'⟩
  have complete : (resultIds (w'.finalizedMessages ++ aborted)).Perm (message.toolCalls.map ToolCall.id) := by
    unfold resultIds at isIds ⊢
    rw [List.map_append, isIds]
    exact perm_complete distinct (ahead.results ▸ accounts.finalizedDistinct) (ahead.results ▸ accounts.finalizedSeen)
  have closed := accounts.close books (ahead.idle idle) ((ahead.held_of_idle idle).trans settled)
    (fun action member => kept' action (kept action member)) (ahead.results ▸ List.sublist_append_left _ aborted) complete
  refine .bind (((emit_books closed).and ((stable_history w1).emit rfl w1 fun _ member => member)).mono ?_)
  rintro - w2 ⟨books, kept''⟩
  exact emitAbortedTurn_leaves books (traced_of_mem (kept'' _ (kept' _ member)) spoils)

end

/-!
## The trace of a streamed response

Its message starts with the first draft or after the stream, and ends once. A response that breaks
off, or gets out of order, after its draft was shown spoils the trace.
-/

/-- A response under way: its message is shown if a draft was added. -/
def Drafting (new : List Message) (addedDraft : Bool) (s : TraceState) : Prop :=
  if addedDraft then ∃ draft, Showing (.assistant draft) new s else AtRest true new s

/-- What a part of a response leaves. -/
def Leaving {A : Type} (new : List Message) (draftOf : A → Bool) (outcome : Except Fault A) (w : World) : Prop :=
  match outcome with
  | .error _ => Traced (AtRest true new) w
  | .ok value => Traced (Drafting new (draftOf value)) w

section

variable {w : World} {new : List Message} {addedDraft : Bool}

theorem Traced.rest (traced : Traced (Drafting new false) w) : Traced (AtRest true new) w := traced

theorem interrupted_leaves {A : Type} {draftOf : A → Bool} {fault : Fault}
    (traced : Traced (Drafting new addedDraft) w) :
    Leaving new draftOf (.error fault) (w.log (.interrupted addedDraft)) := by
  cases addedDraft with
  | false => exact traced.rest.log rfl
  | true => exact Traced.spoiled rfl

theorem waitInExecution_leaves (traced : Traced (Drafting new addedDraft) w) :
    (waitInExecution addedDraft).Ensures w (Leaving new fun _ => addedDraft) := by
  refine .bind (((quiet_traced _).wait w traced).mono fun arrival w' traced => ?_)
  split
  · exact .bind (.modify (.pure (interrupted_leaves traced)))
  · refine .bind (.read ?_)
    split
    · exact .bind (.modify (.pure (interrupted_leaves traced)))
    · exact .stuck
  · exact .pure traced

variable {event : AgentEvent}

/-- An event of a response, once it is shown. -/
theorem emitInExecution_leaves (traced : Traced (Drafting new addedDraft) (w.process event)) :
    (emitInExecution event addedDraft).Ensures w (Leaving new fun _ => addedDraft) := by
  refine .bind (.modify (.bind ((waitInExecution_leaves traced).mono fun waited w' leaves => .pure ?_)))
  cases waited with
  | error fault => exact leaves
  | ok arrival => exact leaves

theorem awaitResult_leaves (traced : Traced (Drafting new addedDraft) w) :
    (awaitResult addedDraft).Ensures w (Leaving new Prod.snd) := by
  refine .bind ((waitInExecution_leaves traced).mono fun waited w' leaves => ?_)
  split
  · exact .pure leaves
  · exact .pure leaves
  · exact .stuck

/-- An event behind an action that spoils the trace. -/
theorem traced_behind {good : TraceState → Prop} {action : Action} (spoils : action.orderly = false) :
    Traced good ((w.log action).process event) := by
  refine traced_of_mem ?_ spoils
  rw [World.history_process]
  exact List.mem_append_left _ (List.mem_append_right _ (List.mem_singleton.mpr rfl))

theorem collectEvents_leaves (rounds : Nat) (traced : Traced (Drafting new addedDraft) w) :
    (collectEvents rounds addedDraft).Ensures w (Leaving new Prod.snd) := by
  induction rounds generalizing addedDraft w with
  | zero => exact .stuck
  | succ rounds ih =>
    refine .bind ((waitInExecution_leaves traced).mono fun waited w leaves => ?_)
    split
    · exact .pure leaves
    · exact awaitResult_leaves leaves
    · rename_i event
      have traced : Traced (Drafting new addedDraft) w := leaves
      refine .bind (isAborted_now ?_)
      split
      · rename_i stopped
        refine .pure ?_
        rw [stopped]
        cases addedDraft with
        | false => exact traced.rest.log rfl
        | true => exact Traced.spoiled rfl
      · rename_i running
        have running : w.abortSignal = false := by simpa using running
        have logged : Traced (Drafting new addedDraft)
            (w.log (.checked (.providerEvent event addedDraft) w.abortSignal)) := traced.log rfl
        split
        · rename_i draft
          have shown : Traced (Drafting new true)
              ((w.log (.checked (.providerEvent (.start draft) addedDraft) w.abortSignal)).process
                (.messageStart (.assistant draft))) := by
            cases addedDraft with
            | false =>
              exact logged.process fun s running ⟨turn, noMessage, tools, ended⟩ =>
                ⟨{ s with message := some (.assistant draft) }, if_pos ⟨running, turn, noMessage⟩, running, draft, turn,
                  rfl, tools, ended⟩
            | true =>
              refine traced_behind ?_
              rw [running]
              rfl
          refine .bind ((emitInExecution_leaves shown).mono fun emitted w leaves => ?_)
          split
          · exact .pure leaves
          · exact ih leaves
        · rename_i draft
          have shown : Traced (Drafting new addedDraft)
              ((w.log (.checked (.providerEvent (.delta draft) addedDraft) w.abortSignal)).process
                (.messageUpdate (.assistant draft))) := by
            cases addedDraft with
            | false =>
              refine traced_behind ?_
              rw [running]
              rfl
            | true =>
              refine logged.process fun s isRunning ⟨shown, turn, isShown, tools, ended⟩ => ?_
              have fits : s.message.any (Message.assistant draft).continues = true := by
                rw [isShown]
                rfl
              exact ⟨{ s with message := some (.assistant draft) }, if_pos ⟨isRunning, fits⟩, isRunning, draft, turn, rfl,
                tools, ended⟩
          refine .bind ((emitInExecution_leaves shown).mono fun emitted w leaves => ?_)
          split
          · exact .pure leaves
          · exact ih leaves
        · exact awaitResult_leaves logged
        · exact ih logged
    · exact .stuck

theorem draftAdded_leaves {collected : Except Fault (AssistantMessage × Bool)}
    (leaves : Leaving new Prod.snd collected w) : Traced (Drafting new (draftAdded collected)) w := by
  cases collected with
  | error fault => exact leaves
  | ok value => exact leaves

theorem collectAssistantResponse_leaves (rounds : Nat) (traced : Traced (AtRest true new) w) :
    (collectAssistantResponse rounds).Ensures w (Leaving new Prod.snd) := by
  have drafting : ∀ {w}, Traced (AtRest true new) w → Traced (Drafting new false) w := fun traced => traced
  refine .bind ((waitInExecution_leaves (drafting traced)).mono fun waited w leaves => ?_)
  split
  · exact .pure leaves
  · refine .bind (isAborted_now ?_)
    have logged : Traced (Drafting new false) (w.log (.checked .beforeRequest w.abortSignal)) :=
      (drafting leaves).log rfl
    split
    · exact .pure logged
    · refine .bind ((waitInExecution_leaves logged).mono fun waited w leaves => ?_)
      split
      · exact .pure leaves
      · refine .bind ((collectEvents_leaves rounds leaves).mono fun collected w leaves => ?_)
        refine .bind ((waitInExecution_leaves (draftAdded_leaves leaves)).mono fun waited w closed => ?_)
        split
        · exact .pure closed
        · refine .pure ?_
          cases collected with
          | error fault => exact closed
          | ok value => exact closed

/-- How a response ends: its message is the last new one, or it left none. -/
def StreamLeaves (new : List Message) (outcome : Except Fault AssistantMessage) (w : World) : Prop :=
  match outcome with
  | .error _ => Traced (AtRest true new) w
  | .ok message => Traced (AtRest true (new ++ [.assistant message])) w

theorem endResponse_leaves {message : AssistantMessage}
    (traced : Traced (fun s => ∃ draft, Showing (.assistant draft) new s) w) :
    (endResponse message).Ensures w (StreamLeaves new) := by
  have ended : (emit (.messageEnd (.assistant message))).Ensures w fun _ w' => StreamLeaves new (.ok message) w' := by
    refine traced.emit (AtRest true (new ++ [.assistant message])) ?_
    rintro s running ⟨draft, turn, isShown, tools, ended⟩
    have fits : s.message.any (Message.assistant message).continues = true := by
      rw [isShown]
      rfl
    refine ⟨{ s with message := none, ended := s.ended ++ [.assistant message] }, if_pos ⟨running, fits⟩, running, turn,
      rfl, tools, ?_⟩
    show s.ended ++ [_] = new ++ [_]
    rw [ended]
  exact .bind (ended.mono fun _ _ leaves => .pure leaves)

theorem streamAssistantResponse_leaves (rounds : Nat) (traced : Traced (AtRest true new) w) :
    (streamAssistantResponse rounds).Ensures w (StreamLeaves new) := by
  refine .bind (isAborted_now ?_)
  have traced := (quiet_traced _).checked w .execution w.abortSignal rfl traced
  split
  · exact .pure traced
  · refine .bind ((collectAssistantResponse_leaves rounds traced).mono fun collected w leaves => ?_)
    split
    · exact .pure leaves
    · rename_i message addedDraft
      refine .bind (((quiet_traced _).wait w leaves).mono fun _ w traced => ?_)
      cases addedDraft with
      | true => exact endResponse_leaves traced
      | false =>
        exact .bind ((emitStart_traced traced.rest).mono fun _ w traced =>
          endResponse_leaves (traced.mono fun s showing => Exists.intro message showing))

end

end Loushang.Agent
