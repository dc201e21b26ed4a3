import Loushang.Agent.Stable

/-!
# Queued input

Where every queued message is: in its queue, in the hands of the loop, in the conversation, or
dropped by a loop that found itself aborted with the message in hand.
-/
namespace Loushang.Agent
open Loushang.Lib

/-- The text of a message that came from an origin. -/
def Message.textFrom? (origin : Origin) : Message → Option String
  | .user from? text => if from? = origin then some text else none
  | .assistant _ => none
  | .toolResult _ => none

def inputsFrom (origin : Origin) (messages : List Message) : List String :=
  messages.filterMap (Message.textFrom? origin)

def Action.queuedText? (origin : Origin) : Action → Option String
  | .queued to? text => if to? = origin then some text else none
  | _ => none

/-- What the loop has in hand when it finds itself aborted at the top of a turn. -/
def Action.dropped : Action → List Message
  | .checked (.turnTop _ pending) true => pending
  | _ => []

namespace World

def queue (w : World) : Origin → List String
  | .prompt => []
  | .mailbox => w.mailbox.messages
  | .steering => w.steering.messages
  | .followUp => w.followUp.messages

/-- Everything that was ever put into a queue, in order. -/
def everQueued (w : World) (origin : Origin) : List String := w.history.filterMap (Action.queuedText? origin)

def dropped (w : World) : List Message := w.history.flatMap Action.dropped

/-- Every queued message is in the conversation or still in its queue, once and in order. -/
def InputSettled (w : World) : Prop :=
  ∀ origin, origin ≠ .prompt → inputsFrom origin w.messages ++ w.queue origin = w.everQueued origin

/-- No loop found itself aborted at the top of a turn with messages in hand. -/
def KeepsInput (w : World) : Prop :=
  ∀ first pending, .checked (.turnTop first pending) true ∈ w.history → pending = []

end World

/-- Messages that were taken from queues. -/
def FromQueues (messages : List Message) : Prop :=
  ∀ message ∈ messages, ∃ origin text, origin ≠ Origin.prompt ∧ message = .user origin text

/-- Every queued message has one place, and nothing overtakes within its queue. -/
structure Flow (w : World) (pending : List Message) : Prop where
  counted : ∀ origin, origin ≠ .prompt →
    (inputsFrom origin w.messages).length + (inputsFrom origin pending).length + (w.queue origin).length +
      (inputsFrom origin w.dropped).length = (w.everQueued origin).length
  ordered : w.dropped = [] → ∀ origin, origin ≠ .prompt →
    inputsFrom origin w.messages ++ inputsFrom origin pending ++ w.queue origin = w.everQueued origin
  fromQueues : FromQueues w.dropped

section

variable {w w' : World} {pending : List Message}

theorem inputsFrom_append (origin : Origin) (front back : List Message) :
    inputsFrom origin (front ++ back) = inputsFrom origin front ++ inputsFrom origin back :=
  List.filterMap_append

theorem inputsFrom_tag (origin : Origin) (texts : List String) : inputsFrom origin (origin.tag texts) = texts := by
  unfold inputsFrom Origin.tag
  rw [List.filterMap_map]
  induction texts with
  | nil => rfl
  | cons text rest ih => rw [List.filterMap_cons_some (b := text) (by simp [Message.textFrom?]), ih]

theorem inputsFrom_tag_of_ne {origin other : Origin} (differ : other ≠ origin) (texts : List String) :
    inputsFrom origin (other.tag texts) = [] := by
  unfold inputsFrom Origin.tag
  rw [List.filterMap_map, List.filterMap_eq_nil_iff]
  intro text _
  simp [Message.textFrom?, differ]

theorem fromQueues_tag {origin : Origin} (queue : origin ≠ .prompt) (texts : List String) :
    FromQueues (origin.tag texts) := by
  intro message member
  obtain ⟨text, -, rfl⟩ := List.mem_map.mp member
  exact ⟨origin, text, queue, rfl⟩

theorem FromQueues.append {front back : List Message} (first : FromQueues front) (second : FromQueues back) :
    FromQueues (front ++ back) := by
  exact List.forall_mem_append.mpr ⟨first, second⟩

theorem World.dropped_log (w : World) (action : Action) : (w.log action).dropped = w.dropped ++ action.dropped := by
  simp [World.dropped, World.log]

theorem World.everQueued_log (w : World) (origin : Origin) (action : Action) :
    (w.log action).everQueued origin = w.everQueued origin ++ (action.queuedText? origin).toList := by
  unfold World.everQueued World.log
  rw [List.filterMap_append]
  cases found : action.queuedText? origin with
  | none => simp [found]
  | some text => simp [found]

/-- Only the conversation's inputs, the queues and the history's traffic count. -/
theorem Flow.same (flow : Flow w pending)
    (messages : ∀ origin, inputsFrom origin w'.messages = inputsFrom origin w.messages)
    (queues : ∀ origin, w'.queue origin = w.queue origin)
    (queued : ∀ origin, w'.everQueued origin = w.everQueued origin) (dropped : w'.dropped = w.dropped) :
    Flow w' pending := by
  refine ⟨fun origin isQueue => ?_, fun intact origin isQueue => ?_, ?_⟩
  · rw [messages, queues, queued, dropped]
    exact flow.counted origin isQueue
  · rw [messages, queues, queued]
    exact flow.ordered (dropped ▸ intact) origin isQueue
  · rw [dropped]
    exact flow.fromQueues

/-- An action that moves no input. -/
theorem Flow.log (flow : Flow w pending) (action : Action) (quiet : ∀ origin, action.queuedText? origin = none)
    (intact : action.dropped = []) : Flow (w.log action) pending :=
  flow.same (fun _ => rfl) (fun origin => by cases origin <;> rfl)
    (fun origin => by rw [World.everQueued_log, quiet]; exact List.append_nil _)
    (by rw [World.dropped_log, intact, List.append_nil])

/-- A message enters a queue. -/
theorem Flow.enqueue (flow : Flow w pending) (origin : Origin) (text : String)
    (same : w'.messages = w.messages) (history : w'.history = (w.log (.queued origin text)).history)
    (entered : w'.queue origin = w.queue origin ++ [text])
    (others : ∀ other, other ≠ origin → w'.queue other = w.queue other) : Flow w' pending := by
  have dropped : w'.dropped = w.dropped := by
    have logged : w'.dropped = (w.log (.queued origin text)).dropped := by
      unfold World.dropped
      rw [history]
    rw [logged, World.dropped_log]
    exact List.append_nil _
  have queued : ∀ other, w'.everQueued other =
      w.everQueued other ++ (if origin = other then [text] else []) := by
    intro other
    have logged : w'.everQueued other = (w.log (.queued origin text)).everQueued other := by
      unfold World.everQueued
      rw [history]
    rw [logged, World.everQueued_log]
    show w.everQueued other ++ (if origin = other then some text else none).toList = _
    split
    · rfl
    · rfl
  refine ⟨fun other isQueue => ?_, fun intact other isQueue => ?_, ?_⟩
  · have counted := flow.counted other isQueue
    rw [same, queued, dropped]
    by_cases here : origin = other
    · subst here
      rw [entered, if_pos rfl]
      simp only [List.length_append, List.length_singleton]
      omega
    · rw [others other (Ne.symm here), if_neg here, List.append_nil]
      exact counted
  · have ordered := flow.ordered (dropped ▸ intact) other isQueue
    rw [same, queued, ← ordered]
    by_cases here : origin = other
    · subst here
      rw [entered, if_pos rfl]
      simp only [List.append_assoc]
    · rw [others other (Ne.symm here), if_neg here, List.append_nil]
  · rw [dropped]
    exact flow.fromQueues

theorem Flow.happen (flow : Flow w pending) (happening : Happening) : Flow (w.happen happening) pending := by
  cases happening with
  | steer text =>
    refine flow.enqueue .steering text rfl rfl rfl fun other elsewhere => ?_
    cases other with
    | steering => exact absurd rfl elsewhere
    | prompt => rfl
    | mailbox => rfl
    | followUp => rfl
  | followUp text =>
    refine flow.enqueue .followUp text rfl rfl rfl fun other elsewhere => ?_
    cases other with
    | followUp => exact absurd rfl elsewhere
    | prompt => rfl
    | mailbox => rfl
    | steering => rfl
  | enqueueMailbox text =>
    refine flow.enqueue .mailbox text rfl rfl rfl fun other elsewhere => ?_
    cases other with
    | mailbox => exact absurd rfl elsewhere
    | prompt => rfl
    | steering => rfl
    | followUp => rfl
  | setSteeringMode mode =>
    exact flow.same (fun _ => rfl) (fun origin => by cases origin <;> rfl) (fun _ => rfl) rfl
  | setFollowUpMode mode =>
    exact flow.same (fun _ => rfl) (fun origin => by cases origin <;> rfl) (fun _ => rfl) rfl
  | abort =>
    exact (flow.log .aborted (fun _ => rfl) rfl).same (fun _ => rfl)
      (fun origin => by cases origin <;> rfl) (fun _ => rfl) rfl
  | toolUpdated index =>
    unfold World.happen
    dsimp only
    split
    · rename_i task _
      exact flow.log (.emitted (.toolExecutionUpdate task.call)) (fun _ => rfl) rfl
    · exact flow
  | toolFinished index outcome =>
    unfold World.happen
    dsimp only
    split
    · rename_i task _
      exact (flow.log (.completed task.call (w.executed outcome)) (fun _ => rfl) rfl).same (fun _ => rfl)
        (fun origin => by cases origin <;> rfl) (fun _ => rfl) rfl
    · exact flow
  | toolCancelled index =>
    unfold World.happen
    dsimp only
    split
    · rename_i task _
      split
      · exact (flow.log (.cancelled task.call) (fun _ => rfl) rfl).same (fun _ => rfl)
          (fun origin => by cases origin <;> rfl) (fun _ => rfl) rfl
      · exact flow
    · exact flow

theorem stable_flow (pending : List Message) : Stable fun w => Flow w pending where
  happen _ happening flow := flow.happen happening
  checked _ check aborted plain flow := by
    refine flow.log _ (fun _ => rfl) ?_
    cases check with
    | turnTop first held => cases plain
    | _ => rfl
  process w event plain flow := by
    have logged := flow.log (.emitted event) (fun _ => rfl) rfl
    unfold World.process
    dsimp only
    split
    · rename_i message
      refine logged.same (fun origin => ?_) (fun origin => by cases origin <;> rfl) (fun _ => rfl) rfl
      show inputsFrom origin (w.messages ++ [message]) = inputsFrom origin w.messages
      rw [inputsFrom_append]
      cases message with
      | user from? text => cases plain
      | assistant message => exact List.append_nil _
      | toolResult message => exact List.append_nil _
    · exact logged
  interrupted _ _ flow := flow.log _ (fun _ => rfl) rfl
  finalized _ call outcome message flow := flow.log _ (fun _ => rfl) rfl
  batch _ _ _ flow := flow.same (fun _ => rfl) (fun origin => by cases origin <;> rfl) (fun _ => rfl) rfl

/-! ## Input on its way -/

theorem Flow.process_messageEnd {message : Message} (flow : Flow w (message :: pending)) :
    Flow (w.process (.messageEnd message)) pending := by
  have logged := flow.log (.emitted (.messageEnd message)) (fun _ => rfl) rfl
  have split : ∀ origin, inputsFrom origin (message :: pending) =
      inputsFrom origin [message] ++ inputsFrom origin pending := by
    intro origin
    rw [← inputsFrom_append]
    rfl
  have entered : ∀ origin, inputsFrom origin (w.process (.messageEnd message)).messages =
      inputsFrom origin w.messages ++ inputsFrom origin [message] := fun origin => inputsFrom_append _ _ _
  have queues : ∀ origin, (w.process (.messageEnd message)).queue origin = w.queue origin := fun origin => by
    cases origin <;> rfl
  refine ⟨fun origin isQueue => ?_, fun intact origin isQueue => ?_, logged.fromQueues⟩
  · have counted := logged.counted origin isQueue
    rw [split] at counted
    rw [entered, queues, List.length_append]
    have counted : (inputsFrom origin w.messages).length +
        (inputsFrom origin [message] ++ inputsFrom origin pending).length + (w.queue origin).length +
        (inputsFrom origin (w.process (.messageEnd message)).dropped).length =
        ((w.process (.messageEnd message)).everQueued origin).length := by
      cases origin <;> exact counted
    rw [List.length_append] at counted
    omega
  · have ordered := logged.ordered intact origin isQueue
    rw [split] at ordered
    rw [entered, queues, List.append_assoc (inputsFrom origin w.messages)]
    cases origin <;> exact ordered

/-- A poll takes a queue's messages in hand, behind those in hand already. -/
theorem Flow.drain (flow : Flow w pending) (origin : Origin) (taken : List String)
    (same : w'.messages = w.messages) (history : w'.history = w.history)
    (parts : w.queue origin = taken ++ w'.queue origin)
    (others : ∀ other, other ≠ origin → w'.queue other = w.queue other) :
    Flow w' (pending ++ origin.tag taken) := by
  have dropped : w'.dropped = w.dropped := by
    unfold World.dropped
    rw [history]
  have queued : ∀ other, w'.everQueued other = w.everQueued other := by
    intro other
    unfold World.everQueued
    rw [history]
  refine ⟨fun other isQueue => ?_, fun intact other isQueue => ?_, dropped ▸ flow.fromQueues⟩
  · have counted := flow.counted other isQueue
    rw [same, queued, dropped, inputsFrom_append, List.length_append]
    by_cases here : origin = other
    · subst here
      rw [parts, List.length_append] at counted
      rw [inputsFrom_tag]
      omega
    · rw [inputsFrom_tag_of_ne here, others other (Ne.symm here)]
      exact counted
  · have ordered := flow.ordered (dropped ▸ intact) other isQueue
    rw [same, queued, inputsFrom_append, ← ordered]
    by_cases here : origin = other
    · subst here
      rw [parts, inputsFrom_tag]
      simp only [List.append_assoc]
    · rw [inputsFrom_tag_of_ne here, others other (Ne.symm here), List.append_nil]

theorem PendingMessageQueue.drain_parts (queue : PendingMessageQueue) :
    queue.messages = queue.drain.1 ++ queue.drain.2.messages := by
  unfold PendingMessageQueue.drain
  split
  · exact (List.append_nil _).symm
  · exact (List.take_append_drop 1 queue.messages).symm

theorem drainMailbox_flow (flow : Flow w pending) :
    drainMailbox.Ensures w fun taken w' => Flow w' (pending ++ taken) ∧ FromQueues taken := by
  refine .bind (.read (.bind (.modify (.pure ⟨?_, fromQueues_tag (by decide) _⟩))))
  refine flow.drain .mailbox _ rfl rfl w.mailbox.drain_parts fun other elsewhere => ?_
  cases other with
  | mailbox => exact absurd rfl elsewhere
  | _ => rfl

theorem drainSteering_flow (flow : Flow w pending) :
    drainSteering.Ensures w fun taken w' => Flow w' (pending ++ taken) ∧ FromQueues taken := by
  refine .bind (.read (.bind (.modify (.pure ⟨?_, fromQueues_tag (by decide) _⟩))))
  refine flow.drain .steering _ rfl rfl w.steering.drain_parts fun other elsewhere => ?_
  cases other with
  | steering => exact absurd rfl elsewhere
  | _ => rfl

theorem drainFollowUp_flow (flow : Flow w pending) :
    drainFollowUp.Ensures w fun taken w' => Flow w' (pending ++ taken) ∧ FromQueues taken := by
  refine .bind (.read (.bind (.modify (.pure ⟨?_, fromQueues_tag (by decide) _⟩))))
  refine flow.drain .followUp _ rfl rfl w.followUp.drain_parts fun other elsewhere => ?_
  cases other with
  | followUp => exact absurd rfl elsewhere
  | _ => rfl

theorem nothing_taken (flow : Flow w pending) :
    (pure [] : Run (List Message)).Ensures w fun taken w' => Flow w' (pending ++ taken) ∧ FromQueues taken :=
  .pure ⟨by rw [List.append_nil]; exact flow, nofun⟩

theorem getMailboxMessages_flow (config : LoopConfig) (flow : Flow w pending) :
    (getMailboxMessages config).Ensures w fun taken w' => Flow w' (pending ++ taken) ∧ FromQueues taken := by
  unfold getMailboxMessages
  split
  · exact drainMailbox_flow flow
  · exact nothing_taken flow

theorem getSteeringMessages_flow (config : LoopConfig) (flow : Flow w pending) :
    (getSteeringMessages config).Ensures w fun taken w' => Flow w' (pending ++ taken) ∧ FromQueues taken := by
  unfold getSteeringMessages
  split
  · refine .bind (.read ?_)
    split
    · exact .bind (.modify (nothing_taken
        (flow.same (fun _ => rfl) (fun origin => by cases origin <;> rfl) (fun _ => rfl) rfl)))
    · exact drainSteering_flow flow
  · exact nothing_taken flow

theorem getFollowUpMessages_flow (config : LoopConfig) (flow : Flow w pending) :
    (getFollowUpMessages config).Ensures w fun taken w' => Flow w' (pending ++ taken) ∧ FromQueues taken := by
  unfold getFollowUpMessages
  split
  · exact drainFollowUp_flow flow
  · exact nothing_taken flow

theorem pollImmediateInputs_flow (config : LoopConfig) (flow : Flow w []) :
    (pollImmediateInputs config).Ensures w fun taken w' => Flow w' taken ∧ FromQueues taken := by
  refine .bind ((getMailboxMessages_flow config flow).mono fun mailbox w' => ?_)
  rintro ⟨flow, first⟩
  refine .bind ((getSteeringMessages_flow config flow).mono fun steering w'' => ?_)
  rintro ⟨flow, second⟩
  exact .pure ⟨flow, first.append second⟩

theorem pollBeforeStop_flow (config : LoopConfig) (flow : Flow w []) :
    (pollBeforeStop config).Ensures w fun taken w' => Flow w' taken ∧ FromQueues taken := by
  refine .bind ((getMailboxMessages_flow config flow).mono fun mailbox w' => ?_)
  rintro ⟨flow, fromQueues⟩
  split
  · rename_i nothing
    rw [List.isEmpty_iff.mp nothing] at flow
    exact getFollowUpMessages_flow config flow
  · exact .pure ⟨flow, fromQueues⟩

theorem deliver_flow (flow : Flow w pending) : (deliver pending).Ensures w fun _ w' => Flow w' [] := by
  induction pending generalizing w with
  | nil => exact .pure flow
  | cons message rest ih =>
    refine .bind (((stable_flow _).emit rfl w flow).mono fun _ w' flow => ?_)
    refine .bind (.bind (.modify (.bind (((stable_flow rest).wait _ flow.process_messageEnd).mono
      fun _ w'' flow => .pure ?_))))
    exact ih flow

/-! ## Runs -/

/-- What a turn leaves in hand. -/
def TurnEnd.Flows (ended : TurnEnd) (w : World) : Prop :=
  match ended with
  | .proceed _ _ pending => Flow w pending ∧ FromQueues pending
  | _ => Flow w []

theorem emit_flow {event : AgentEvent} (plain : event.addsInput = false) (flow : Flow w pending) :
    (emit event).Ensures w fun _ w' => Flow w' pending := (stable_flow pending).emit plain w flow

theorem emitAbortedTurn_flow (newMessages : List Message) (flow : Flow w []) :
    (emitAbortedTurn newMessages).Ensures w TurnEnd.Flows := by
  refine .bind ((emit_flow rfl flow).mono fun _ _ flow => ?_)
  refine .bind ((emit_flow rfl flow).mono fun _ _ flow => ?_)
  refine .bind ((emit_flow rfl flow).mono fun _ _ flow => ?_)
  exact .bind ((emit_flow rfl flow).mono fun _ _ flow => .pure flow)

theorem abortBatch_flow (newMessages : List Message) (message : AssistantMessage) (flow : Flow w []) :
    (abortBatch newMessages message).Ensures w TurnEnd.Flows := by
  refine .bind (.read (.bind (((stable_flow []).emitAborted _ _ w flow).mono fun _ _ flow => ?_)))
  exact .bind ((emit_flow rfl flow).mono fun _ _ flow => emitAbortedTurn_flow _ flow)

theorem runToolCalls_flow (config : LoopConfig) (newMessages : List Message) (message : AssistantMessage)
    (flow : Flow w []) : (runToolCalls config newMessages message).Ensures w TurnEnd.Flows := by
  have stable := stable_flow []
  refine .bind (.modify (.bind ((stable.isAborted rfl _ (stable.batch w _ _ flow)).mono fun stopped _ flow => ?_)))
  split
  · exact abortBatch_flow _ _ flow
  · refine .bind ((stable.executeToolCalls config _ _ flow).mono fun executed _ flow => ?_)
    split
    · exact abortBatch_flow _ _ flow
    · refine .bind ((stable.isAborted rfl _ flow).mono fun stopped _ flow => ?_)
      split
      · exact abortBatch_flow _ _ flow
      · refine .bind (.read (.bind ((emit_flow rfl flow).mono fun _ _ flow => ?_)))
        split
        · exact .bind ((emit_flow rfl flow).mono fun _ _ flow => .pure flow)
        · exact .bind ((pollImmediateInputs_flow config flow).mono fun _ _ polled => .pure polled)

theorem afterResponse_flow (config : LoopConfig) (newMessages : List Message) (message : AssistantMessage)
    (flow : Flow w []) : (afterResponse config newMessages message).Ensures w TurnEnd.Flows := by
  unfold afterResponse
  split
  · refine .bind ((emit_flow rfl flow).mono fun _ _ flow => ?_)
    exact .bind ((emit_flow rfl flow).mono fun _ _ flow => .pure flow)
  · refine .bind (((stable_flow []).isAborted rfl w flow).mono fun stopped _ flow => ?_)
    split
    · exact emitAbortedTurn_flow _ flow
    · split
      · refine .bind ((emit_flow rfl flow).mono fun _ _ flow => ?_)
        exact .bind ((pollImmediateInputs_flow config flow).mono fun _ _ polled => .pure polled)
      · exact runToolCalls_flow config _ message flow

/-- The top of a turn: messages in hand are dropped by an aborted loop. -/
theorem isAborted_turnTop_flow (first : Bool) (flow : Flow w pending) (fromQueues : FromQueues pending) :
    (isAborted (.turnTop first pending)).Ensures w fun aborted w' =>
      if aborted then Flow w' [] else Flow w' pending := by
  refine .bind (.read (.bind (.modify (.pure ?_))))
  split
  · rename_i aborted
    have dropped : (w.log (.checked (.turnTop first pending) w.abortSignal)).dropped = w.dropped ++ pending := by
      rw [World.dropped_log, aborted]
      rfl
    have queued : ∀ origin, (w.log (.checked (.turnTop first pending) w.abortSignal)).everQueued origin =
        w.everQueued origin := fun origin => by
      rw [World.everQueued_log]
      exact List.append_nil _
    have queues : ∀ origin, (w.log (.checked (.turnTop first pending) w.abortSignal)).queue origin =
        w.queue origin := fun origin => by cases origin <;> rfl
    refine ⟨fun origin isQueue => ?_, fun intact origin isQueue => ?_, ?_⟩
    · have counted := flow.counted origin isQueue
      rw [dropped, queued, queues, inputsFrom_append, List.length_append]
      show (inputsFrom origin w.messages).length + 0 + (w.queue origin).length +
        ((inputsFrom origin w.dropped).length + (inputsFrom origin pending).length) = _
      omega
    · rw [dropped] at intact
      obtain ⟨intact, nothing⟩ := List.append_eq_nil_iff.mp intact
      have ordered := flow.ordered intact origin isQueue
      rw [nothing] at ordered
      rw [queued, queues]
      exact ordered
    · rw [dropped]
      exact flow.fromQueues.append fromQueues
  · rename_i running
    refine flow.log _ (fun _ => rfl) ?_
    cases signal : w.abortSignal with
    | false => rfl
    | true => exact absurd signal running

theorem takeTurn_flow (config : LoopConfig) (rounds : Nat) (newMessages : List Message) (flow : Flow w pending) :
    (takeTurn config rounds newMessages pending).Ensures w TurnEnd.Flows := by
  refine .bind ((deliver_flow flow).mono fun _ _ flow => ?_)
  refine .bind (((stable_flow []).isAborted rfl _ flow).mono fun stopped _ flow => ?_)
  split
  · exact emitAbortedTurn_flow _ flow
  · refine .bind (((stable_flow []).streamAssistantResponse rounds _ flow).mono fun streamed _ flow => ?_)
    split
    · exact emitAbortedTurn_flow _ flow
    · refine .bind (.read ?_)
      split
      · exact emitAbortedTurn_flow _ flow
      · exact .pure flow
    · exact afterResponse_flow config _ _ flow

theorem turn_flow (config : LoopConfig) (rounds : Nat) (first : Bool) (newMessages : List Message)
    (flow : Flow w pending) (fromQueues : FromQueues pending) :
    (turn config rounds first newMessages pending).Ensures w TurnEnd.Flows := by
  refine .bind ((isAborted_turnTop_flow first flow fromQueues).mono fun stopped w' flow => ?_)
  split
  · rename_i aborted
    rw [if_pos aborted] at flow
    exact emitAbortedTurn_flow _ flow
  · rename_i running
    rw [if_neg running] at flow
    split
    · exact takeTurn_flow config rounds newMessages flow
    · exact .bind ((emit_flow rfl flow).mono fun _ _ flow => takeTurn_flow config rounds newMessages flow)

theorem runLoop_flow (config : LoopConfig) (rounds : Nat) (first : Bool) (newMessages : List Message)
    (flow : Flow w pending) (fromQueues : FromQueues pending) :
    (runLoop config rounds first newMessages pending).Ensures w fun _ w' => Flow w' [] := by
  induction rounds generalizing w first newMessages pending with
  | zero => exact .stuck
  | succ rounds ih =>
    refine .bind ((turn_flow config rounds first newMessages flow fromQueues).mono fun ended w' flow => ?_)
    cases ended with
    | returned newMessages => exact .pure flow
    | failed failure => exact .pure flow
    | proceed newMessages hasMoreToolCalls pending' =>
      obtain ⟨flow, fromQueues⟩ := flow
      dsimp only
      split
      · exact ih false newMessages flow fromQueues
      · rename_i idle
        have nothing : pending' = [] := by
          rw [Bool.or_eq_true, not_or, Bool.not_eq_true', Bool.not_eq_false] at idle
          exact List.isEmpty_iff.mp idle.2
        rw [nothing] at flow
        refine .bind ((pollBeforeStop_flow config flow).mono fun polled w'' => ?_)
        rintro ⟨flow, fromQueues⟩
        split
        · rename_i none
          rw [List.isEmpty_iff.mp none] at flow
          exact .bind ((emit_flow rfl flow).mono fun _ _ flow => .pure flow)
        · exact ih false newMessages flow fromQueues

theorem runAgentLoop_flow (config : LoopConfig) (rounds : Nat) {prompts : List Message} (flow : Flow w prompts) :
    (runAgentLoop config rounds prompts).Ensures w fun _ w' => Flow w' [] := by
  refine .bind ((emit_flow rfl flow).mono fun _ _ flow => .bind ((emit_flow rfl flow).mono fun _ _ flow => ?_))
  refine .bind ((deliver_flow flow).mono fun _ _ flow => ?_)
  refine .bind ((pollImmediateInputs_flow config flow).mono fun pending _ polled => ?_)
  exact runLoop_flow config rounds true prompts polled.1 polled.2

theorem execute_flow (config : LoopConfig) (rounds : Nat) (invocation : Invocation) (flow : Flow w [])
    (prompted : ∀ messages, invocation = .prompt messages → ∃ texts, messages = Origin.prompt.tag texts) :
    (execute config rounds invocation).Ensures w fun _ w' => Flow w' [] := by
  cases invocation with
  | prompt messages =>
    obtain ⟨texts, rfl⟩ := prompted messages rfl
    refine runAgentLoop_flow config rounds ⟨fun origin isQueue => ?_, fun intact origin isQueue => ?_, flow.fromQueues⟩
    · rw [inputsFrom_tag_of_ne (Ne.symm isQueue)]
      exact flow.counted origin isQueue
    · rw [inputsFrom_tag_of_ne (Ne.symm isQueue)]
      exact flow.ordered intact origin isQueue
  | takeQueued queue =>
    have drained : queue.drain.Ensures w fun taken w' => Flow w' taken := by
      cases queue with
      | mailbox => exact (drainMailbox_flow flow).mono fun _ _ taken => taken.1
      | steering => exact (drainSteering_flow flow).mono fun _ _ taken => taken.1
      | followUp => exact (drainFollowUp_flow flow).mono fun _ _ taken => taken.1
    refine .bind (drained.mono fun taken w' flow => ?_)
    split
    · rename_i nothing
      rw [List.isEmpty_iff.mp nothing] at flow
      exact .pure flow
    · exact runAgentLoop_flow config rounds flow
  | continuation =>
    refine .bind (.read ?_)
    unfold runAgentLoopContinue
    split
    · exact .pure flow
    · exact .pure flow
    · exact runAgentLoop_flow config rounds flow

theorem handleRunFailure_flow (failure : Failure) (flow : Flow w []) :
    (handleRunFailure failure).Ensures w fun _ w' => Flow w' [] := by
  refine .bind (.read (.bind (.modify (emit_flow rfl (flow.same (fun origin => ?_)
    (fun origin => by cases origin <;> rfl) (fun _ => rfl) rfl)))))
  show inputsFrom origin (w.messages ++ [_]) = _
  rw [inputsFrom_append]
  exact List.append_nil _

theorem runWithLifecycle_flow (config : LoopConfig) (rounds : Nat) (invocation : Invocation) (flow : Flow w [])
    (prompted : ∀ messages, invocation = .prompt messages → ∃ texts, messages = Origin.prompt.tag texts) :
    (runWithLifecycle config rounds invocation).Ensures w fun _ w' => Flow w' [] := by
  let started : World := { w with
    abortSignal := false
    skipSteering := invocation = .takeQueued .steering }
  have begun : Flow started [] := flow.same (fun _ => rfl) (fun origin => by cases origin <;> rfl) (fun _ => rfl) rfl
  refine .bind (.modify (.bind (((stable_flow []).wait _ begun).mono fun arrival _ flow => ?_)))
  split
  · exact handleRunFailure_flow _ flow
  · refine .bind ((execute_flow config rounds invocation flow prompted).mono fun outcome _ flow => ?_)
    split
    · exact .pure flow
    · exact handleRunFailure_flow _ flow

theorem invoke_flow {input : AgentInput} (flow : Flow w []) (invoked : w.invoke input = some w') : Flow w' [] := by
  cases input with
  | call happening =>
    cases invoked
    exact flow.happen happening
  | prompt config texts rounds ticks =>
    obtain ⟨⟨value, after, rest⟩, ran, rfl⟩ := Option.map_eq_some_iff.mp invoked
    refine runWithLifecycle_flow config rounds _ flow (fun messages isPrompt => ?_) ticks value after rest ran
    cases isPrompt
    exact ⟨texts, rfl⟩
  | continueRun config rounds ticks =>
    unfold World.invoke at invoked
    dsimp only at invoked
    cases asked : w.continueRun config with
    | error message =>
      rw [asked] at invoked
      cases invoked
      exact flow
    | ok invocation =>
      rw [asked] at invoked
      obtain ⟨⟨value, after, rest⟩, ran, rfl⟩ := Option.map_eq_some_iff.mp invoked
      refine runWithLifecycle_flow config rounds invocation flow (fun messages isPrompt => ?_) ticks value after rest ran
      subst isPrompt
      unfold World.continueRun at asked
      split at asked
      · cases asked
      · split at asked
        · cases asked
        · split at asked
          · cases asked
          · split at asked
            · cases asked
            · split at asked
              · cases asked
              · cases asked
      · cases asked

theorem invokeAll_flow {inputs : List AgentInput} (flow : Flow w []) (invoked : w.invokeAll inputs = some w') :
    Flow w' [] := by
  induction inputs generalizing w with
  | nil =>
    cases invoked
    exact flow
  | cons input rest ih =>
    have invoked : (w.invoke input).bind (fun middle => middle.invokeAll rest) = some w' := invoked
    obtain ⟨middle, first, later⟩ := Option.bind_eq_some_iff.mp invoked
    exact ih (invoke_flow flow first) later

theorem flow_initial (messages : List Message) (steeringMode followUpMode : DrainMode) :
    Flow (World.initial messages steeringMode followUpMode) [] := by
  have restored : ∀ origin, origin ≠ .prompt →
      inputsFrom origin (World.initial messages steeringMode followUpMode).messages = [] := by
    intro origin isQueue
    refine List.filterMap_eq_nil_iff.mpr fun message member => ?_
    obtain ⟨earlier, -, rfl⟩ := List.mem_map.mp member
    cases earlier with
    | user from? text => exact if_neg (Ne.symm isQueue)
    | assistant message => rfl
    | toolResult message => rfl
  have queues : ∀ origin, (World.initial messages steeringMode followUpMode).queue origin = [] := fun origin => by
    cases origin <;> rfl
  refine ⟨fun origin isQueue => ?_, fun _ origin isQueue => ?_, nofun⟩
  · rw [restored origin isQueue, queues]
    rfl
  · rw [restored origin isQueue, queues]
    rfl

end

theorem World.keepsInput_iff {w : World} : w.KeepsInput ↔ w.dropped = [] := by
  unfold World.KeepsInput World.dropped
  rw [List.flatMap_eq_nil_iff]
  constructor
  · intro kept action member
    unfold Action.dropped
    split
    · exact kept _ _ member
    · rfl
  · intro none first pending member
    exact none _ member

/-- When all runs have ended, every queued message is in the conversation or still in its queue, once
and in order, exactly when no loop found itself aborted with messages in hand. -/
theorem queued_input_settled {messages : List Message} {steeringMode followUpMode : DrainMode}
    {inputs : List AgentInput} {w : World}
    (invoked : (World.initial messages steeringMode followUpMode).invokeAll inputs = some w) :
    w.InputSettled ↔ w.KeepsInput := by
  have flow := invokeAll_flow (flow_initial messages steeringMode followUpMode) invoked
  rw [World.keepsInput_iff]
  constructor
  · intro settled
    rw [List.eq_nil_iff_forall_not_mem]
    intro message member
    obtain ⟨origin, text, isQueue, rfl⟩ := flow.fromQueues message member
    have counted := flow.counted origin isQueue
    rw [← settled origin isQueue, List.length_append] at counted
    have empty : inputsFrom origin w.dropped = [] := by
      rw [← List.length_eq_zero_iff]
      have inHand : (inputsFrom origin ([] : List Message)).length = 0 := rfl
      omega
    have isDropped : text ∈ inputsFrom origin w.dropped :=
      List.mem_filterMap.mpr ⟨_, member, if_pos rfl⟩
    rw [empty] at isDropped
    cases isDropped
  · intro none origin isQueue
    have ordered := flow.ordered none origin isQueue
    have inHand : inputsFrom origin ([] : List Message) = [] := rfl
    rw [inHand, List.append_nil] at ordered
    exact ordered

def plainConfig : LoopConfig := ⟨[], false, false, false, true⟩

/-- A wait in which nothing happens. -/
def quiet : Tick := ⟨[], .nothing⟩

/-- A prompt that is answered; while its turn ends, a steering message is queued and the run is aborted. -/
def abortAfterSteering : List AgentInput :=
  [.prompt plainConfig ["hello"] 10
    (List.replicate 7 quiet ++
      [⟨[], .exhausted⟩, ⟨[], .response ⟨[.text "hi"], .stop, none⟩⟩] ++ List.replicate 4 quiet ++
      [⟨[.steer "and one more thing", .abort], .nothing⟩] ++ List.replicate 4 quiet)]

theorem queued_input_settled_abort :
    ∃ w, (World.initial [] .all .all).invokeAll abortAfterSteering = some w ∧ (w.InputSettled ↔ w.KeepsInput) := by
  obtain ⟨w, invoked⟩ := Option.isSome_iff_exists.mp
    (by decide +kernel : ((World.initial [] .all .all).invokeAll abortAfterSteering).isSome = true)
  exact ⟨w, invoked, queued_input_settled invoked⟩

/-- The steering message is taken out of its queue and never enters the conversation. -/
theorem abort_drops_steering :
    ∃ w, (World.initial [] .all .all).invokeAll abortAfterSteering = some w ∧ ¬ w.InputSettled := by
  have traffic : ((World.initial [] .all .all).invokeAll abortAfterSteering).map (fun w =>
      (inputsFrom .steering w.messages, w.queue .steering, w.everQueued .steering)) =
      some ([], [], ["and one more thing"]) := by
    decide +kernel
  obtain ⟨w, invoked, places⟩ := Option.map_eq_some_iff.mp traffic
  refine ⟨w, invoked, fun settled => ?_⟩
  have steering := settled .steering (by decide)
  simp only [Prod.mk.injEq] at places
  rw [places.1, places.2.1, places.2.2] at steering
  cases steering

end Loushang.Agent
