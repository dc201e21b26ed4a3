import Loushang.Agent.AgentLoop

/-!
# What a run keeps

A property that no single step of a run breaks is kept by every part of it. Two kinds of steps are
set apart: a user message enters the conversation, and the loop looks at the abort signal with
pending messages in hand.
-/
namespace Loushang.Agent
open Loushang.Lib

def AgentEvent.addsInput : AgentEvent → Bool
  | .messageEnd (.user _ _) => true
  | _ => false

def Check.holdsInput : Check → Bool
  | .turnTop _ _ => true
  | _ => false

/-- A property that neither the others nor a look at the abort signal break. -/
structure Quiet (inv : World → Prop) : Prop where
  happen : ∀ w happening, inv w → inv (w.happen happening)
  checked : ∀ w check aborted, check.holdsInput = false → inv w → inv (w.log (.checked check aborted))

/-- A property that events and failed waits keep as well. -/
structure Tame (inv : World → Prop) : Prop extends Quiet inv where
  process : ∀ w event, event.addsInput = false → inv w → inv (w.process event)
  interrupted : ∀ w addedDraft, inv w → inv (w.log (.interrupted addedDraft))

/-- A property that every step keeps but those that move input. -/
structure Stable (inv : World → Prop) : Prop extends Tame inv where
  finalized : ∀ w call outcome message, inv w → inv (w.log (.finalized call outcome message))
  batch : ∀ w tasks finalizedMessages, inv w → inv { w with tasks, finalizedMessages }

section

variable {inv : World → Prop} (quiet : Quiet inv)

include quiet

theorem Quiet.meanwhile (happenings : List Happening) :
    ∀ w, inv w → inv (happenings.foldl World.happen w) := by
  induction happenings with
  | nil => exact fun _ holds => holds
  | cons happening rest ih => exact fun w holds => ih _ (quiet.happen w happening holds)

theorem Quiet.wait : wait.Keeps inv :=
  .bind .input fun tick => .bind (.modify (quiet.meanwhile tick.meanwhile)) fun _ => .pure

theorem Quiet.isAborted {check : Check} (plain : check.holdsInput = false) : (isAborted check).Keeps inv :=
  .bind .read fun aborted => .bind (.modify fun w holds => quiet.checked w check aborted plain holds) fun _ => .pure

theorem Quiet.prepareToolCall (config : LoopConfig) (call : ToolCall) :
    (prepareToolCall config call).Keeps inv := by
  unfold Agent.prepareToolCall
  split
  · exact .pure
  · split
    · exact .pure
    · split
      · refine .bind quiet.wait fun arrival => ?_
        split
        · exact .pure
        · exact .pure
        · exact .pure
        · exact .stuck
      · exact .pure

theorem Quiet.afterToolCall (config : LoopConfig) (executed : ExecutedToolCallOutcome) :
    (afterToolCall config executed).Keeps inv := by
  unfold Agent.afterToolCall
  split
  · refine .bind quiet.wait fun arrival => ?_
    split
    · exact .pure
    · exact .pure
    · exact .pure
    · exact .stuck
  · exact .pure

theorem Quiet.awaitExecutionTask (index : Nat) : (awaitExecutionTask index).Keeps inv := by
  refine .bind .read fun settled => ?_
  split
  · exact .pure
  · refine .bind quiet.wait fun _ => .bind .read fun settled => ?_
    split
    · exact .pure
    · exact .stuck

end

section

variable {inv : World → Prop} (tame : Tame inv)

include tame

theorem Tame.emit {event : AgentEvent} (plain : event.addsInput = false) : (emit event).Keeps inv :=
  .bind (.modify fun w holds => tame.process w event plain holds) fun _ => .bind tame.wait fun _ => .pure

theorem Tame.emitToolCallOutcome (call : ToolCall) (result : AgentToolResult) (isError : Bool) :
    (emitToolCallOutcome call result isError).Keeps inv :=
  .bind (tame.emit rfl) fun _ => .bind (tame.emit rfl) fun _ => .bind (tame.emit rfl) fun _ => .pure

theorem Tame.emitAborted (finalizedIds : List String) (calls : List ToolCall) :
    (emitAborted finalizedIds calls).Keeps inv := by
  induction calls with
  | nil => exact .pure
  | cons call rest ih =>
    unfold Agent.emitAborted
    split
    · exact ih
    · exact .bind (tame.emitToolCallOutcome _ _ _) fun _ => .bind ih fun _ => .pure

theorem Tame.emitAbortedTurn (newMessages : List Message) : (emitAbortedTurn newMessages).Keeps inv :=
  .bind (tame.emit rfl) fun _ => .bind (tame.emit rfl) fun _ => .bind (tame.emit rfl) fun _ =>
    .bind (tame.emit rfl) fun _ => .pure

theorem Tame.waitInExecution (addedDraft : Bool) : (waitInExecution addedDraft).Keeps inv := by
  have interrupted : ∀ {fault : Fault}, (do
      Coroutine.modify fun w => w.log (.interrupted addedDraft)
      pure (.error fault) : Run (Except Fault Arrival)).Keeps inv := fun {_} =>
    .bind (.modify fun w holds => tame.interrupted w addedDraft holds) fun _ => .pure
  refine .bind tame.wait fun arrival => ?_
  split
  · exact interrupted
  · refine .bind .read fun aborted => ?_
    split
    · exact interrupted
    · exact .stuck
  · exact .pure

theorem Tame.emitInExecution {event : AgentEvent} (plain : event.addsInput = false) (addedDraft : Bool) :
    (emitInExecution event addedDraft).Keeps inv :=
  .bind (.modify fun w holds => tame.process w event plain holds) fun _ =>
    .bind (tame.waitInExecution addedDraft) fun _ => .pure

theorem Tame.awaitResult (addedDraft : Bool) : (awaitResult addedDraft).Keeps inv := by
  refine .bind (tame.waitInExecution _) fun arrived => ?_
  split
  · exact .pure
  · exact .pure
  · exact .stuck

theorem Tame.collectEvents (rounds : Nat) (addedDraft : Bool) : (collectEvents rounds addedDraft).Keeps inv := by
  induction rounds generalizing addedDraft with
  | zero => exact .stuck
  | succ rounds ih =>
    refine .bind (tame.waitInExecution _) fun arrived => ?_
    split
    · exact .pure
    · exact tame.awaitResult addedDraft
    · refine .bind (tame.isAborted rfl) fun stopped => ?_
      split
      · exact .pure
      · split
        · refine .bind (tame.emitInExecution rfl _) fun emitted => ?_
          split
          · exact .pure
          · exact ih true
        · refine .bind (tame.emitInExecution rfl _) fun emitted => ?_
          split
          · exact .pure
          · exact ih addedDraft
        · exact tame.awaitResult addedDraft
        · exact ih addedDraft
    · exact .stuck

theorem Tame.collectAssistantResponse (rounds : Nat) : (collectAssistantResponse rounds).Keeps inv := by
  refine .bind (tame.waitInExecution _) fun arrived => ?_
  split
  · exact .pure
  · refine .bind (tame.isAborted rfl) fun stopped => ?_
    split
    · exact .pure
    · refine .bind (tame.waitInExecution _) fun arrived => ?_
      split
      · exact .pure
      · refine .bind (tame.collectEvents rounds false) fun collected =>
          .bind (tame.waitInExecution _) fun arrived => ?_
        split
        · exact .pure
        · exact .pure

theorem Tame.streamAssistantResponse (rounds : Nat) : (streamAssistantResponse rounds).Keeps inv := by
  refine .bind (tame.isAborted rfl) fun stopped => ?_
  split
  · exact .pure
  · refine .bind (tame.collectAssistantResponse rounds) fun collected => ?_
    split
    · exact .pure
    · refine .bind tame.wait fun _ => ?_
      have ended : ∀ message, (endResponse message).Keeps inv := fun _ => .bind (tame.emit rfl) fun _ => .pure
      split
      · exact ended _
      · exact .bind (tame.emit rfl) fun _ => ended _

end

section

variable {inv : World → Prop} (stable : Stable inv)

include stable

theorem Stable.addFinalized (message : ToolResultMessage) : (addFinalized message).Keeps inv :=
  .modify fun w holds => stable.batch w w.tasks _ holds

theorem Stable.finalizeExecutedToolCall (config : LoopConfig) (call : ToolCall)
    (executed : ExecutedToolCallOutcome) : (finalizeExecutedToolCall config call executed).Keeps inv := by
  exact .bind (stable.afterToolCall config executed) fun final => .bind (stable.emitToolCallOutcome _ _ _) fun message =>
    .bind (.modify fun w holds => stable.finalized w call executed message holds) fun _ =>
      stable.addFinalized message

theorem Stable.createExecutionTask (call : ToolCall) (arguments : String) :
    (createExecutionTask call arguments).Keeps inv :=
  .bind .read fun _ => .bind (.modify fun w holds => stable.batch w _ w.finalizedMessages holds) fun _ => .pure

theorem Stable.executeSequential (config : LoopConfig) (calls : List ToolCall) :
    (executeSequential config calls).Keeps inv := by
  induction calls with
  | nil => exact .bind .read fun _ => .pure
  | cons call rest ih =>
    refine .bind (stable.isAborted rfl) fun stopped => ?_
    split
    · exact .pure
    · refine .bind (stable.emit rfl) fun _ => .bind (stable.prepareToolCall config call) fun preparation =>
        .bind (stable.isAborted rfl) fun stopped => ?_
      split
      · exact .pure
      · split
        · exact .bind (stable.emitToolCallOutcome _ _ _) fun message =>
            .bind (stable.addFinalized message) fun _ => ih
        · refine .bind (stable.createExecutionTask _ _) fun index =>
            .bind (stable.awaitExecutionTask index) fun awaited => ?_
          split
          · exact .pure
          · refine .bind (stable.isAborted rfl) fun stopped => ?_
            split
            · exact .pure
            · exact .bind (stable.finalizeExecutedToolCall config _ _) fun _ => ih

theorem Stable.prepareParallel (config : LoopConfig) (calls : List ToolCall) :
    (prepareParallel config calls).Keeps inv := by
  induction calls with
  | nil => exact .pure
  | cons call rest ih =>
    refine .bind (stable.isAborted rfl) fun stopped => ?_
    split
    · exact .pure
    · refine .bind (stable.emit rfl) fun _ => .bind (stable.prepareToolCall config call) fun preparation =>
        .bind (stable.isAborted rfl) fun stopped => ?_
      split
      · exact .pure
      · split
        · exact .bind (stable.emitToolCallOutcome _ _ _) fun message =>
            .bind (stable.addFinalized message) fun _ => ih
        · exact .bind ih fun _ => .pure

theorem Stable.finalizeDrained (config : LoopConfig) (tasks : List ExecutionTask) :
    (finalizeDrained config tasks).Keeps inv := by
  induction tasks with
  | nil => exact .pure
  | cons task rest ih =>
    refine .bind .read fun finalized => ?_
    split
    · exact ih
    · split
      · refine .bind (stable.isAborted rfl) fun stopped => ?_
        split
        · exact ih
        · exact .bind (stable.finalizeExecutedToolCall config _ _) fun _ => ih
      · exact ih
      · exact ih

theorem Stable.finalizeCompletedToolTasks (config : LoopConfig) :
    (finalizeCompletedToolTasks config).Keeps inv := by
  refine .bind stable.wait fun _ => .bind .read fun tasks => ?_
  split
  · exact .stuck
  · exact stable.finalizeDrained config tasks

theorem Stable.awaitParallel (config : LoopConfig) (running : List (Nat × ToolCall)) :
    (awaitParallel config running).Keeps inv := by
  induction running with
  | nil => exact .bind .read fun _ => .pure
  | cons started rest ih =>
    refine .bind (stable.awaitExecutionTask started.1) fun awaited => ?_
    split
    · exact .bind (stable.finalizeCompletedToolTasks config) fun _ => .pure
    · refine .bind (stable.isAborted rfl) fun stopped => ?_
      split
      · exact .bind (stable.finalizeCompletedToolTasks config) fun _ => .pure
      · exact .bind (stable.finalizeExecutedToolCall config _ _) fun _ => ih

theorem Stable.startParallel (runnable : List (ToolCall × String)) : (startParallel runnable).Keeps inv := by
  induction runnable with
  | nil => exact .pure
  | cons first rest ih => exact .bind (stable.createExecutionTask _ _) fun _ => .bind ih fun _ => .pure

theorem Stable.executeToolCalls (config : LoopConfig) (calls : List ToolCall) :
    (executeToolCalls config calls).Keeps inv := by
  refine .bind (stable.isAborted rfl) fun stopped => ?_
  split
  · exact .pure
  · split
    · exact stable.executeSequential config calls
    · refine .bind (stable.prepareParallel config calls) fun prepared => ?_
      split
      · exact .pure
      · exact .bind (stable.startParallel _) fun running => stable.awaitParallel config running

end

end Loushang.Agent
