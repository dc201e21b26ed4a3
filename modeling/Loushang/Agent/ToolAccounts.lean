import Loushang.Agent.EventTrace
import Mathlib.Data.List.Nodup

/-!
# The books of one batch of tool calls

Which tools completed before an abort, which of them are finalized and which are still held, and
what others can do to the execution tasks meanwhile.
-/
namespace Loushang.Agent
open Loushang.Lib

def Action.completion? : Action → Option (ToolCall × ExecutedToolCallOutcome)
  | .completed call outcome => if outcome.completedBeforeAbort then some (call, outcome) else none
  | _ => none

/-- An outcome that was finalized, and the message made of it. -/
def Action.final? : Action → Option ((ToolCall × ExecutedToolCallOutcome) × ToolResultMessage)
  | .finalized call outcome message => some ((call, outcome), message)
  | _ => none

/-- What finalization can make of an outcome: with no after hook, a failing one, one that changes
nothing and one that does. -/
def FinalOf (executed : ExecutedToolCallOutcome) (final : AgentToolResult × Bool) : Prop :=
  final = (executed.result, executed.isError) ∨
    (∃ failure, final = (raisedToolResult failure
      (prepareHookProjection executed.result executed.isError).1.terminate, true)) ∨
    final = prepareHookProjection executed.result executed.isError ∨
    ∃ hook, final = applyAfterHook (prepareHookProjection executed.result executed.isError).1
      (prepareHookProjection executed.result executed.isError).2 hook

/-- The message of a finalized outcome is the real one. -/
def RealResult (final : (ToolCall × ExecutedToolCallOutcome) × ToolResultMessage) : Prop :=
  ∃ shown, FinalOf final.1.2 shown ∧ final.2 = outcomeMessage final.1.1 shown.1 shown.2

def ExecutionTask.completion? (task : ExecutionTask) : Option (ToolCall × ExecutedToolCallOutcome) :=
  match task.state with
  | .finished outcome => if outcome.completedBeforeAbort then some (task.call, outcome) else none
  | .executing => none
  | .cancelled => none

def resultIds (results : List ToolResultMessage) : List String := results.map ToolResultMessage.toolCallId

/-- The completions of tasks that have no result yet. -/
def heldOf (tasks : List ExecutionTask) (results : List ToolResultMessage) :
    List (ToolCall × ExecutedToolCallOutcome) :=
  (tasks.filterMap ExecutionTask.completion?).filter fun completion => completion.1.id ∉ resultIds results

namespace World

def completions (w : World) : List (ToolCall × ExecutedToolCallOutcome) := w.history.filterMap Action.completion?

def finals (w : World) : List ((ToolCall × ExecutedToolCallOutcome) × ToolResultMessage) :=
  w.history.filterMap Action.final?

def held (w : World) : List (ToolCall × ExecutedToolCallOutcome) := heldOf w.tasks w.finalizedMessages

/-- No task executes. -/
def Idle (w : World) : Prop := ∀ task ∈ w.tasks, task.state ≠ .executing

end World

/-- The books of a batch: `before` are the messages finalized earlier in the run, `seen` the ids of
the calls that were begun. -/
structure Accounts (before : List ToolResultMessage) (seen : List String) (w : World) : Prop where
  accounts : w.completions.Perm (w.finals.map Prod.fst ++ w.held)
  results : ∃ made, w.finals.map Prod.snd = before ++ made ∧ made.Sublist w.finalizedMessages
  real : ∀ final ∈ w.finals, RealResult final
  taskIds : (w.tasks.map fun task => task.call.id).Nodup
  finalizedDistinct : (resultIds w.finalizedMessages).Nodup
  finalizedSeen : ∀ id ∈ resultIds w.finalizedMessages, id ∈ seen
  tasksSeen : ∀ task ∈ w.tasks, task.call.id ∈ seen
  running : ∀ task ∈ w.tasks, task.state = .executing → task.call.id ∉ resultIds w.finalizedMessages
  late : ∀ task ∈ w.tasks, ∀ outcome, task.state = .finished outcome →
    outcome.completedBeforeAbort = false → w.abortSignal = true
  cancelled : ∀ task ∈ w.tasks, task.state = .cancelled →
    .cancelled task.call ∈ w.history ∧ w.abortSignal = true

/-- The trace within a batch: the tools that are open, and the results behind the new messages. -/
def InBatch (new : List Message) (started : List String) (results : List ToolResultMessage) (s : TraceState) :
    Prop :=
  s.turnOpen = true ∧ s.message = none ∧ (∀ id, id ∈ s.tools ↔ id ∈ started) ∧
    s.ended = new ++ results.map Message.toolResult

/-- A batch under way. -/
structure Batch (before : List ToolResultMessage) (new : List Message) (seen started : List String)
    (results : List ToolResultMessage) (w : World) : Prop where
  accounts : Accounts before seen w
  isFinalized : w.finalizedMessages = results
  startedTasks : ∀ task ∈ w.tasks, task.call.id ∉ resultIds results → task.call.id ∈ started
  traced : Traced (InBatch new started results) w

section

variable {w w' : World} {before : List ToolResultMessage} {new : List Message} {seen started : List String}
  {results : List ToolResultMessage}

/-! ## What others do to the tasks -/

variable {inv : World → Prop}

theorem Quiet.and {inv' : World → Prop} (quiet : Quiet inv) (also : Quiet inv') :
    Quiet fun w => inv w ∧ inv' w where
  happen w happening holds := ⟨quiet.happen w happening holds.1, also.happen w happening holds.2⟩
  checked w check aborted plain holds :=
    ⟨quiet.checked w check aborted plain holds.1, also.checked w check aborted plain holds.2⟩

/-- Every happening settles at most one executing task. -/
inductive Settles (w : World) : World → Prop
  | same (w' : World) (tasks : w'.tasks = w.tasks) (results : w'.finalizedMessages = w.finalizedMessages)
      (aborted : w.abortSignal = true → w'.abortSignal = true) (completions : w'.completions = w.completions)
      (finals : w'.finals = w.finals) (history : ∀ action ∈ w.history, action ∈ w'.history) : Settles w w'
  | finished (index : Nat) (task : ExecutionTask) (outcome : ExecutedToolCallOutcome)
      (isTask : w.tasks[index]? = some task) (executing : task.state = .executing)
      (flag : outcome.completedBeforeAbort = !w.abortSignal) :
      Settles w ((w.log (.completed task.call outcome)).settle index task (.finished outcome))
  | cancelled (index : Nat) (task : ExecutionTask) (isTask : w.tasks[index]? = some task)
      (executing : task.state = .executing) (aborted : w.abortSignal = true) :
      Settles w ((w.log (.cancelled task.call)).settle index task .cancelled)

variable {index : Nat} {task : ExecutionTask}

theorem World.executing?_eq_some :
    w.executing? index = some task ↔ w.tasks[index]? = some task ∧ task.state = .executing := by
  unfold World.executing?
  rw [Option.filter_eq_some_iff, decide_eq_true_eq]

theorem World.completions_log (w : World) (action : Action) :
    (w.log action).completions = w.completions ++ action.completion?.toList := by
  unfold World.completions World.log
  rw [List.filterMap_append]
  cases found : action.completion? with
  | none => simp [found]
  | some completion => simp [found]

theorem World.finals_log (w : World) (action : Action) :
    (w.log action).finals = w.finals ++ action.final?.toList := by
  unfold World.finals World.log
  rw [List.filterMap_append]
  cases found : action.final? with
  | none => simp [found]
  | some final => simp [found]

/-- An action that is neither a completion nor a final. -/
theorem settles_log {action : Action} (noCompletion : action.completion? = none) (noFinal : action.final? = none) :
    Settles w (w.log action) := by
  refine .same _ rfl rfl id ?_ ?_ fun other member => List.mem_append_left _ member
  · rw [World.completions_log, noCompletion]
    exact List.append_nil _
  · rw [World.finals_log, noFinal]
    exact List.append_nil _

theorem settles_process (w : World) (event : AgentEvent) : Settles w (w.process event) := by
  have history := w.history_process event
  have tasks : (w.process event).tasks = w.tasks := by
    unfold World.process
    split
    · rfl
    · rfl
  have results : (w.process event).finalizedMessages = w.finalizedMessages := by
    unfold World.process
    split
    · rfl
    · rfl
  have signal : (w.process event).abortSignal = w.abortSignal := by
    unfold World.process
    split
    · rfl
    · rfl
  refine .same _ tasks results (fun aborted => signal ▸ aborted) ?_ ?_ ?_
  · have same : (w.process event).completions = (w.log (.emitted event)).completions := by
      unfold World.completions
      rw [history]
    rw [same, World.completions_log]
    exact List.append_nil _
  · have same : (w.process event).finals = (w.log (.emitted event)).finals := by
      unfold World.finals
      rw [history]
    rw [same, World.finals_log]
    exact List.append_nil _
  · intro action member
    rw [history]
    exact List.mem_append_left _ member

theorem settles_happen (w : World) (happening : Happening) : Settles w (w.happen happening) := by
  have quiet : ∀ {w' : World} {action : Action}, action.completion? = none → action.final? = none →
      w'.tasks = w.tasks → w'.finalizedMessages = w.finalizedMessages →
      (w.abortSignal = true → w'.abortSignal = true) → w'.history = (w.log action).history → Settles w w' := by
    intro w' action noCompletion noFinal tasks results aborted history
    refine .same _ tasks results aborted ?_ ?_ ?_
    · have same : w'.completions = (w.log action).completions := by
        unfold World.completions
        rw [history]
      rw [same, World.completions_log, noCompletion]
      exact List.append_nil _
    · have same : w'.finals = (w.log action).finals := by
        unfold World.finals
        rw [history]
      rw [same, World.finals_log, noFinal]
      exact List.append_nil _
    · intro other member
      rw [history]
      exact List.mem_append_left _ member
  have idle : Settles w w := .same _ rfl rfl id rfl rfl fun _ member => member
  cases happening with
  | steer text => exact quiet rfl rfl rfl rfl id rfl
  | followUp text => exact quiet rfl rfl rfl rfl id rfl
  | enqueueMailbox text => exact quiet rfl rfl rfl rfl id rfl
  | setSteeringMode mode => exact .same _ rfl rfl id rfl rfl fun _ member => member
  | setFollowUpMode mode => exact .same _ rfl rfl id rfl rfl fun _ member => member
  | abort => exact quiet rfl rfl rfl rfl (fun _ => rfl) rfl
  | toolUpdated index =>
    unfold World.happen
    dsimp only
    split
    · exact settles_process w _
    · exact idle
  | toolFinished index outcome =>
    unfold World.happen
    dsimp only
    cases found : w.executing? index with
    | none => exact idle
    | some task =>
      obtain ⟨isTask, executing⟩ := World.executing?_eq_some.mp found
      refine .finished index task _ isTask executing ?_
      unfold World.executed
      split
      · rfl
      · rfl
  | toolCancelled index =>
    unfold World.happen
    dsimp only
    cases found : w.executing? index with
    | none => exact idle
    | some task =>
      obtain ⟨isTask, executing⟩ := World.executing?_eq_some.mp found
      dsimp only
      split
      · rename_i aborted
        exact .cancelled index task isTask executing aborted
      · exact idle

/-- A property that settling keeps is kept by all that is not a final. -/
theorem tame_of_settles (keeps : ∀ w w', Settles w w' → inv w → inv w') : Tame inv where
  happen w happening := keeps _ _ (settles_happen w happening)
  checked _ _ _ _ := keeps _ _ (settles_log rfl rfl)
  process w event _ := keeps _ _ (settles_process w event)
  interrupted _ _ := keeps _ _ (settles_log rfl rfl)

theorem filterMap_set_perm {A B : Type} (f : A → Option B) {items : List A} {item : A} (other : A)
    (isAt : items[index]? = some item) (nothing : f item = none) :
    ((items.set index other).filterMap f).Perm (items.filterMap f ++ (f other).toList) := by
  induction items generalizing index with
  | nil => cases isAt
  | cons first rest ih =>
    cases index with
    | zero =>
      cases isAt
      rw [List.set_cons_zero, List.filterMap_cons_none nothing]
      cases made : f other with
      | none =>
        rw [List.filterMap_cons_none made]
        exact .of_eq (List.append_nil _).symm
      | some value =>
        rw [List.filterMap_cons_some made]
        exact (List.perm_append_singleton value _).symm
    | succ index =>
      have later := ih (by simpa using isAt)
      rw [List.set_cons_succ]
      cases made : f first with
      | none =>
        rw [List.filterMap_cons_none made, List.filterMap_cons_none made]
        exact later
      | some value =>
        rw [List.filterMap_cons_some made, List.filterMap_cons_some made]
        exact later.cons value

variable {state : TaskState}

theorem settle_tasks {other : ExecutionTask} (member : other ∈ w.tasks.set index { task with state }) :
    other = { task with state } ∨ other ∈ w.tasks := (List.mem_or_eq_of_mem_set member).symm

theorem settle_taskIds (isTask : w.tasks[index]? = some task) :
    (w.tasks.set index { task with state }).map (fun task => task.call.id) =
      w.tasks.map fun task => task.call.id := by
  obtain ⟨inside, rfl⟩ := List.getElem?_eq_some_iff.mp isTask
  rw [List.map_set]
  have same : (w.tasks.map fun task => task.call.id)[index]? = some w.tasks[index].call.id := by
    rw [List.getElem?_map, isTask]
    rfl
  obtain ⟨inside', isId⟩ := List.getElem?_eq_some_iff.mp same
  show (w.tasks.map fun task => task.call.id).set index w.tasks[index].call.id = _
  rw [← isId, List.set_getElem_self]

theorem Accounts.settles (accounts : Accounts before seen w) (settles : Settles w w') : Accounts before seen w' := by
  cases settles with
  | same w' tasks results aborted completions finals history =>
    refine ⟨?_, ?_, ?_, ?_, ?_, ?_, ?_, ?_, ?_, ?_⟩
    · unfold World.held
      rw [completions, finals, tasks, results]
      exact accounts.accounts
    · rw [finals, results]
      exact accounts.results
    · rw [finals]
      exact accounts.real
    · rw [tasks]
      exact accounts.taskIds
    · rw [results]
      exact accounts.finalizedDistinct
    · rw [results]
      exact accounts.finalizedSeen
    · rw [tasks]
      exact accounts.tasksSeen
    · rw [tasks, results]
      exact accounts.running
    · rw [tasks]
      exact fun task member outcome isState late => aborted (accounts.late task member outcome isState late)
    · rw [tasks]
      exact fun task member isCancelled =>
        ⟨history _ (accounts.cancelled task member isCancelled).1,
          aborted (accounts.cancelled task member isCancelled).2⟩
  | finished index task outcome isTask executing flag =>
    have member := List.mem_of_getElem? isTask
    have isFree := accounts.running task member executing
    have noCompletion : task.completion? = none := by
      unfold ExecutionTask.completion?
      rw [executing]
    refine ⟨?_, ?_, ?_, ?_, accounts.finalizedDistinct, accounts.finalizedSeen, ?_, ?_, ?_, ?_⟩
    · show (w.log (.completed task.call outcome)).completions.Perm
        ((w.log (.completed task.call outcome)).finals.map Prod.fst ++
          heldOf (w.tasks.set index { task with state := .finished outcome }) w.finalizedMessages)
      rw [World.completions_log, World.finals_log]
      have noFinal : (Action.completed task.call outcome).final?.toList = [] := rfl
      rw [noFinal, List.append_nil]
      have grown : (heldOf (w.tasks.set index { task with state := .finished outcome }) w.finalizedMessages).Perm
          (w.held ++ (Action.completed task.call outcome).completion?.toList) := by
        unfold heldOf World.held
        refine (List.Perm.filter _ (filterMap_set_perm _ _ isTask noCompletion)).trans ?_
        rw [List.filter_append]
        refine .of_eq ?_
        unfold heldOf
        congr 1
        show List.filter _ (if outcome.completedBeforeAbort = true then some (task.call, outcome) else none).toList =
          (if outcome.completedBeforeAbort = true then some (task.call, outcome) else none).toList
        split
        · exact List.filter_cons_of_pos (by simpa using isFree)
        · rfl
      refine (accounts.accounts.append_right _).trans ?_
      rw [List.append_assoc]
      exact grown.symm.append_left _
    · show ∃ made, (w.log (.completed task.call outcome)).finals.map Prod.snd = before ++ made ∧ _
      rw [World.finals_log]
      show ∃ made, (w.finals ++ []).map Prod.snd = before ++ made ∧ made.Sublist w.finalizedMessages
      rw [List.append_nil]
      exact accounts.results
    · show ∀ final ∈ (w.log (.completed task.call outcome)).finals, RealResult final
      rw [World.finals_log]
      show ∀ final ∈ w.finals ++ [], RealResult final
      rw [List.append_nil]
      exact accounts.real
    · show ((w.tasks.set index _).map _).Nodup
      rw [settle_taskIds isTask]
      exact accounts.taskIds
    · intro other member
      rcases settle_tasks member with rfl | earlier
      · exact accounts.tasksSeen task (List.mem_of_getElem? isTask)
      · exact accounts.tasksSeen other earlier
    · intro other member stillExecutes
      rcases settle_tasks member with rfl | earlier
      · cases stillExecutes
      · exact accounts.running other earlier stillExecutes
    · intro other member outcome' isState late
      rcases settle_tasks member with rfl | earlier
      · cases isState
        show w.abortSignal = true
        rw [flag] at late
        simpa using late
      · exact accounts.late other earlier outcome' isState late
    · intro other member isCancelled
      rcases settle_tasks member with rfl | earlier
      · cases isCancelled
      · exact (accounts.cancelled other earlier isCancelled).imp_left (List.mem_append_left _)
  | cancelled index task isTask executing aborted =>
    have noCompletion : task.completion? = none := by
      unfold ExecutionTask.completion?
      rw [executing]
    refine ⟨?_, ?_, ?_, ?_, accounts.finalizedDistinct, accounts.finalizedSeen, ?_, ?_, ?_, ?_⟩
    · show (w.log (.cancelled task.call)).completions.Perm ((w.log (.cancelled task.call)).finals.map Prod.fst ++
        heldOf (w.tasks.set index { task with state := .cancelled }) w.finalizedMessages)
      rw [World.completions_log, World.finals_log]
      have noFinal : (Action.cancelled task.call).final?.toList = [] := rfl
      have none : (Action.cancelled task.call).completion?.toList = [] := rfl
      rw [noFinal, none, List.append_nil, List.append_nil]
      refine accounts.accounts.trans (List.Perm.append_left _ (List.Perm.symm ?_))
      unfold heldOf World.held heldOf
      refine (List.Perm.filter _ (filterMap_set_perm _ _ isTask noCompletion)).trans (.of_eq ?_)
      show List.filter _ (_ ++ []) = _
      rw [List.append_nil]
    · show ∃ made, (w.log (.cancelled task.call)).finals.map Prod.snd = before ++ made ∧ _
      rw [World.finals_log]
      show ∃ made, (w.finals ++ []).map Prod.snd = before ++ made ∧ made.Sublist w.finalizedMessages
      rw [List.append_nil]
      exact accounts.results
    · show ∀ final ∈ (w.log (.cancelled task.call)).finals, RealResult final
      rw [World.finals_log]
      show ∀ final ∈ w.finals ++ [], RealResult final
      rw [List.append_nil]
      exact accounts.real
    · show ((w.tasks.set index _).map _).Nodup
      rw [settle_taskIds isTask]
      exact accounts.taskIds
    · intro other member
      rcases settle_tasks member with rfl | earlier
      · exact accounts.tasksSeen task (List.mem_of_getElem? isTask)
      · exact accounts.tasksSeen other earlier
    · intro other member stillExecutes
      rcases settle_tasks member with rfl | earlier
      · cases stillExecutes
      · exact accounts.running other earlier stillExecutes
    · intro other member outcome' isState late
      rcases settle_tasks member with rfl | earlier
      · cases isState
      · exact accounts.late other earlier outcome' isState late
    · intro other member isCancelled
      rcases settle_tasks member with rfl | earlier
      · exact ⟨List.mem_append_right _ (List.mem_singleton.mpr rfl), aborted⟩
      · exact (accounts.cancelled other earlier isCancelled).imp_left (List.mem_append_left _)

theorem tame_accounts (before : List ToolResultMessage) (seen : List String) : Tame (Accounts before seen) :=
  tame_of_settles fun _ _ settles accounts => accounts.settles settles

/-- What a later world has of the tasks of an earlier one. -/
structure Ahead (w w' : World) : Prop where
  length : w'.tasks.length = w.tasks.length
  each : ∀ (index : Nat) task, w.tasks[index]? = some task →
    ∃ task', w'.tasks[index]? = some task' ∧ task'.call = task.call ∧
      (task.state ≠ .executing → task' = task)
  results : w'.finalizedMessages = w.finalizedMessages
  aborted : w.abortSignal = true → w'.abortSignal = true

theorem ahead_refl (w : World) : Ahead w w :=
  ⟨rfl, fun _ task isTask => ⟨task, isTask, rfl, fun _ => rfl⟩, rfl, id⟩

theorem Ahead.trans {w'' : World} (first : Ahead w w') (second : Ahead w' w'') : Ahead w w'' := by
  refine ⟨second.length.trans first.length, fun index task isTask => ?_, second.results.trans first.results,
    fun aborted => second.aborted (first.aborted aborted)⟩
  obtain ⟨task', isTask', sameCall, sameState⟩ := first.each index task isTask
  obtain ⟨task'', isTask'', sameCall', sameState'⟩ := second.each index task' isTask'
  refine ⟨task'', isTask'', sameCall'.trans sameCall, fun settled => ?_⟩
  have same := sameState settled
  subst same
  exact sameState' settled

theorem Settles.ahead (settles : Settles w w') : Ahead w w' := by
  have one : ∀ (index : Nat) task state, w.tasks[index]? = some task → task.state = .executing →
      ∀ (other : Nat) earlier, w.tasks[other]? = some earlier →
        ∃ later, (w.tasks.set index { task with state })[other]? = some later ∧ later.call = earlier.call ∧
          (earlier.state ≠ .executing → later = earlier) := by
    intro index task state isTask executing other earlier isEarlier
    by_cases here : index = other
    · subst here
      rw [isTask] at isEarlier
      cases isEarlier
      refine ⟨_, List.getElem?_set_self (List.getElem?_eq_some_iff.mp isTask).1, rfl, fun settled => ?_⟩
      exact absurd executing settled
    · exact ⟨earlier, by rw [List.getElem?_set_ne here]; exact isEarlier, rfl, fun _ => rfl⟩
  cases settles with
  | same w' tasks results aborted completions finals history =>
    exact ⟨by rw [tasks], fun index task isTask => ⟨task, by rw [tasks]; exact isTask, rfl, fun _ => rfl⟩,
      results, aborted⟩
  | finished index task outcome isTask executing flag =>
    exact ⟨List.length_set .., one index task _ isTask executing, rfl, id⟩
  | cancelled index task isTask executing aborted =>
    exact ⟨List.length_set .., one index task _ isTask executing, rfl, id⟩

theorem tame_ahead (w : World) : Tame (Ahead w) :=
  tame_of_settles fun _ _ settles ahead => ahead.trans settles.ahead

/-- Settled tasks stay as they are. -/
theorem Ahead.tasks_of_idle (ahead : Ahead w w') (idle : w.Idle) : w'.tasks = w.tasks := by
  refine List.ext_getElem? fun index => ?_
  cases isTask : w.tasks[index]? with
  | none =>
    rw [List.getElem?_eq_none_iff] at isTask ⊢
    rw [ahead.length]
    exact isTask
  | some task =>
    obtain ⟨task', isTask', -, same⟩ := ahead.each index task isTask
    rw [isTask', same (idle task (List.mem_of_getElem? isTask))]

theorem Ahead.idle (ahead : Ahead w w') (idle : w.Idle) : w'.Idle := by
  unfold World.Idle
  rw [ahead.tasks_of_idle idle]
  exact idle

theorem Ahead.held_of_idle (ahead : Ahead w w') (idle : w.Idle) : w'.held = w.held := by
  unfold World.held
  rw [ahead.tasks_of_idle idle, ahead.results]

theorem Ahead.mem_of_settled (ahead : Ahead w w') (member : task ∈ w.tasks)
    (settled : task.state ≠ .executing) : task ∈ w'.tasks := by
  obtain ⟨index, isTask⟩ := List.mem_iff_getElem?.mp member
  obtain ⟨task', isTask', -, same⟩ := ahead.each index task isTask
  rw [same settled] at isTask'
  exact List.mem_of_getElem? isTask'

theorem Ahead.call_of_mem (ahead : Ahead w w') {task' : ExecutionTask} (member : task' ∈ w'.tasks) :
    ∃ task ∈ w.tasks, task'.call = task.call := by
  obtain ⟨index, isTask⟩ := List.mem_iff_getElem?.mp member
  have inside := (List.getElem?_eq_some_iff.mp isTask).1
  rw [ahead.length] at inside
  obtain ⟨other, isOther, sameCall, -⟩ := ahead.each index _ (List.getElem?_eq_getElem inside)
  rw [isTask] at isOther
  cases isOther
  exact ⟨_, List.getElem_mem inside, sameCall⟩

/-- One new executing task behind settled ones. -/
theorem Ahead.tasks_of_append (ahead : Ahead w w') {tasks : List ExecutionTask}
    (isTasks : w.tasks = tasks ++ [task]) (settled : ∀ other ∈ tasks, other.state ≠ .executing) :
    ∃ task', w'.tasks = tasks ++ [task'] ∧ task'.call = task.call := by
  have isLast : w.tasks[tasks.length]? = some task := by
    rw [isTasks]
    exact List.getElem?_concat_length
  obtain ⟨task', isTask', sameCall, -⟩ := ahead.each _ task isLast
  refine ⟨task', List.ext_getElem? fun index => ?_, sameCall⟩
  rcases Nat.lt_trichotomy index tasks.length with early | rfl | late
  · have isOther : w.tasks[index]? = some tasks[index] := by
      rw [isTasks, List.getElem?_append_left early, List.getElem?_eq_getElem early]
    obtain ⟨other, isOther', -, same⟩ := ahead.each index _ isOther
    rw [isOther', same (settled _ (List.getElem_mem early)), List.getElem?_append_left early,
      List.getElem?_eq_getElem early]
  · rw [isTask', List.getElem?_concat_length]
  · have length := ahead.length
    rw [isTasks, List.length_append, List.length_singleton] at length
    rw [List.getElem?_eq_none (by omega), List.getElem?_eq_none (by
      rw [List.length_append, List.length_singleton]
      omega)]

/-! ## Events of a batch -/

theorem quiet_batch (before : List ToolResultMessage) (new : List Message) (seen started : List String)
    (results : List ToolResultMessage) : Quiet (Batch before new seen started results) := by
  have kept : ∀ {w w'}, Settles w w' → Traced (InBatch new started results) w' →
      Batch before new seen started results w → Batch before new seen started results w' := by
    intro w w' settles traced batch
    refine ⟨batch.accounts.settles settles, settles.ahead.results.trans batch.isFinalized, ?_, traced⟩
    intro task member open?
    obtain ⟨earlier, isEarlier, sameCall⟩ := settles.ahead.call_of_mem member
    rw [sameCall] at open? ⊢
    exact batch.startedTasks earlier isEarlier open?
  exact
    { happen := fun w happening batch =>
        kept (settles_happen w happening) ((quiet_traced _).happen w happening batch.traced) batch
      checked := fun w check aborted plain batch =>
        kept (settles_log rfl rfl) ((quiet_traced _).checked w check aborted plain batch.traced) batch }

/-- A look at the abort signal tells what it is. -/
theorem isAborted_reads (quiet : Quiet inv) {check : Check} (plain : check.holdsInput = false) (holds : inv w) :
    (isAborted check).Ensures w fun aborted w' => inv w' ∧ w'.abortSignal = aborted :=
  .bind (.read (.bind (.modify (.pure ⟨quiet.checked w check _ plain holds, rfl⟩))))

/-- A look at the abort signal, at the moment. -/
theorem isAborted_now {check : Check} {post : Bool → World → Prop}
    (holds : post w.abortSignal (w.log (.checked check w.abortSignal))) : (isAborted check).Ensures w post :=
  .bind (.read (.bind (.modify (.pure holds))))

theorem Accounts.widen {seen' : List String} (accounts : Accounts before seen w) (wider : ∀ id ∈ seen, id ∈ seen') :
    Accounts before seen' w :=
  { accounts with
    finalizedSeen := fun id member => wider id (accounts.finalizedSeen id member)
    tasksSeen := fun task member => wider _ (accounts.tasksSeen task member) }

variable {call : ToolCall}

/-- A call begins. -/
theorem emitStart_batch (batch : Batch before new seen started results w) (fresh : call.id ∉ started) :
    (emit (.toolExecutionStart call)).Ensures w fun _ w' =>
      Batch before new (call.id :: seen) (call.id :: started) results w' ∧ Ahead w w' := by
  have settles := settles_process w (.toolExecutionStart call)
  have begun : Batch before new (call.id :: seen) (call.id :: started) results
      (w.process (.toolExecutionStart call)) := by
    refine ⟨(batch.accounts.settles settles).widen fun id member => List.mem_cons_of_mem _ member,
      batch.isFinalized, fun task member open? => List.mem_cons_of_mem _ (batch.startedTasks task member open?), ?_⟩
    refine batch.traced.process fun s running ⟨turn, message, tools, ended⟩ => ?_
    have notOpen : call.id ∉ s.tools := fun member => fresh ((tools call.id).mp member)
    refine ⟨{ s with tools := call.id :: s.tools }, if_pos ⟨running, turn, notOpen⟩, running, turn, message, ?_, ended⟩
    intro id
    show id ∈ call.id :: s.tools ↔ id ∈ call.id :: started
    rw [List.mem_cons, List.mem_cons, tools]
  refine .bind (.modify (.bind ((((quiet_batch _ _ _ _ _).and (tame_ahead w).toQuiet).wait _
    ⟨begun, settles.ahead⟩).mono fun _ w' kept => .pure kept)))

variable {result : AgentToolResult} {isError : Bool}

/-- The outcome of a call that was begun. -/
theorem emitOutcome_traced (traced : Traced (InBatch new started results) w) (begun : call.id ∈ started) :
    (emitToolCallOutcome call result isError).Ensures w fun message w' => message = outcomeMessage call result isError ∧
      Traced (InBatch new (started.filter (· ≠ call.id)) (results ++ [message])) w' := by
  let message := outcomeMessage call result isError
  let closed (s : TraceState) : Prop :=
    s.turnOpen = true ∧ (∀ id, id ∈ s.tools ↔ id ∈ started.filter (· ≠ call.id)) ∧
      s.ended = new ++ results.map Message.toolResult
  refine .bind ((traced.emit (fun s => s.message = none ∧ closed s) ?_).mono fun _ _ traced => ?_)
  · intro s running ⟨turn, noMessage, tools, ended⟩
    refine ⟨{ s with tools := s.tools.filter (· ≠ call.id) }, if_pos ⟨running, (tools _).mpr begun⟩, running, noMessage,
      turn, fun id => ?_, ended⟩
    show id ∈ s.tools.filter (· ≠ call.id) ↔ id ∈ started.filter (· ≠ call.id)
    rw [List.mem_filter, List.mem_filter, tools]
  refine .bind ((traced.emit (fun s => s.message = some (.toolResult message) ∧ closed s) ?_).mono
    fun _ _ traced => ?_)
  · intro s running ⟨noMessage, turn, rest⟩
    exact ⟨{ s with message := some (.toolResult message) }, if_pos ⟨running, turn, noMessage⟩, running, rfl, turn, rest⟩
  refine .bind ((traced.emit (InBatch new (started.filter (· ≠ call.id)) (results ++ [message])) ?_).mono
    fun _ _ traced => .pure ⟨rfl, traced⟩)
  intro s running ⟨isMessage, turn, tools, ended⟩
  have fits : s.message.any (Message.toolResult message).continues = true := by
    rw [isMessage]
    show decide _ = true
    exact decide_eq_true rfl
  refine ⟨{ s with message := none, ended := s.ended ++ [.toolResult message] }, if_pos ⟨running, fits⟩, running, turn,
    rfl, tools, ?_⟩
  show s.ended ++ [_] = _
  rw [ended, List.map_append, List.append_assoc]
  rfl

theorem emitOutcome_batch (batch : Batch before new seen started results w) (begun : call.id ∈ started) :
    (emitToolCallOutcome call result isError).Ensures w fun message w' =>
      Accounts before seen w' ∧ Ahead w w' ∧ message = outcomeMessage call result isError ∧
        Traced (InBatch new (started.filter (· ≠ call.id)) (results ++ [message])) w' :=
  ((tame_accounts before seen).emitToolCallOutcome _ _ _ w batch.accounts).and
    (((tame_ahead w).emitToolCallOutcome _ _ _ w (ahead_refl w)).and (emitOutcome_traced batch.traced begun))

end

end Loushang.Agent
