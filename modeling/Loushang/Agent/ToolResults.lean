import Loushang.Agent.ToolAccounts
import Loushang.Lib.Lists

/-!
# The results of one batch of tool calls

A result enters the books once, under its own id, from a finished task or from a call that needed
none.
-/
namespace Loushang.Agent
open Loushang.Lib

section

variable {w w' : World} {before : List ToolResultMessage} {new : List Message} {seen started : List String}
  {results : List ToolResultMessage}

/-! ## Results enter the books -/

theorem perm_cons_filter {A B : Type} [DecidableEq B] (key : A → B) {items : List A}
    (distinct : (items.map key).Nodup) {item : A} (member : item ∈ items) :
    items.Perm (item :: items.filter fun other => key other ≠ key item) := by
  induction items with
  | nil => cases member
  | cons first rest ih =>
    obtain ⟨new, others⟩ := List.nodup_cons.mp distinct
    rcases List.mem_cons.mp member with rfl | later
    · have all : rest.filter (fun other => key other ≠ key item) = rest := by
        refine List.filter_eq_self.mpr fun other listed => ?_
        rw [decide_eq_true_eq]
        intro same
        exact new (same ▸ List.mem_map_of_mem listed)
      rw [List.filter_cons_of_neg (by simp), all]
    · have differs : key first ≠ key item := fun same => new (same ▸ List.mem_map_of_mem later)
      rw [List.filter_cons_of_pos (by simpa using differs)]
      exact ((ih others later).cons first).trans (.swap _ _ _)

theorem completionIds_sublist (tasks : List ExecutionTask) :
    ((tasks.filterMap ExecutionTask.completion?).map fun completion => completion.1.id).Sublist
      (tasks.map fun task => task.call.id) := by
  induction tasks with
  | nil => exact .slnil
  | cons task rest ih =>
    cases made : task.completion? with
    | none =>
      rw [List.filterMap_cons_none made]
      exact ih.cons _
    | some completion =>
      rw [List.filterMap_cons_some made, List.map_cons, List.map_cons]
      have same : completion.1.id = task.call.id := by
        unfold ExecutionTask.completion? at made
        split at made
        · split at made
          · cases made
            rfl
          · cases made
        · cases made
        · cases made
      rw [same]
      exact ih.cons_cons _

theorem heldOf_append (tasks : List ExecutionTask) (message : ToolResultMessage) :
    heldOf tasks (results ++ [message]) =
      (heldOf tasks results).filter fun completion => completion.1.id ≠ message.toolCallId := by
  unfold heldOf resultIds
  rw [List.filter_filter]
  congr 1
  funext completion
  rw [List.map_append, Bool.eq_iff_iff]
  simp [List.mem_append, not_or, and_comm]

theorem resultIds_append (message : ToolResultMessage) :
    resultIds (results ++ [message]) = resultIds results ++ [message.toolCallId] := List.map_append

variable {tasks : List ExecutionTask}

/-- A held completion is one of a task. -/
theorem held_task {completion : ToolCall × ExecutedToolCallOutcome}
    (member : completion ∈ heldOf tasks results) :
    ∃ task ∈ tasks, task.call = completion.1 ∧ task.state = .finished completion.2 ∧
      completion.2.completedBeforeAbort = true ∧ completion.1.id ∉ resultIds results := by
  obtain ⟨listed, isFree⟩ := List.mem_filter.mp member
  obtain ⟨task, isTask, made⟩ := List.mem_filterMap.mp listed
  unfold ExecutionTask.completion? at made
  split at made
  · rename_i outcome isState
    split at made
    · rename_i flag
      cases made
      exact ⟨task, isTask, rfl, isState, flag, by simpa using isFree⟩
    · cases made
  · cases made
  · cases made

variable {message : ToolResultMessage}

theorem Accounts.addImmediate (accounts : Accounts before seen w) (isSeen : message.toolCallId ∈ seen)
    (isFree : message.toolCallId ∉ resultIds w.finalizedMessages)
    (noTask : ∀ task ∈ w.tasks, task.call.id ≠ message.toolCallId) :
    Accounts before seen { w with finalizedMessages := w.finalizedMessages ++ [message] } := by
  refine ⟨?_, ?_, accounts.real, accounts.taskIds, ?_, ?_, accounts.tasksSeen, ?_, accounts.late, accounts.cancelled⟩
  · show w.completions.Perm (w.finals.map Prod.fst ++ heldOf w.tasks (w.finalizedMessages ++ [message]))
    have all : heldOf w.tasks (w.finalizedMessages ++ [message]) = w.held := by
      rw [heldOf_append]
      refine List.filter_eq_self.mpr fun completion member => ?_
      obtain ⟨task, isTask, sameCall, -⟩ := held_task member
      rw [decide_eq_true_eq, ← sameCall]
      exact noTask task isTask
    rw [all]
    exact accounts.accounts
  · obtain ⟨made, isMade, inOrder⟩ := accounts.results
    exact ⟨made, isMade, inOrder.trans (List.sublist_append_left _ _)⟩
  · show (resultIds (w.finalizedMessages ++ [message])).Nodup
    rw [resultIds_append]
    refine nodup_snoc accounts.finalizedDistinct ?_
    intro listed
    exact isFree listed
  · show ∀ id ∈ resultIds (w.finalizedMessages ++ [message]), id ∈ seen
    rw [resultIds_append]
    exact forall_mem_snoc accounts.finalizedSeen isSeen
  · show ∀ task ∈ w.tasks, task.state = .executing → task.call.id ∉ resultIds (w.finalizedMessages ++ [message])
    rw [resultIds_append]
    intro task member executing listed
    rcases List.mem_append.mp listed with earlier | last
    · exact accounts.running task member executing earlier
    · exact noTask task member (List.mem_singleton.mp last)

variable {task : ExecutionTask} {executed : ExecutedToolCallOutcome}

theorem Accounts.addFinal (accounts : Accounts before seen w) (isTask : task ∈ w.tasks)
    (isState : task.state = .finished executed) (flag : executed.completedBeforeAbort = true)
    (isFree : task.call.id ∉ resultIds w.finalizedMessages) (sameId : message.toolCallId = task.call.id)
    (real : RealResult ((task.call, executed), message)) :
    Accounts before seen { w.log (.finalized task.call executed message) with
      finalizedMessages := w.finalizedMessages ++ [message] } := by
  have completion : task.completion? = some (task.call, executed) := by
    unfold ExecutionTask.completion?
    rw [isState]
    exact if_pos flag
  have isHeld : (task.call, executed) ∈ w.held :=
    List.mem_filter.mpr ⟨List.mem_filterMap.mpr ⟨task, isTask, completion⟩, by simpa using isFree⟩
  have heldIds : (w.held.map fun completion => completion.1.id).Nodup :=
    ((List.filter_sublist.map _).trans (completionIds_sublist w.tasks)).nodup accounts.taskIds
  refine ⟨?_, ?_, ?_, accounts.taskIds, ?_, ?_, accounts.tasksSeen, ?_, accounts.late, fun other member isCancelled =>
    (accounts.cancelled other member isCancelled).imp_left (List.mem_append_left _)⟩
  · show (w.log (.finalized task.call executed message)).completions.Perm
      ((w.log (.finalized task.call executed message)).finals.map Prod.fst ++
        heldOf w.tasks (w.finalizedMessages ++ [message]))
    rw [World.completions_log, World.finals_log, heldOf_append, sameId]
    show (w.completions ++ []).Perm
      ((w.finals ++ [((task.call, executed), message)]).map Prod.fst ++ w.held.filter fun (other : ToolCall × ExecutedToolCallOutcome) => other.1.id ≠ task.call.id)
    rw [List.append_nil, List.map_append, List.append_assoc]
    exact accounts.accounts.trans ((perm_cons_filter (fun completion => completion.1.id) heldIds isHeld).append_left _)
  · obtain ⟨made, isMade, inOrder⟩ := accounts.results
    refine ⟨made ++ [message], ?_, ?_⟩
    · show (w.log (.finalized task.call executed message)).finals.map Prod.snd = _
      rw [World.finals_log, List.map_append, isMade, List.append_assoc]
      rfl
    · show (made ++ [message]).Sublist (w.finalizedMessages ++ [message])
      exact inOrder.append (List.Sublist.refl _)
  · show ∀ final ∈ (w.log (.finalized task.call executed message)).finals, RealResult final
    rw [World.finals_log]
    exact forall_mem_snoc accounts.real real
  · show (resultIds (w.finalizedMessages ++ [message])).Nodup
    rw [resultIds_append, sameId]
    refine nodup_snoc accounts.finalizedDistinct ?_
    intro listed
    exact isFree listed
  · show ∀ id ∈ resultIds (w.finalizedMessages ++ [message]), id ∈ seen
    rw [resultIds_append, sameId]
    exact forall_mem_snoc accounts.finalizedSeen (accounts.tasksSeen task isTask)
  · show ∀ other ∈ w.tasks, other.state = .executing → other.call.id ∉ resultIds (w.finalizedMessages ++ [message])
    rw [resultIds_append, sameId]
    intro other member executing listed
    rcases List.mem_append.mp listed with earlier | last
    · exact accounts.running other member executing earlier
    · have same : other = task := List.inj_on_of_nodup_map accounts.taskIds member isTask (List.mem_singleton.mp last)
      rw [same, isState] at executing
      cases executing

/-! ## Finalized outcomes -/

theorem afterToolCall_final (config : LoopConfig) (executed : ExecutedToolCallOutcome) (w : World) :
    (afterToolCall config executed).Ensures w fun final _ => FinalOf executed final := by
  unfold afterToolCall
  split
  · refine .bind ((Coroutine.Ensures.any wait).mono fun arrival _ _ => ?_)
    split
    · exact .pure (.inr (.inl ⟨_, rfl⟩))
    · exact .pure (.inr (.inr (.inl rfl)))
    · exact .pure (.inr (.inr (.inr ⟨_, rfl⟩)))
    · exact .stuck
  · exact .pure (.inl rfl)

/-- A finished task is finalized. -/
theorem finalizeExecuted_batch (config : LoopConfig) (batch : Batch before new seen started results w)
    (isTask : task ∈ w.tasks) (isState : task.state = .finished executed)
    (flag : executed.completedBeforeAbort = true) (isFree : task.call.id ∉ resultIds results) :
    (finalizeExecutedToolCall config task.call executed).Ensures w fun _ w' =>
      ∃ message, message.toolCallId = task.call.id ∧
        Batch before new seen (started.filter (· ≠ task.call.id)) (results ++ [message]) w' ∧
          ∃ w'', Ahead w w'' ∧ w'.tasks = w''.tasks ∧ w'.abortSignal = w''.abortSignal := by
  have settled : task.state ≠ .executing := by
    rw [isState]
    exact nofun
  refine .bind (((((quiet_batch _ _ _ _ _).and (tame_ahead w).toQuiet).afterToolCall config executed w
    ⟨batch, ahead_refl w⟩).and (afterToolCall_final config executed w)).mono ?_)
  rintro final w1 ⟨⟨batch, first⟩, isFinal⟩
  have isTask := first.mem_of_settled isTask settled
  refine .bind ((emitOutcome_batch batch (batch.startedTasks task isTask isFree)).mono ?_)
  rintro message w2 ⟨accounts, second, isMessage, traced⟩
  have sameId : message.toolCallId = task.call.id := congrArg ToolResultMessage.toolCallId isMessage
  have isResults : w2.finalizedMessages = results := second.results.trans batch.isFinalized
  refine .bind (.modify (.modify ⟨message, sameId, ⟨?_, ?_, ?_, ?_⟩, w2, first.trans second, rfl, rfl⟩))
  · exact accounts.addFinal (second.mem_of_settled isTask settled) isState flag (isResults ▸ isFree) sameId
      ⟨final, isFinal, isMessage⟩
  · show w2.finalizedMessages ++ [message] = results ++ [message]
    rw [isResults]
  · intro other member open?
    obtain ⟨earlier, isEarlier, sameCall⟩ := second.call_of_mem member
    rw [resultIds_append, List.mem_append, not_or] at open?
    rw [sameCall] at open? ⊢
    refine List.mem_filter.mpr ⟨batch.startedTasks earlier isEarlier open?.1, ?_⟩
    rw [decide_eq_true_eq]
    intro same
    exact open?.2 (List.mem_singleton.mpr (same.trans sameId.symm))
  · exact (traced.log rfl).same rfl

/-- An outcome that needed no task enters the results. -/
theorem addImmediate_batch (accounts : Accounts before seen w) (isFinalized : w.finalizedMessages = results)
    (startedTasks : ∀ task ∈ w.tasks, task.call.id ∉ resultIds results → task.call.id ∈ started)
    (traced : Traced (InBatch new (started.filter (· ≠ message.toolCallId)) (results ++ [message])) w)
    (isSeen : message.toolCallId ∈ seen) (isFree : message.toolCallId ∉ resultIds results)
    (noTask : ∀ task ∈ w.tasks, task.call.id ≠ message.toolCallId) :
    (addFinalized message).Ensures w fun _ w' =>
      Batch before new seen (started.filter (· ≠ message.toolCallId)) (results ++ [message]) w' ∧ w'.tasks = w.tasks := by
  refine .modify ⟨⟨?_, ?_, ?_, traced.same rfl⟩, rfl⟩
  · exact accounts.addImmediate isSeen (isFinalized ▸ isFree) noTask
  · show w.finalizedMessages ++ [message] = results ++ [message]
    rw [isFinalized]
  · intro task member open?
    rw [resultIds_append, List.mem_append, not_or] at open?
    refine List.mem_filter.mpr ⟨startedTasks task member open?.1, ?_⟩
    rw [decide_eq_true_eq]
    exact noTask task member

/-! ## Preparation and tasks -/

def Preparation.call : Preparation → ToolCall
  | .prepared call _ => call
  | .immediate call _ _ => call

theorem blockOrPrepare_id (call : ToolCall) (arguments : String) (result : BeforeToolCallResult) :
    (blockOrPrepare call arguments result).call = call := by
  unfold blockOrPrepare
  split
  · rfl
  · rfl

theorem applyBeforeHook_id (tools : List Tool) (call : ToolCall) (arguments : String)
    (result : BeforeToolCallResult) : (applyBeforeHook tools call arguments result).call.id = call.id := by
  unfold applyBeforeHook
  dsimp only
  split
  · split
    · rfl
    · split
      · rfl
      · rw [blockOrPrepare_id]
  · rw [blockOrPrepare_id]

/-- Whatever the hook makes of a call, its id stays. -/
theorem prepareToolCall_id (config : LoopConfig) (call : ToolCall) (w : World) :
    (prepareToolCall config call).Ensures w fun preparation _ => preparation.call.id = call.id := by
  unfold prepareToolCall
  split
  · exact .pure rfl
  · split
    · exact .pure rfl
    · split
      · refine .bind ((Coroutine.Ensures.any wait).mono fun arrival _ _ => ?_)
        split
        · exact .pure rfl
        · exact .pure rfl
        · exact .pure (applyBeforeHook_id _ _ _ _)
        · exact .stuck
      · exact .pure rfl

variable {more : List ExecutionTask}

theorem heldOf_executing (executing : ∀ task ∈ more, task.state = .executing) :
    heldOf (tasks ++ more) results = heldOf tasks results := by
  unfold heldOf
  have none : more.filterMap ExecutionTask.completion? = [] := by
    refine List.filterMap_eq_nil_iff.mpr fun task member => ?_
    unfold ExecutionTask.completion?
    rw [executing task member]
  rw [List.filterMap_append, none, List.append_nil]

/-- New tasks for calls that were begun. -/
theorem Batch.addTasks (batch : Batch before new seen started results w)
    (executing : ∀ task ∈ more, task.state = .executing)
    (distinct : ((w.tasks ++ more).map fun task => task.call.id).Nodup)
    (isSeen : ∀ task ∈ more, task.call.id ∈ seen) (begun : ∀ task ∈ more, task.call.id ∈ started)
    (isFree : ∀ task ∈ more, task.call.id ∉ resultIds results) :
    Batch before new seen started results { w with tasks := w.tasks ++ more } := by
  have accounts := batch.accounts
  refine ⟨⟨?_, accounts.results, accounts.real, distinct, accounts.finalizedDistinct, accounts.finalizedSeen, ?_, ?_, ?_, ?_⟩,
    batch.isFinalized, ?_, batch.traced.same rfl⟩
  · show w.completions.Perm (w.finals.map Prod.fst ++ heldOf (w.tasks ++ more) w.finalizedMessages)
    rw [heldOf_executing executing]
    exact accounts.accounts
  · exact List.forall_mem_append.mpr ⟨accounts.tasksSeen, isSeen⟩
  · intro task member isExecuting
    rcases List.mem_append.mp member with earlier | isMore
    · exact accounts.running task earlier isExecuting
    · rw [batch.isFinalized]
      exact isFree task isMore
  · intro task member outcome isState
    rcases List.mem_append.mp member with earlier | isMore
    · exact accounts.late task earlier outcome isState
    · rw [executing task isMore] at isState
      cases isState
  · intro task member isCancelled
    rcases List.mem_append.mp member with earlier | isMore
    · exact accounts.cancelled task earlier isCancelled
    · rw [executing task isMore] at isCancelled
      cases isCancelled
  · intro task member open?
    rcases List.mem_append.mp member with earlier | isMore
    · exact batch.startedTasks task earlier open?
    · exact begun task isMore

/-- What a settled task gives when it is awaited. -/
theorem awaitExecutionTask_reads {inv : World → Prop} (quiet : Quiet inv) (index : Nat) (holds : inv w) :
    (awaitExecutionTask index).Ensures w fun outcome w' => inv w' ∧ w'.taskOutcome index = some outcome := by
  refine .bind (.read ?_)
  split
  · rename_i outcome settled
    exact .pure ⟨holds, settled⟩
  · refine .bind ((quiet.wait w holds).mono fun _ w' holds => .bind (.read ?_))
    split
    · rename_i outcome settled
      exact .pure ⟨holds, settled⟩
    · exact .stuck

/-- How a batch ends: the books are closed, and unless the run was aborted each call has its result. -/
structure BatchEnd (before : List ToolResultMessage) (new : List Message) (ids : List String)
    (outcome : Except Fault Bool) (w : World) : Prop where
  accounts : Accounts before ids w
  idle : w.Idle
  settled : w.held = []
  complete : ∀ terminate, outcome = .ok terminate → w.abortSignal = false →
    (resultIds w.finalizedMessages).Perm ids ∧ Traced (InBatch new [] w.finalizedMessages) w
  interrupted : ∀ fault, outcome = .error fault → ∃ call, .cancelled call ∈ w.history

/-- An aborted run leaves the rest of a batch undone. -/
theorem batchEnd_aborted {ids : List String} {terminate : Bool} (accounts : Accounts before seen w)
    (wider : ∀ id ∈ seen, id ∈ ids) (idle : w.Idle) (settled : w.held = []) (aborted : w.abortSignal = true) :
    BatchEnd before new ids (.ok terminate) w :=
  ⟨accounts.widen wider, idle, settled, fun _ _ running => absurd (running.symm.trans aborted) nofun, nofun⟩

/-- Books and trace, while the tasks and their completions stand still. -/
theorem Ahead.still (ahead : Ahead w w') (idle : w.Idle) (settled : w.held = []) :
    w'.tasks = w.tasks ∧ w'.Idle ∧ w'.held = [] :=
  ⟨ahead.tasks_of_idle idle, ahead.idle idle, (ahead.held_of_idle idle).trans settled⟩

theorem heldOf_append_nil (settled : heldOf tasks results = []) :
    heldOf tasks (results ++ [message]) = [] := by
  rw [heldOf_append, settled]
  rfl

theorem heldOf_concat (settled : heldOf tasks results = [])
    (made : task.completion? = none ∨ task.call.id ∈ resultIds results) :
    heldOf (tasks ++ [task]) results = [] := by
  unfold heldOf at settled ⊢
  rw [List.filterMap_append, List.filter_append, settled, List.nil_append, List.filter_eq_nil_iff]
  intro completion member
  obtain ⟨other, isOther, isMade⟩ := List.mem_filterMap.mp member
  rw [List.mem_singleton.mp isOther] at isMade
  rcases made with none | isFinal
  · rw [none] at isMade
    cases isMade
  · unfold ExecutionTask.completion? at isMade
    split at isMade
    · split at isMade
      · cases isMade
        simpa using isFinal
      · cases isMade
    · cases isMade
    · cases isMade

theorem World.taskOutcome_eq {index : Nat} (isTask : w.tasks[index]? = some task)
    {outcome : Except Fault ExecutedToolCallOutcome} (awaited : w.taskOutcome index = some outcome) :
    (∃ executed, outcome = .ok executed ∧ task.state = .finished executed) ∨
      outcome = .error .executionAborted ∧ task.state = .cancelled := by
  unfold World.taskOutcome at awaited
  rw [isTask] at awaited
  cases isState : task.state with
  | executing => simp [isState] at awaited
  | finished executed =>
    simp only [Option.map_some, isState, Option.some.injEq] at awaited
    exact .inl ⟨executed, awaited.symm, rfl⟩
  | cancelled =>
    simp only [Option.map_some, isState, Option.some.injEq] at awaited
    exact .inr ⟨awaited.symm, rfl⟩

theorem filter_self (id : String) : ([id].filter fun other => decide (other ≠ id)) = [] := by
  simp

end

end Loushang.Agent
