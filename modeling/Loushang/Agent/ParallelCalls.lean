import Loushang.Agent.ToolResults

/-!
# Tool calls in parallel

`_execute_tool_calls_parallel` prepares all calls, starts their tasks and awaits them in order; a
stop half-way drains the tasks that completed.
-/
namespace Loushang.Agent
open Loushang.Lib

section

variable {w w' : World} {before : List ToolResultMessage} {new : List Message} {seen started : List String}
  {results : List ToolResultMessage}

def runnableIds (runnable : List (ToolCall × String)) : List String := runnable.map fun prepared => prepared.1.id

/-- What the first loop leaves: each call has its result or is runnable. -/
structure Prepared (before : List ToolResultMessage) (new : List Message) (ids started : List String)
    (runnable : List (ToolCall × String)) (w : World) : Prop where
  batch : ∃ seen open? results, Batch before new seen open? results w ∧ (∀ id ∈ seen, id ∈ ids) ∧
    (∀ id ∈ open?, id ∈ seen) ∧ (resultIds results ++ open?).Perm ids ∧
      open?.Perm (started ++ runnableIds runnable)
  noTasks : w.tasks = []

theorem tame_noTasks : Tame fun w => w.tasks = [] :=
  tame_of_settles fun w _ settles noTasks => by
    refine (settles.ahead.tasks_of_idle fun task member => ?_).trans noTasks
    rw [noTasks] at member
    cases member

variable {calls : List ToolCall} {ids : List String}

theorem prepareParallel_ends (config : LoopConfig)
    (parts : (resultIds results ++ started ++ calls.map ToolCall.id).Perm ids) (distinct : ids.Nodup)
    (batch : Batch before new seen started results w)
    (isSeen : ∀ id ∈ seen, id ∈ resultIds results ++ started) (begun : ∀ id ∈ started, id ∈ seen)
    (noTasks : w.tasks = []) :
    (prepareParallel config calls).Ensures w fun outcome w' =>
      match outcome with
      | none => w'.abortSignal = true ∧ Accounts before ids w' ∧ w'.tasks = []
      | some runnable => Prepared before new ids started runnable w' := by
  induction calls generalizing w results seen started with
  | nil =>
    rw [List.map_nil, List.append_nil] at parts
    refine .pure ⟨⟨seen, started, results, batch, fun id member => parts.subset (isSeen id member), begun, parts, ?_⟩,
      noTasks⟩
    exact .of_eq (List.append_nil _).symm
  | cons call rest ih =>
    have apart : (resultIds results ++ started ++ call.id :: rest.map ToolCall.id).Nodup := parts.nodup_iff.mpr distinct
    have isNew : call.id ∉ resultIds results ++ started := fun listed =>
      (List.nodup_append.mp apart).2.2 _ listed _ List.mem_cons_self rfl
    rw [List.mem_append, not_or] at isNew
    have within : ∀ id ∈ call.id :: seen, id ∈ ids := by
      intro id member
      apply parts.subset
      rcases List.mem_cons.mp member with rfl | earlier
      · exact List.mem_append_right _ List.mem_cons_self
      · exact List.mem_append_left _ (isSeen id earlier)
    have quiet := (quiet_batch before new seen started results).and tame_noTasks.toQuiet
    refine .bind ((isAborted_reads quiet rfl ⟨batch, noTasks⟩).mono ?_)
    rintro stopped w1 ⟨⟨batch, noTasks⟩, signal⟩
    split
    · rename_i isStopped
      exact .pure ⟨signal.trans isStopped,
        batch.accounts.widen fun id member => within id (List.mem_cons_of_mem _ member), noTasks⟩
    · refine .bind (((emitStart_batch batch isNew.2).and (tame_noTasks.emit rfl w1 noTasks)).mono ?_)
      rintro - w2 ⟨⟨batch, -⟩, noTasks⟩
      have quiet := (quiet_batch before new (call.id :: seen) (call.id :: started) results).and tame_noTasks.toQuiet
      refine .bind (((quiet.prepareToolCall config call w2 ⟨batch, noTasks⟩).and (prepareToolCall_id config call w2)).mono ?_)
      rintro preparation w3 ⟨⟨batch, noTasks⟩, sameId⟩
      refine .bind ((isAborted_reads quiet rfl ⟨batch, noTasks⟩).mono ?_)
      rintro stopped w4 ⟨⟨batch, noTasks⟩, signal⟩
      split
      · rename_i isStopped
        exact .pure ⟨signal.trans isStopped, batch.accounts.widen within, noTasks⟩
      · split
        · rename_i prepared result isError
          have sameId : prepared.id = call.id := sameId
          refine .bind (((emitOutcome_batch batch (sameId ▸ List.mem_cons_self)).and
            (tame_noTasks.emitToolCallOutcome _ _ _ w4 noTasks)).mono ?_)
          rintro message w5 ⟨⟨accounts, ahead, isMessage, traced⟩, noTasks⟩
          have isId : message.toolCallId = call.id := (congrArg ToolResultMessage.toolCallId isMessage).trans sameId
          rw [sameId, ← isId] at traced
          refine .bind ((addImmediate_batch accounts (ahead.results.trans batch.isFinalized) ?_ traced
            (by rw [isId]; exact List.mem_cons_self) (isId ▸ isNew.1) ?_).mono ?_)
          · rw [noTasks]
            exact fun task member => by cases member
          · rw [noTasks]
            exact fun task member => by cases member
          · rintro - w6 ⟨batch, isTasks⟩
            have unchanged : (call.id :: started).filter (· ≠ call.id) = started := by
              rw [List.filter_cons_of_neg (by simp), List.filter_eq_self]
              intro id member
              rw [decide_eq_true_eq]
              rintro rfl
              exact isNew.2 member
            rw [isId, unchanged] at batch
            refine ih ?_ batch (fun id member => ?_) (fun id member => List.mem_cons_of_mem _ (begun id member))
              (isTasks.trans noTasks)
            · refine List.Perm.trans ?_ parts
              rw [resultIds_append, isId, List.append_assoc, List.append_assoc, List.append_assoc]
              exact (@List.perm_middle _ call.id started (rest.map ToolCall.id)).symm.append_left _
            · rw [resultIds_append, isId]
              rcases List.mem_cons.mp member with rfl | earlier
              · exact List.mem_append_left _ (List.mem_append_right _ (List.mem_singleton.mpr rfl))
              · rcases List.mem_append.mp (isSeen id earlier) with isResult | isStarted
                · exact List.mem_append_left _ (List.mem_append_left _ isResult)
                · exact List.mem_append_right _ isStarted
        · rename_i prepared arguments
          have sameId : prepared.id = call.id := sameId
          refine .bind ((ih ?_ batch (fun id member => ?_) (fun id member => ?_) noTasks).mono ?_)
          · refine List.Perm.trans ?_ parts
            rw [List.append_assoc, List.append_assoc]
            exact (@List.perm_middle _ call.id started (rest.map ToolCall.id)).symm.append_left _
          · rcases List.mem_cons.mp member with rfl | earlier
            · exact List.mem_append_right _ List.mem_cons_self
            · rcases List.mem_append.mp (isSeen id earlier) with isResult | isStarted
              · exact List.mem_append_left _ isResult
              · exact List.mem_append_right _ (List.mem_cons_of_mem _ isStarted)
          · rcases List.mem_cons.mp member with rfl | earlier
            · exact List.mem_cons_self
            · exact List.mem_cons_of_mem _ (begun id earlier)
          · intro later w5 ended
            refine .pure ?_
            cases later with
            | none => exact ended
            | some runnable =>
              obtain ⟨⟨seen', open?, results', batch, isSeen, begun, parts, inOrder⟩, noTasks⟩ := ended
              refine ⟨⟨seen', open?, results', batch, isSeen, begun, parts, inOrder.trans ?_⟩, noTasks⟩
              show (call.id :: started ++ runnableIds runnable).Perm
                (started ++ prepared.id :: runnableIds runnable)
              rw [sameId]
              exact List.perm_middle.symm

def newTasks (runnable : List (ToolCall × String)) : List ExecutionTask :=
  runnable.map fun prepared => ⟨prepared.1, prepared.2, .executing⟩

/-- The tasks are created in the calls' order. -/
theorem startParallel_creates (runnable : List (ToolCall × String)) (w : World) :
    (startParallel runnable).Ensures w fun running w' =>
      w' = { w with tasks := w.tasks ++ newTasks runnable } ∧ running.map (fun started => started.2.id) = runnableIds runnable ∧
        ∀ started ∈ running, ∃ task, w'.tasks[started.1]? = some task ∧ task.call = started.2 := by
  induction runnable generalizing w with
  | nil => exact .pure ⟨by rw [newTasks, List.map_nil, List.append_nil], rfl, nofun⟩
  | cons prepared rest ih =>
    obtain ⟨call, arguments⟩ := prepared
    refine .bind (.bind (.read (.bind (.modify (.pure ?_)))))
    refine .bind ((ih _).mono ?_)
    rintro running w' ⟨rfl, isIds, located⟩
    refine .pure ⟨?_, ?_, ?_⟩
    · show ({ w with tasks := w.tasks ++ [_] ++ newTasks rest } : World) = _
      rw [List.append_assoc]
      rfl
    · rw [List.map_cons, isIds]
      rfl
    · intro started member
      rcases List.mem_cons.mp member with rfl | later
      · refine ⟨⟨call, arguments, .executing⟩, ?_, rfl⟩
        show (w.tasks ++ [_] ++ newTasks rest)[w.tasks.length]? = _
        rw [List.append_assoc, List.getElem?_append_right (Nat.le_refl _), Nat.sub_self]
        rfl
      · exact located started later

/-- Finished tasks that completed in time are finalized, whatever else there is. -/
theorem finalizeDrained_ends (config : LoopConfig) {tasks : List ExecutionTask}
    (among : ∀ task ∈ tasks, task ∈ w.tasks)
    (covers : ∀ completion ∈ w.held, ∃ task ∈ tasks, task.call = completion.1)
    (batch : Batch before new seen started results w) (isSeen : ∀ id ∈ seen, id ∈ ids) (idle : w.Idle)
    (aborted : w.abortSignal = true) :
    (finalizeDrained config tasks).Ensures w fun _ w' =>
      Accounts before ids w' ∧ w'.Idle ∧ w'.held = [] ∧ w'.abortSignal = true := by
  induction tasks generalizing w started results with
  | nil =>
    refine .pure ⟨batch.accounts.widen isSeen, idle, List.eq_nil_iff_forall_not_mem.mpr fun completion member => ?_, aborted⟩
    obtain ⟨task, isTask, -⟩ := covers completion member
    cases isTask
  | cons task rest ih =>
    have isTask := among task List.mem_cons_self
    have amongRest : ∀ other ∈ rest, other ∈ w.tasks := fun other member => among other (List.mem_cons_of_mem _ member)
    -- without a held completion the first task is passed over
    have passed : ∀ {w1}, Batch before new seen started results w1 → Ahead w w1 →
        (∀ completion ∈ w.held, completion.1 ≠ task.call) → (finalizeDrained config rest).Ensures w1 fun _ w' =>
          Accounts before ids w' ∧ w'.Idle ∧ w'.held = [] ∧ w'.abortSignal = true := by
      intro w1 batch ahead other
      refine ih (ahead.tasks_of_idle idle ▸ amongRest) (fun completion member => ?_) batch (ahead.idle idle)
        (ahead.aborted aborted)
      rw [ahead.held_of_idle idle] at member
      obtain ⟨found, isFound, sameCall⟩ := covers completion member
      rcases List.mem_cons.mp isFound with rfl | later
      · exact absurd sameCall.symm (other completion member)
      · exact ⟨found, later, sameCall⟩
    have unique : ∀ other ∈ w.tasks, other.call = task.call → other = task := fun other member same =>
      List.inj_on_of_nodup_map batch.accounts.taskIds member isTask (congrArg ToolCall.id same)
    refine .bind (.read ?_)
    split
    · rename_i isFinal
      refine passed batch (ahead_refl w) fun completion member same => ?_
      obtain ⟨-, -, -, -, -, isFree⟩ := held_task member
      rw [same] at isFree
      rw [List.any_eq_true] at isFinal
      obtain ⟨message, isResult, sameId⟩ := isFinal
      rw [decide_eq_true_eq] at sameId
      exact isFree (List.mem_map.mpr ⟨message, isResult, sameId⟩)
    · rename_i notFinal
      split
      · rename_i executed isState
        have quiet := (quiet_batch before new seen started results).and (tame_ahead w).toQuiet
        refine .bind ((isAborted_reads quiet rfl ⟨batch, ahead_refl w⟩).mono ?_)
        rintro stopped w1 ⟨⟨batch, ahead⟩, signal⟩
        have isStopped : stopped = true := signal.symm.trans (ahead.aborted aborted)
        split
        · rename_i isLate
          rw [Bool.and_eq_true, Bool.not_eq_true'] at isLate
          refine passed batch ahead fun completion member same => ?_
          obtain ⟨other, isOther, isCall, isFinished, inTime, -⟩ := held_task member
          rw [unique other isOther (isCall.trans same), isState] at isFinished
          cases isFinished
          rw [isLate.2] at inTime
          cases inTime
        · rename_i inTime
          have flag : executed.completedBeforeAbort = true := by
            rw [isStopped, Bool.true_and, Bool.not_eq_true', Bool.not_eq_false] at inTime
            exact inTime
          have isTasks := ahead.tasks_of_idle idle
          have isFree : task.call.id ∉ resultIds results := by
            intro listed
            obtain ⟨message, isResult, sameId⟩ := List.mem_map.mp listed
            refine notFinal (List.any_eq_true.mpr ⟨message, ?_, decide_eq_true sameId⟩)
            rw [← ahead.results, batch.isFinalized]
            exact isResult
          refine .bind ((finalizeExecuted_batch config batch (isTasks ▸ isTask) isState flag isFree).mono ?_)
          rintro - w2 ⟨message, isId, batch', w3, ahead', isTasks', signal'⟩
          have isTasks'' : w2.tasks = w.tasks := by
            rw [isTasks', ahead'.tasks_of_idle (ahead.idle idle), isTasks]
          refine ih (isTasks'' ▸ amongRest) (fun completion member => ?_) batch' ?_ ?_
          · unfold World.held at member
            rw [isTasks'', batch'.isFinalized, heldOf_append] at member
            obtain ⟨isHeld, differs⟩ := List.mem_filter.mp member
            rw [← batch.isFinalized, ahead.results] at isHeld
            obtain ⟨found, isFound, sameCall⟩ := covers completion isHeld
            rcases List.mem_cons.mp isFound with rfl | later
            · rw [decide_eq_true_eq, isId, ← sameCall] at differs
              exact absurd rfl differs
            · exact ⟨found, later, sameCall⟩
          · unfold World.Idle
            rw [isTasks'']
            exact idle
          · rw [signal']
            exact ahead'.aborted (ahead.aborted aborted)
      · rename_i isState
        exact absurd isState (idle task isTask)
      · rename_i isState
        refine passed batch (ahead_refl w) fun completion member same => ?_
        obtain ⟨other, isOther, isCall, isFinished, -⟩ := held_task member
        rw [unique other isOther (isCall.trans same), isState] at isFinished
        cases isFinished

/-- After an abort every task is waited for, and those that completed in time are finalized. -/
theorem finalizeCompleted_ends (config : LoopConfig) (batch : Batch before new seen started results w)
    (isSeen : ∀ id ∈ seen, id ∈ ids) (aborted : w.abortSignal = true) :
    (finalizeCompletedToolTasks config).Ensures w fun _ w' =>
      Accounts before ids w' ∧ w'.Idle ∧ w'.held = [] ∧ w'.abortSignal = true := by
  have quiet := (quiet_batch before new seen started results).and (tame_ahead w).toQuiet
  refine .bind ((quiet.wait w ⟨batch, ahead_refl w⟩).mono ?_)
  rintro - w1 ⟨batch, ahead⟩
  refine .bind (.read ?_)
  split
  · exact .stuck
  · rename_i noneExecutes
    refine finalizeDrained_ends config (fun task member => member) (fun completion member => ?_) batch isSeen
      (fun task member executing => ?_) (ahead.aborted aborted)
    · obtain ⟨task, isTask, sameCall, -⟩ := held_task member
      exact ⟨task, isTask, sameCall⟩
    · exact noneExecutes (List.any_eq_true.mpr ⟨task, member, decide_eq_true executing⟩)

/-- A batch that gives up has drained its tasks. -/
theorem giveUp_ends (config : LoopConfig) (batch : Batch before new ids started results w)
    (aborted : w.abortSignal = true) :
    (do
      finalizeCompletedToolTasks config
      pure (.ok true) : Run (Except Fault Bool)).Ensures w fun outcome w' => BatchEnd before new ids outcome w' := by
  refine .bind ((finalizeCompleted_ends config batch (fun _ member => member) aborted).mono ?_)
  rintro - w' ⟨accounts, idle, settled, aborted⟩
  exact .pure (batchEnd_aborted accounts (fun _ member => member) idle settled aborted)

theorem perm_filter_head {id : String} {rest : List String} (begun : started.Perm (id :: rest))
    (distinct : (id :: rest).Nodup) : (started.filter (· ≠ id)).Perm rest := by
  obtain ⟨isNew, -⟩ := List.nodup_cons.mp distinct
  refine (begun.filter _).trans (.of_eq ?_)
  rw [List.filter_cons_of_neg (by simp), List.filter_eq_self]
  intro other member
  rw [decide_eq_true_eq]
  rintro rfl
  exact isNew member

/-- The running tasks are settled in order, and each leaves its result. -/
theorem awaitParallel_ends (config : LoopConfig) {running : List (Nat × ToolCall)}
    (parts : (resultIds results ++ running.map fun begun => begun.2.id).Perm ids) (distinct : ids.Nodup)
    (begun : started.Perm (running.map fun begun => begun.2.id))
    (located : ∀ begun ∈ running, ∃ task, w.tasks[begun.1]? = some task ∧ task.call = begun.2)
    (batch : Batch before new ids started results w) :
    (awaitParallel config running).Ensures w fun outcome w' => BatchEnd before new ids outcome w' := by
  induction running generalizing w results started with
  | nil =>
    rw [List.map_nil, List.append_nil] at parts
    have isFinal : ∀ task ∈ w.tasks, task.call.id ∈ resultIds results := fun task member =>
      parts.symm.subset (batch.accounts.tasksSeen task member)
    refine .bind (.read (.pure ⟨batch.accounts, fun task member executing => ?_, ?_, fun _ _ _ => ?_, nofun⟩))
    · exact batch.accounts.running task member executing (batch.isFinalized ▸ isFinal task member)
    · refine List.eq_nil_iff_forall_not_mem.mpr fun completion member => ?_
      obtain ⟨task, isTask, sameCall, -, -, isFree⟩ := held_task member
      rw [batch.isFinalized, ← sameCall] at isFree
      exact isFree (isFinal task isTask)
    · rw [begun.eq_nil] at batch
      rw [batch.isFinalized]
      exact ⟨parts, batch.traced⟩
  | cons first rest ih =>
    obtain ⟨index, call⟩ := first
    have apart := parts.nodup_iff.mpr distinct
    have isNew : call.id ∉ resultIds results := fun listed =>
      (List.nodup_append.mp apart).2.2 _ listed _ List.mem_cons_self rfl
    obtain ⟨task, isTask, isCall⟩ := located _ List.mem_cons_self
    have quiet := (quiet_batch before new ids started results).and (tame_ahead w).toQuiet
    refine .bind ((awaitExecutionTask_reads quiet index ⟨batch, ahead_refl w⟩).mono ?_)
    rintro outcome w1 ⟨⟨batch, ahead⟩, awaited⟩
    obtain ⟨task', isTask', sameCall, -⟩ := ahead.each index task isTask
    have isMember := List.mem_of_getElem? isTask'
    have isCall : task'.call = call := sameCall.trans isCall
    rcases World.taskOutcome_eq isTask' awaited with ⟨executed, rfl, isState⟩ | ⟨rfl, isState⟩
    · have isSettled : task'.state ≠ .executing := by
        rw [isState]
        exact nofun
      have quiet := (quiet_batch before new ids started results).and
        ((tame_ahead w).toQuiet.and (tame_ahead w1).toQuiet)
      refine .bind ((isAborted_reads quiet rfl ⟨batch, ahead, ahead_refl w1⟩).mono ?_)
      rintro stopped w2 ⟨⟨batch, ahead, ahead'⟩, signal⟩
      split
      · rename_i isStopped
        exact giveUp_ends config batch (signal.trans isStopped)
      · rename_i running
        have isMember := ahead'.mem_of_settled isMember isSettled
        have flag : executed.completedBeforeAbort = true := by
          cases isFlag : executed.completedBeforeAbort with
          | true => rfl
          | false => exact absurd (signal.symm.trans (batch.accounts.late task' isMember executed isState isFlag)) running
        have finalized := finalizeExecuted_batch config batch isMember isState flag (isCall.symm ▸ isNew)
        rw [isCall] at finalized
        refine .bind (finalized.mono ?_)
        rintro - w3 ⟨message, isId, batch, w4, ahead'', isTasks, -⟩
        refine ih ?_ (perm_filter_head begun (List.nodup_append.mp apart).2.1) (fun other member => ?_) batch
        · rw [resultIds_append, isId, List.append_assoc]
          exact parts
        · obtain ⟨earlier, isEarlier, isOther⟩ := located other (List.mem_cons_of_mem _ member)
          obtain ⟨later, isLater, same, -⟩ := (ahead.trans ahead'').each other.1 earlier isEarlier
          exact ⟨later, isTasks ▸ isLater, same.trans isOther⟩
    · exact giveUp_ends config batch (batch.accounts.cancelled task' isMember isState).2

theorem newTasks_ids (runnable : List (ToolCall × String)) :
    (newTasks runnable).map (fun task => task.call.id) = runnableIds runnable := by
  unfold newTasks runnableIds
  rw [List.map_map]
  rfl

theorem executeParallel_ends (config : LoopConfig) (distinct : (calls.map ToolCall.id).Nodup)
    (batch : Batch before new [] [] [] w) (noTasks : w.tasks = []) :
    (executeParallel config calls).Ensures w fun outcome w' =>
      BatchEnd before new (calls.map ToolCall.id) outcome w' := by
  refine .bind ((prepareParallel_ends config (.refl _) distinct batch nofun nofun noTasks).mono ?_)
  intro prepared w1 ended
  cases prepared with
  | none =>
    obtain ⟨aborted, accounts, noTasks⟩ := ended
    refine .pure (batchEnd_aborted accounts (fun _ member => member) (fun task member => ?_) ?_ aborted)
    · rw [noTasks] at member
      cases member
    · unfold World.held
      rw [noTasks]
      rfl
  | some runnable =>
    obtain ⟨⟨seen, open?, results, batch, isSeen, begun, parts, inOrder⟩, noTasks⟩ := ended
    rw [List.nil_append] at inOrder
    have opens : ∀ task ∈ newTasks runnable, task.call.id ∈ open? := fun task member => by
      refine inOrder.symm.subset ?_
      rw [← newTasks_ids]
      exact List.mem_map_of_mem member
    have apart := parts.nodup_iff.mpr distinct
    have created := batch.addTasks (fun task member => by
        obtain ⟨prepared, -, rfl⟩ := List.mem_map.mp member
        rfl) (by
        rw [noTasks, List.nil_append, newTasks_ids]
        exact inOrder.nodup_iff.mp (List.nodup_append.mp apart).2.1)
      (fun task member => begun _ (opens task member)) opens
      (fun task member listed => (List.nodup_append.mp apart).2.2 _ listed _ (opens task member) rfl)
    refine .bind ((startParallel_creates runnable w1).mono ?_)
    rintro running w2 ⟨rfl, isIds, located⟩
    refine awaitParallel_ends config ?_ distinct ?_ located
      { created with accounts := created.accounts.widen isSeen }
    · rw [isIds]
      exact (inOrder.symm.append_left _).trans parts
    · rw [isIds]
      exact inOrder

end

end Loushang.Agent
