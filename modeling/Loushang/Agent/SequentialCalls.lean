import Loushang.Agent.ToolResults

/-!
# Tool calls in sequence

`_execute_tool_calls_sequential` settles each task before the next one begins.
-/
namespace Loushang.Agent
open Loushang.Lib

section

variable {w w' : World} {before : List ToolResultMessage} {new : List Message} {seen started : List String}
  {results : List ToolResultMessage}

theorem executeSequential_ends (config : LoopConfig) {calls : List ToolCall} {ids : List String}
    (parts : (resultIds results ++ calls.map ToolCall.id).Perm ids) (distinct : ids.Nodup)
    (batch : Batch before new seen [] results w) (isSeen : ∀ id ∈ seen, id ∈ resultIds results)
    (idle : w.Idle) (settled : w.held = []) :
    (executeSequential config calls).Ensures w fun outcome w' => BatchEnd before new ids outcome w' := by
  induction calls generalizing w results seen with
  | nil =>
    rw [List.map_nil, List.append_nil] at parts
    refine .bind (.read (.pure ⟨batch.accounts.widen fun id member => parts.subset (isSeen id member), idle, settled,
      fun _ _ _ => ?_, nofun⟩))
    rw [batch.isFinalized]
    exact ⟨parts, batch.traced⟩
  | cons call rest ih =>
    have apart : (resultIds results ++ call.id :: rest.map ToolCall.id).Nodup := parts.nodup_iff.mpr distinct
    have isNew : call.id ∉ resultIds results := fun listed =>
      (List.nodup_append.mp apart).2.2 _ listed _ List.mem_cons_self rfl
    have within : ∀ id ∈ call.id :: seen, id ∈ ids := by
      intro id member
      apply parts.subset
      rcases List.mem_cons.mp member with rfl | earlier
      · exact List.mem_append_right _ List.mem_cons_self
      · exact List.mem_append_left _ (isSeen id earlier)
    have noTask : ∀ task ∈ w.tasks, task.call.id ≠ call.id := fun task member same =>
      isNew (same ▸ isSeen _ (batch.accounts.tasksSeen task member))
    -- the results are one longer, the calls one shorter
    have next : ∀ {w : World} {message : ToolResultMessage}, message.toolCallId = call.id →
        Batch before new (call.id :: seen) [] (results ++ [message]) w → w.Idle → w.held = [] →
        (executeSequential config rest).Ensures w fun outcome w' => BatchEnd before new ids outcome w' := by
      intro w message sameId batch idle settled
      refine ih ?_ batch (fun id member => ?_) idle settled
      · rw [resultIds_append, sameId, List.append_assoc]
        exact parts
      · rw [resultIds_append, sameId]
        rcases List.mem_cons.mp member with rfl | earlier
        · exact List.mem_append_right _ (List.mem_singleton.mpr rfl)
        · exact List.mem_append_left _ (isSeen id earlier)
    have quiet := (quiet_batch before new seen [] results).and (tame_ahead w).toQuiet
    refine .bind ((isAborted_reads quiet rfl ⟨batch, ahead_refl w⟩).mono ?_)
    rintro stopped w1 ⟨⟨batch, ahead⟩, signal⟩
    split
    · rename_i isStopped
      obtain ⟨-, idle, settled⟩ := ahead.still idle settled
      exact .pure (batchEnd_aborted batch.accounts (fun id member => within id (List.mem_cons_of_mem _ member)) idle
        settled (signal.trans isStopped))
    · refine .bind ((emitStart_batch batch List.not_mem_nil).mono ?_)
      rintro - w2 ⟨batch, ahead'⟩
      have ahead := ahead.trans ahead'
      have quiet := (quiet_batch before new (call.id :: seen) [call.id] results).and (tame_ahead w).toQuiet
      refine .bind (((quiet.prepareToolCall config call w2 ⟨batch, ahead⟩).and (prepareToolCall_id config call w2)).mono ?_)
      rintro preparation w3 ⟨⟨batch, ahead⟩, sameId⟩
      refine .bind ((isAborted_reads quiet rfl ⟨batch, ahead⟩).mono ?_)
      rintro stopped w4 ⟨⟨batch, ahead⟩, signal⟩
      obtain ⟨isTasks, idle, settled⟩ := ahead.still idle settled
      split
      · rename_i isStopped
        exact .pure (batchEnd_aborted batch.accounts within idle settled (signal.trans isStopped))
      · split
        · rename_i prepared result isError
          have sameId : prepared.id = call.id := sameId
          refine .bind ((emitOutcome_batch batch (sameId ▸ List.mem_cons_self)).mono ?_)
          rintro message w5 ⟨accounts, ahead', isMessage, traced⟩
          have isId : message.toolCallId = call.id := (congrArg ToolResultMessage.toolCallId isMessage).trans sameId
          obtain ⟨isTasks', idle, settled⟩ := ahead'.still idle settled
          rw [sameId, ← isId] at traced
          refine .bind ((addImmediate_batch accounts (ahead'.results.trans batch.isFinalized) ?_ traced
            (by rw [isId]; exact List.mem_cons_self) (isId ▸ isNew) ?_).mono ?_)
          · rw [isTasks']
            exact fun task member open? => isId ▸ batch.startedTasks task member open?
          · rw [isTasks', isTasks, isId]
            exact noTask
          · rintro - w6 ⟨batch', isTasks''⟩
            rw [isId, filter_self] at batch'
            refine next isId batch' (by unfold World.Idle; rw [isTasks'']; exact idle) ?_
            unfold World.held
            rw [isTasks'', batch'.isFinalized]
            refine heldOf_append_nil ?_
            unfold World.held at settled
            rwa [ahead'.results, batch.isFinalized] at settled
        · rename_i prepared arguments
          have sameId : prepared.id = call.id := sameId
          have nothingHeld : heldOf w4.tasks results = [] := by
            unfold World.held at settled
            rwa [batch.isFinalized] at settled
          let task : ExecutionTask := ⟨prepared, arguments, .executing⟩
          have isNone : ∀ other ∈ w4.tasks, other.call.id ≠ prepared.id := by
            rw [isTasks, sameId]
            exact noTask
          have only : ∀ {p : ExecutionTask → Prop}, p task → ∀ other ∈ [task], p other := fun holds other member =>
            List.mem_singleton.mp member ▸ holds
          have created : Batch before new (call.id :: seen) [call.id] results
              { w4 with tasks := w4.tasks ++ [task] } := by
            refine batch.addTasks (only rfl) ?_ (only (sameId ▸ List.mem_cons_self)) (only (sameId ▸ List.mem_cons_self))
              (only (sameId ▸ isNew))
            rw [List.map_append]
            refine List.nodup_append.mpr ⟨batch.accounts.taskIds, List.nodup_singleton _, ?_⟩
            rintro id listed other isOnly rfl
            obtain ⟨earlier, isEarlier, isId⟩ := List.mem_map.mp listed
            exact isNone earlier isEarlier (isId.trans (List.mem_singleton.mp isOnly))
          refine .bind (.bind (.read (.bind (.modify (.pure ?_)))))
          have quiet := (quiet_batch before new (call.id :: seen) [call.id] results).and
            (tame_ahead { w4 with tasks := w4.tasks ++ [task] }).toQuiet
          refine .bind ((awaitExecutionTask_reads quiet _ ⟨created, ahead_refl _⟩).mono ?_)
          rintro outcome w5 ⟨⟨batch, ahead⟩, awaited⟩
          obtain ⟨task', isTasks', sameCall⟩ := ahead.tasks_of_append rfl idle
          have isLast : w5.tasks[w4.tasks.length]? = some task' := by
            rw [isTasks']
            exact List.getElem?_concat_length
          have isMember : task' ∈ w5.tasks := List.mem_of_getElem? isLast
          have settledTask : ∀ {w : World}, w.tasks = w5.tasks → task'.state ≠ .executing → w.Idle := by
            intro w same isSettled other member
            rw [same, isTasks'] at member
            rcases List.mem_append.mp member with earlier | last
            · exact idle other earlier
            · rw [List.mem_singleton.mp last]
              exact isSettled
          rcases World.taskOutcome_eq isLast awaited with ⟨executed, rfl, isState⟩ | ⟨rfl, isState⟩
          · have isSettled : task'.state ≠ .executing := by
              rw [isState]
              exact nofun
            have quiet := (quiet_batch before new (call.id :: seen) [call.id] results).and (tame_ahead w5).toQuiet
            refine .bind ((isAborted_reads quiet rfl ⟨batch, ahead_refl w5⟩).mono ?_)
            rintro aborted w6 ⟨⟨batch, ahead'⟩, signal⟩
            have isTasks'' := ahead'.tasks_of_idle (settledTask rfl isSettled)
            split
            · rename_i isLate
              rw [Bool.and_eq_true, Bool.not_eq_true'] at isLate
              refine .pure (batchEnd_aborted batch.accounts within (settledTask isTasks'' isSettled) ?_
                (signal.trans isLate.1))
              unfold World.held
              rw [isTasks'', isTasks', batch.isFinalized]
              refine heldOf_concat nothingHeld (.inl ?_)
              unfold ExecutionTask.completion?
              rw [isState]
              exact if_neg (by rw [isLate.2]; exact Bool.false_ne_true)
            · rename_i inTime
              have isMember : task' ∈ w6.tasks := by
                rw [isTasks'']
                exact isMember
              have flag : executed.completedBeforeAbort = true := by
                cases isFlag : executed.completedBeforeAbort with
                | true => rfl
                | false =>
                  have late := batch.accounts.late task' isMember executed isState isFlag
                  rw [signal] at late
                  rw [late, isFlag] at inTime
                  exact absurd rfl inTime
              have isFree : task'.call.id ∉ resultIds results := by
                rw [sameCall]
                exact sameId ▸ isNew
              have finalized := finalizeExecuted_batch config batch isMember isState flag isFree
              rw [sameCall] at finalized
              refine .bind (finalized.mono ?_)
              rintro - w7 ⟨message, isId, batch', w8, ahead'', isTasks7, -⟩
              have isTasks8 : w7.tasks = w5.tasks := by
                rw [isTasks7, ahead''.tasks_of_idle (settledTask isTasks'' isSettled), isTasks'']
              have isId : message.toolCallId = call.id := isId.trans sameId
              have isCall : task.call.id = call.id := sameId
              rw [isCall, filter_self] at batch'
              refine next isId batch' (settledTask isTasks8 isSettled) ?_
              unfold World.held
              rw [isTasks8, isTasks', batch'.isFinalized]
              refine heldOf_concat (heldOf_append_nil nothingHeld) (.inr ?_)
              rw [resultIds_append, sameCall, isCall]
              exact List.mem_append_right _ (List.mem_singleton.mpr isId.symm)
          · have isSettled : task'.state ≠ .executing := by
              rw [isState]
              exact nofun
            refine .pure ⟨batch.accounts.widen within, settledTask rfl isSettled, ?_, nofun, fun _ _ =>
              ⟨task'.call, (batch.accounts.cancelled task' isMember isState).1⟩⟩
            unfold World.held
            rw [isTasks', batch.isFinalized]
            refine heldOf_concat nothingHeld (.inl ?_)
            unfold ExecutionTask.completion?
            rw [isState]

end

end Loushang.Agent
