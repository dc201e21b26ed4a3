import Loushang.Agent.Runtime

/-!
# The tool calls of one response

`agent/agent_loop.py`: preparation, execution and finalization of tool calls, in sequence or in
parallel, and the results an abort leaves to be made up. `finalized_results` and
`finalized_messages` grow together and are one list here.
-/
namespace Loushang.Agent
open Loushang.Lib

/-- `_find_tool`. -/
def findTool (tools : List Tool) (name : String) : Option Tool := tools.find? (·.name = name)

/-- `_PreparedToolCall` and `_ImmediateToolCallOutcome`. -/
inductive Preparation where
  | prepared (call : ToolCall) (arguments : String)
  | immediate (call : ToolCall) (result : AgentToolResult) (isError : Bool)

/-- The arguments a tool is run with. -/
def Tool.validatedArguments (tool : Tool) (arguments : String) : Except Failure String :=
  (tool.prepareArguments arguments).bind tool.validate

/-- `value or default`. -/
def orDefault (value : Option String) (fallback : String) : String :=
  match value with
  | some text => if text = "" then fallback else text
  | none => fallback

/-- The call that the before hook lets through or blocks. -/
def blockOrPrepare (call : ToolCall) (arguments : String) (result : BeforeToolCallResult) : Preparation :=
  if result.block then
    .immediate call (errorToolResult (orDefault result.reason "Tool execution was blocked")) true
  else .prepared call arguments

/-- What `_prepare_tool_call` makes of a before hook's result. -/
def applyBeforeHook (tools : List Tool) (call : ToolCall) (arguments : String) (result : BeforeToolCallResult) :
    Preparation :=
  let name := orDefault result.toolName call.name
  let rewritten := result.arguments.getD arguments
  if name ≠ call.name ∨ rewritten ≠ arguments then
    let eventCall : ToolCall := { call with name, arguments := rewritten }
    match findTool tools name with
    | none => .immediate eventCall (errorToolResult ("Tool " ++ name ++ " not found")) true
    | some tool =>
      match tool.validatedArguments rewritten with
      | .error failure => .immediate call (raisedToolResult failure false) true
      | .ok validated => blockOrPrepare eventCall validated result
  else blockOrPrepare call arguments result

/-- `_prepare_tool_call`. -/
def prepareToolCall (config : LoopConfig) (call : ToolCall) : Run Preparation :=
  match findTool config.tools call.name with
  | none => pure (.immediate call (errorToolResult ("Tool " ++ call.name ++ " not found")) true)
  | some tool =>
    match tool.validatedArguments call.arguments with
    | .error failure => pure (.immediate call (raisedToolResult failure false) true)
    | .ok arguments =>
      if config.hasBeforeToolCall then do
        match ← wait with
        | .raised failure => pure (.immediate call (raisedToolResult failure false) true)
        | .beforeHook none => pure (.prepared call arguments)
        | .beforeHook (some result) => pure (applyBeforeHook config.tools call arguments result)
        | _ => Coroutine.stuck
      else pure (.prepared call arguments)

/-! ## Results -/

/-- `_ensure_final_tool_output_projections`. -/
def ensureFinalProjections (result : AgentToolResult) (isError : Bool) : AgentToolResult × Bool :=
  match result.failure? .transcript with
  | some failure => (projectionErrorToolResult failure result.terminate, true)
  | none =>
    match result.failure? .event with
    | some failure => (projectionErrorToolResult failure result.terminate, true)
    | none => (result, isError)

/-- The message of a call's outcome. -/
def outcomeMessage (call : ToolCall) (result : AgentToolResult) (isError : Bool) : ToolResultMessage :=
  let final := ensureFinalProjections result isError
  ⟨call.id, call.name, final.1.content, final.1.details.text, final.2, final.1.terminate⟩

/-- `_emit_tool_call_outcome`. -/
def emitToolCallOutcome (call : ToolCall) (result : AgentToolResult) (isError : Bool) : Run ToolResultMessage := do
  let message := outcomeMessage call result isError
  emit (.toolExecutionEnd call.id call.name message.content message.isError)
  emit (.messageStart (.toolResult message))
  emit (.messageEnd (.toolResult message))
  pure message

/-- `_prepare_hook_projection`. -/
def prepareHookProjection (result : AgentToolResult) (isError : Bool) : AgentToolResult × Bool :=
  match result.failure? .hook with
  | some failure => (projectionErrorToolResult failure result.terminate, true)
  | none => (result, isError)

/-- What `_finalize_executed_tool_call` makes of an after hook's result. -/
def applyAfterHook (result : AgentToolResult) (isError : Bool) (hook : AfterToolCallResult) : AgentToolResult × Bool :=
  let candidate : AgentToolResult :=
    ⟨hook.content.getD result.content, hook.details.getD result.details, hook.terminate.getD result.terminate⟩
  match (if hook.details.isSome then candidate.failure? .hook else none) with
  | some failure => (projectionErrorToolResult failure candidate.terminate, true)
  | none => (candidate, hook.isError.getD isError)

/-- The result after the after hook. -/
def afterToolCall (config : LoopConfig) (executed : ExecutedToolCallOutcome) : Run (AgentToolResult × Bool) :=
  if config.hasAfterToolCall then do
    let shown := prepareHookProjection executed.result executed.isError
    match ← wait with
    | .raised failure => pure (raisedToolResult failure shown.1.terminate, true)
    | .afterHook none => pure shown
    | .afterHook (some hook) => pure (applyAfterHook shown.1 shown.2 hook)
    | _ => Coroutine.stuck
  else pure (executed.result, executed.isError)

/-- A result joins `finalized_messages`. -/
def addFinalized (message : ToolResultMessage) : Run Unit :=
  Coroutine.modify fun w => { w with finalizedMessages := w.finalizedMessages ++ [message] }

/-- `_finalize_executed_tool_call`, whose result is then added to the finalized ones. -/
def finalizeExecutedToolCall (config : LoopConfig) (call : ToolCall) (executed : ExecutedToolCallOutcome) :
    Run Unit := do
  let final ← afterToolCall config executed
  let message ← emitToolCallOutcome call final.1 final.2
  Coroutine.modify fun w => w.log (.finalized call executed message)
  addFinalized message

/-! ## Execution -/

/-- `_create_execution_task`: the tasks' index of the new one. -/
def createExecutionTask (call : ToolCall) (arguments : String) : Run Nat := do
  let index ← Coroutine.read fun w => w.tasks.length
  Coroutine.modify fun w => { w with tasks := w.tasks ++ [⟨call, arguments, .executing⟩] }
  pure index

/-- What awaiting a settled task gives. -/
def World.taskOutcome (w : World) (index : Nat) : Option (Except Fault ExecutedToolCallOutcome) :=
  match w.tasks[index]?.map ExecutionTask.state with
  | some (.finished outcome) => some (.ok outcome)
  | some .cancelled => some (.error .executionAborted)
  | some .executing => none
  | none => none

/-- `_await_execution_task`; a settled task is not waited for. -/
def awaitExecutionTask (index : Nat) : Run (Except Fault ExecutedToolCallOutcome) := do
  match ← Coroutine.read fun w => w.taskOutcome index with
  | some outcome => pure outcome
  | none => do
    let _ ← wait
    match ← Coroutine.read fun w => w.taskOutcome index with
    | some outcome => pure outcome
    | none => Coroutine.stuck

/-- `_should_terminate_after_tool_batch`. -/
def shouldTerminate (results : List ToolResultMessage) : Bool :=
  !results.isEmpty && results.all ToolResultMessage.terminate

/-- `_execute_tool_calls_sequential`: whether to terminate after the batch. -/
def executeSequential (config : LoopConfig) : List ToolCall → Run (Except Fault Bool)
  | [] => do
    let results ← Coroutine.read World.finalizedMessages
    pure (.ok (shouldTerminate results))
  | call :: rest => do
    if ← isAborted .batch then pure (.ok true)
    else do
      emit (.toolExecutionStart call)
      let preparation ← prepareToolCall config call
      if ← isAborted .batch then pure (.ok true)
      else
        match preparation with
        | .immediate prepared result isError => do
          let message ← emitToolCallOutcome prepared result isError
          addFinalized message
          executeSequential config rest
        | .prepared prepared arguments => do
          let index ← createExecutionTask prepared arguments
          match ← awaitExecutionTask index with
          | .error fault => pure (.error fault)
          | .ok executed => do
            let aborted ← isAborted .batch
            if aborted && !executed.completedBeforeAbort then pure (.ok true)
            else do
              finalizeExecutedToolCall config prepared executed
              executeSequential config rest

/-- The first loop of `_execute_tool_calls_parallel`: the runnable calls, unless it stops. -/
def prepareParallel (config : LoopConfig) : List ToolCall → Run (Option (List (ToolCall × String)))
  | [] => pure (some [])
  | call :: rest => do
    if ← isAborted .batch then pure none
    else do
      emit (.toolExecutionStart call)
      let preparation ← prepareToolCall config call
      if ← isAborted .batch then pure none
      else
        match preparation with
        | .immediate prepared result isError => do
          let message ← emitToolCallOutcome prepared result isError
          addFinalized message
          prepareParallel config rest
        | .prepared prepared arguments => do
          let later ← prepareParallel config rest
          pure (later.map fun runnable => (prepared, arguments) :: runnable)

/-- The loop of `_finalize_completed_tool_tasks` over the settled tasks. -/
def finalizeDrained (config : LoopConfig) : List ExecutionTask → Run Unit
  | [] => pure ()
  | task :: rest => do
    let finalized ← Coroutine.read World.finalizedMessages
    if finalized.any (·.toolCallId = task.call.id) then finalizeDrained config rest
    else
      match task.state with
      | .finished executed => do
        let aborted ← isAborted .batch
        if aborted && !executed.completedBeforeAbort then finalizeDrained config rest
        else do
          finalizeExecutedToolCall config task.call executed
          finalizeDrained config rest
      | .executing => finalizeDrained config rest
      | .cancelled => finalizeDrained config rest

/-- `_finalize_completed_tool_tasks`: every task is cancelled and waited for. -/
def finalizeCompletedToolTasks (config : LoopConfig) : Run Unit := do
  let _ ← wait
  let tasks ← Coroutine.read World.tasks
  if tasks.any (·.state = .executing) then Coroutine.stuck else finalizeDrained config tasks

/-- The second loop of `_execute_tool_calls_parallel`, over the running tasks. -/
def awaitParallel (config : LoopConfig) : List (Nat × ToolCall) → Run (Except Fault Bool)
  | [] => do
    let results ← Coroutine.read World.finalizedMessages
    pure (.ok (shouldTerminate results))
  | (index, call) :: rest => do
    match ← awaitExecutionTask index with
    | .error _ => do
      finalizeCompletedToolTasks config
      pure (.ok true)
    | .ok executed => do
      if ← isAborted .batch then do
        finalizeCompletedToolTasks config
        pure (.ok true)
      else do
        finalizeExecutedToolCall config call executed
        awaitParallel config rest

/-- The running tasks of the runnable calls. -/
def startParallel : List (ToolCall × String) → Run (List (Nat × ToolCall))
  | [] => pure []
  | (call, arguments) :: rest => do
    let index ← createExecutionTask call arguments
    let later ← startParallel rest
    pure ((index, call) :: later)

/-- `_execute_tool_calls_parallel`. -/
def executeParallel (config : LoopConfig) (calls : List ToolCall) : Run (Except Fault Bool) := do
  match ← prepareParallel config calls with
  | none => pure (.ok true)
  | some runnable => do
    let running ← startParallel runnable
    awaitParallel config running

/-- `_has_sequential_tool_call`. -/
def hasSequentialToolCall (tools : List Tool) (calls : List ToolCall) : Bool :=
  calls.any fun call => (findTool tools call.name).any Tool.sequential

/-- `_execute_tool_calls`. -/
def executeToolCalls (config : LoopConfig) (calls : List ToolCall) : Run (Except Fault Bool) := do
  if ← isAborted .beforeBatch then pure (.ok true)
  else if config.sequential || hasSequentialToolCall config.tools calls then executeSequential config calls
  else executeParallel config calls

/-- The loop of `_emit_aborted_tool_results`. -/
def emitAborted (finalizedIds : List String) : List ToolCall → Run (List ToolResultMessage)
  | [] => pure []
  | call :: rest =>
    if call.id ∈ finalizedIds then emitAborted finalizedIds rest
    else do
      let message ← emitToolCallOutcome call abortedToolResult true
      let later ← emitAborted finalizedIds rest
      pure (message :: later)

/-- `_emit_aborted_tool_results`. -/
def emitAbortedToolResults (calls : List ToolCall) (finalized : List ToolResultMessage) :
    Run (List ToolResultMessage) :=
  emitAborted (finalized.map ToolResultMessage.toolCallId) calls

end Loushang.Agent
