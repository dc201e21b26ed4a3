import Loushang.Agent.ToolBatch

/-!
# The agent loop

`agent/agent_loop.py`: a response is streamed in an execution task of its own, its tool calls are
run, and the queues are polled between turns. The context the provider is shown is left out. The
bound on a loop's rounds stands for a run that has not returned yet.
-/
namespace Loushang.Agent
open Loushang.Lib

/-- A wait of the execution task of a response, which an abort may cancel. -/
def waitInExecution (addedDraft : Bool) : Run (Except Fault Arrival) := do
  match ← wait with
  | .raised failure => do
    Coroutine.modify fun w => w.log (.interrupted addedDraft)
    pure (.error (.raised failure))
  | .cancelled => do
    let aborted ← Coroutine.read World.abortSignal
    if aborted then do
      Coroutine.modify fun w => w.log (.interrupted addedDraft)
      pure (.error .executionAborted)
    else Coroutine.stuck
  | arrival => pure (.ok arrival)

/-- `_emit` within an execution task. -/
def emitInExecution (event : AgentEvent) (addedDraft : Bool) : Run (Except Fault Unit) := do
  Coroutine.modify fun w => w.process event
  let waited ← waitInExecution addedDraft
  pure (waited.map fun _ => ())

/-- `response.result()`. -/
def awaitResult (addedDraft : Bool) : Run (Except Fault (AssistantMessage × Bool)) := do
  match ← waitInExecution addedDraft with
  | .error fault => pure (.error fault)
  | .ok (.response message) => pure (.ok (message, addedDraft))
  | .ok _ => Coroutine.stuck

/-- The loop over the provider's events. -/
def collectEvents : Nat → Bool → Run (Except Fault (AssistantMessage × Bool))
  | 0, _ => Coroutine.stuck
  | rounds + 1, addedDraft => do
    match ← waitInExecution addedDraft with
    | .error fault => pure (.error fault)
    | .ok .exhausted => awaitResult addedDraft
    | .ok (.event event) => do
      if ← isAborted (.providerEvent event addedDraft) then pure (.error (.raised userAbortError))
      else
        match event with
        | .start draft => do
          match ← emitInExecution (.messageStart (.assistant draft)) true with
          | .error fault => pure (.error fault)
          | .ok _ => collectEvents rounds true
        | .delta draft => do
          match ← emitInExecution (.messageUpdate (.assistant draft)) addedDraft with
          | .error fault => pure (.error fault)
          | .ok _ => collectEvents rounds addedDraft
        | .done => awaitResult addedDraft
        | .other => collectEvents rounds addedDraft
    | .ok _ => Coroutine.stuck

/-- Whether a draft was added by what was collected. -/
def draftAdded : Except Fault (AssistantMessage × Bool) → Bool
  | .ok (_, addedDraft) => addedDraft
  | .error _ => false

/-- `_collect_assistant_response`; what leads up to the request is one wait. -/
def collectAssistantResponse (rounds : Nat) : Run (Except Fault (AssistantMessage × Bool)) := do
  match ← waitInExecution false with
  | .error fault => pure (.error fault)
  | .ok _ => do
    if ← isAborted .beforeRequest then pure (.error (.raised userAbortError))
    else
      match ← waitInExecution false with
      | .error fault => pure (.error fault)
      | .ok _ => do
        let collected ← collectEvents rounds false
        -- the stream is closed on every way out
        match ← waitInExecution (draftAdded collected) with
        | .error fault => pure (.error fault)
        | .ok _ => pure collected

/-- The response's message ends. -/
def endResponse (message : AssistantMessage) : Run (Except Fault AssistantMessage) := do
  emit (.messageEnd (.assistant message))
  pure (.ok message)

/-- `_stream_assistant_response`. -/
def streamAssistantResponse (rounds : Nat) : Run (Except Fault AssistantMessage) := do
  if ← isAborted .execution then pure (.error (.raised userAbortError))
  else
    match ← collectAssistantResponse rounds with
    | .error fault => pure (.error fault)
    | .ok (message, addedDraft) => do
      let _ ← wait
      if addedDraft then endResponse message
      else do
        emit (.messageStart (.assistant message))
        endResponse message

/-! ## Turns -/

/-- How a turn ends: the run returns, it fails, or the loop goes on. -/
inductive TurnEnd where
  | returned (newMessages : List Message)
  | failed (failure : Failure)
  | proceed (newMessages : List Message) (hasMoreToolCalls : Bool) (pending : List Message)

/-- `_emit_aborted_turn`. -/
def emitAbortedTurn (newMessages : List Message) : Run TurnEnd := do
  let message := AssistantMessage.abortedBy "Request aborted by user"
  let newMessages := newMessages ++ [.assistant message]
  emit (.messageStart (.assistant message))
  emit (.messageEnd (.assistant message))
  emit (.turnEnd message [])
  emit (.agentEnd newMessages)
  pure (.returned newMessages)

/-- The results of an aborted batch are completed, and the run ends. -/
def abortBatch (newMessages : List Message) (message : AssistantMessage) : Run TurnEnd := do
  let finalized ← Coroutine.read World.finalizedMessages
  let aborted ← emitAbortedToolResults message.toolCalls finalized
  let toolResults := finalized ++ aborted
  emit (.turnEnd message toolResults)
  emitAbortedTurn (newMessages ++ toolResults.map Message.toolResult)

/-- The tool calls of a response. -/
def runToolCalls (config : LoopConfig) (newMessages : List Message) (message : AssistantMessage) : Run TurnEnd := do
  Coroutine.modify fun w => { w with tasks := [], finalizedMessages := [] }
  if ← isAborted .beforeBatch then abortBatch newMessages message
  else
    match ← executeToolCalls config message.toolCalls with
    | .error _ => abortBatch newMessages message
    | .ok terminate => do
      if ← isAborted .afterBatch then abortBatch newMessages message
      else do
        let toolResults ← Coroutine.read World.finalizedMessages
        let newMessages := newMessages ++ toolResults.map Message.toolResult
        emit (.turnEnd message toolResults)
        if terminate then do
          emit (.agentEnd newMessages)
          pure (.returned newMessages)
        else do
          let pending ← pollImmediateInputs config
          pure (.proceed newMessages true pending)

/-- What the loop does with a response. -/
def afterResponse (config : LoopConfig) (newMessages : List Message) (message : AssistantMessage) : Run TurnEnd := do
  if message.failed then do
    emit (.turnEnd message [])
    emit (.agentEnd newMessages)
    pure (.returned newMessages)
  else if ← isAborted (.afterResponse message) then emitAbortedTurn newMessages
  else if message.toolCalls.isEmpty then do
    emit (.turnEnd message [])
    let pending ← pollImmediateInputs config
    pure (.proceed newMessages false pending)
  else runToolCalls config newMessages message

/-- Each pending message enters the conversation. -/
def deliver : List Message → Run Unit
  | [] => pure ()
  | message :: rest => do
    emit (.messageStart message)
    emit (.messageEnd message)
    deliver rest

/-- A turn once it has started: the pending messages, the response and its tool calls. -/
def takeTurn (config : LoopConfig) (rounds : Nat) (newMessages pending : List Message) : Run TurnEnd := do
  deliver pending
  let newMessages := newMessages ++ pending
  if ← isAborted .beforeResponse then emitAbortedTurn newMessages
  else
    match ← streamAssistantResponse rounds with
    | .error .executionAborted => emitAbortedTurn newMessages
    | .error (.raised failure) => do
      if ← isUserAbortError failure then emitAbortedTurn newMessages else pure (.failed failure)
    | .ok message => afterResponse config (newMessages ++ [.assistant message]) message

/-- One round of the inner loop of `_run_loop`. -/
def turn (config : LoopConfig) (rounds : Nat) (first : Bool) (newMessages pending : List Message) : Run TurnEnd := do
  if ← isAborted (.turnTop first pending) then emitAbortedTurn newMessages
  else if first then takeTurn config rounds newMessages pending
  else do
    emit .turnStart
    takeTurn config rounds newMessages pending

/-- What the outer loop of `_run_loop` polls before it stops. -/
def pollBeforeStop (config : LoopConfig) : Run (List Message) := do
  let mailbox ← getMailboxMessages config
  if mailbox.isEmpty then getFollowUpMessages config else pure mailbox

/-- `_run_loop` from its initial poll on. -/
def runLoop (config : LoopConfig) : Nat → Bool → List Message → List Message → Run (Except Failure (List Message))
  | 0, _, _, _ => Coroutine.stuck
  | rounds + 1, first, newMessages, pending => do
    match ← turn config rounds first newMessages pending with
    | .returned newMessages => pure (.ok newMessages)
    | .failed failure => pure (.error failure)
    | .proceed newMessages hasMoreToolCalls pending =>
      if hasMoreToolCalls || !pending.isEmpty then runLoop config rounds false newMessages pending
      else do
        let pending ← pollBeforeStop config
        if pending.isEmpty then do
          emit (.agentEnd newMessages)
          pure (.ok newMessages)
        else runLoop config rounds false newMessages pending

/-- `run_agent_loop`. -/
def runAgentLoop (config : LoopConfig) (rounds : Nat) (prompts : List Message) :
    Run (Except Failure (List Message)) := do
  emit .agentStart
  emit .turnStart
  deliver prompts
  let pending ← pollImmediateInputs config
  runLoop config rounds true prompts pending

/-- `run_agent_loop_continue`, from the messages of its context. -/
def runAgentLoopContinue (config : LoopConfig) (rounds : Nat) (context : List Message) :
    Run (Except Failure (List Message)) :=
  match context.getLast? with
  | none => pure (.error ⟨"Cannot continue: no messages in context", "", false⟩)
  | some (.assistant _) => pure (.error ⟨"Cannot continue from message role: assistant", "", false⟩)
  | some _ => runAgentLoop config rounds []

/-!
## Prompts and continuations

`agent/agent.py`: `prompt` and `continue_run` around one run of the loop. A run starts in a task of
its own, so its queues may change before it takes from them. The run options are the queue delivery
and the refusal of a checkpoint; the other invocation settings are left out.
-/

/-- `_public_run_failure_message` of a run that was not aborted. -/
def publicRunFailureMessage (failure : Failure) : String :=
  if failure.isAIError then failure.text else "Agent run failed."

/-- `_handle_run_failure`. -/
def handleRunFailure (failure : Failure) : Run Unit := do
  let aborted ← Coroutine.read World.abortSignal
  let message : AssistantMessage :=
    if aborted then ⟨[.text ""], .aborted, some "Request aborted by user"⟩
    else ⟨[.text ""], .error, some (publicRunFailureMessage failure)⟩
  Coroutine.modify fun w => { w with messages := w.messages ++ [.assistant message] }
  emit (.agentEnd [.assistant message])

/-- The queue a continuation takes its input from. -/
inductive QueuedInput where
  | mailbox
  | steering
  | followUp
  deriving DecidableEq

def QueuedInput.drain : QueuedInput → Run (List Message)
  | .mailbox => drainMailbox
  | .steering => drainSteering
  | .followUp => drainFollowUp

/-- The context a continuation runs in: a terminal error is dropped from it. -/
def continuationContext (messages : List Message) : List Message :=
  match messages.getLast? with
  | some (.assistant message) => if message.stopReason = .error then messages.dropLast else messages
  | _ => messages

/-- What a run does once it is admitted. -/
inductive Invocation where
  | prompt (messages : List Message)
  | takeQueued (queue : QueuedInput)
  | continuation
  deriving DecidableEq

/-- The `executor` of `_run_prompt_messages` and of `_run_continuation`. -/
def execute (config : LoopConfig) (rounds : Nat) : Invocation → Run (Except Failure (List Message))
  | .prompt messages => runAgentLoop config rounds messages
  | .takeQueued queue => do
    let taken ← queue.drain
    if taken.isEmpty then pure (.ok []) else runAgentLoop config rounds taken
  | .continuation => do
    let context ← Coroutine.read fun w => continuationContext w.messages
    runAgentLoopContinue config rounds context

/-- `_run_with_lifecycle`: the task starts, is admitted and runs its executor. -/
def runWithLifecycle (config : LoopConfig) (rounds : Nat) (invocation : Invocation) : Run Unit := do
  Coroutine.modify fun w =>
    { w with abortSignal := false, skipSteering := invocation = .takeQueued .steering }
  match ← wait with
  | .raised failure => handleRunFailure failure
  | _ =>
    match ← execute config rounds invocation with
    | .ok _ => pure ()
    | .error failure => handleRunFailure failure

/-- What `continue_run` comes to: a run, or its error. -/
def World.continueRun (w : World) (config : LoopConfig) : Except String Invocation :=
  match w.messages.getLast? with
  | none => .error "No messages to continue from"
  | some (.assistant message) =>
    if config.deliverQueuedInput && w.mailbox.hasItems then .ok (.takeQueued .mailbox)
    else if config.deliverQueuedInput && w.steering.hasItems then .ok (.takeQueued .steering)
    else if config.deliverQueuedInput && w.followUp.hasItems then .ok (.takeQueued .followUp)
    else if message.stopReason = .error then .ok .continuation
    else .error "Cannot continue from message role: assistant"
  | some _ => .ok .continuation

/-- What is done with an agent: a call while no run is active, or a run with all its ticks. -/
inductive AgentInput where
  | call (happening : Happening)
  | prompt (config : LoopConfig) (texts : List String) (rounds : Nat) (ticks : List Tick)
  | continueRun (config : LoopConfig) (rounds : Nat) (ticks : List Tick)

/-- The agent after an input, unless its run has not ended. -/
def World.invoke (w : World) : AgentInput → Option World
  | .call happening => some (w.happen happening)
  | .prompt config texts rounds ticks =>
    (runWithLifecycle config rounds (.prompt (Origin.prompt.tag texts)) w ticks).map fun done => done.2.1
  | .continueRun config rounds ticks =>
    match w.continueRun config with
    | .error _ => some w
    | .ok invocation => (runWithLifecycle config rounds invocation w ticks).map fun done => done.2.1

/-- The agent after any calls and runs, each of which has ended. -/
def World.invokeAll (w : World) (inputs : List AgentInput) : Option World := inputs.foldlM World.invoke w

/-- A message of an earlier conversation. -/
def Message.restored : Message → Message
  | .user _ text => .user .prompt text
  | .assistant message => .assistant message
  | .toolResult message => .toolResult message

/-- A new `Agent` with the messages of its initial state. -/
def World.initial (messages : List Message) (steeringMode followUpMode : DrainMode) : World where
  mailbox := ⟨.all, []⟩
  steering := ⟨steeringMode, []⟩
  followUp := ⟨followUpMode, []⟩
  messages := messages.map Message.restored
  abortSignal := false
  skipSteering := false
  tasks := []
  finalizedMessages := []
  history := []

end Loushang.Agent
