import Mathlib.Data.List.Basic
import Loushang.Lib.Coroutine

/-!
# Messages, tool results and events

`agent/types.py` and the parts of `ai/types.py` that the agent loop reads. Arguments and contents
are texts the loop never looks into; timestamps, usage, model identity and durations are left out.
-/
namespace Loushang.Agent

structure ToolCall where
  id : String
  name : String
  arguments : String
  deriving DecidableEq

inductive StopReason where
  | stop
  | length
  | toolUse
  | error
  | aborted
  deriving DecidableEq

/-- A part of a response: a tool call, or a part the loop passes on. -/
inductive ContentPart where
  | text (text : String)
  | toolCall (call : ToolCall)
  deriving DecidableEq

structure AssistantMessage where
  content : List ContentPart
  stopReason : StopReason
  errorMessage : Option String
  deriving DecidableEq

namespace AssistantMessage

/-- The `ToolCall` items of the content. -/
def toolCalls (message : AssistantMessage) : List ToolCall :=
  message.content.filterMap fun part =>
    match part with
    | .toolCall call => some call
    | .text _ => none

/-- `stop_reason in {"error", "aborted"}`. -/
def failed (message : AssistantMessage) : Bool :=
  message.stopReason = .error || message.stopReason = .aborted

/-- `_create_aborted_assistant_message`. -/
def abortedBy (errorMessage : String) : AssistantMessage := ⟨[.text ""], .aborted, some errorMessage⟩

end AssistantMessage

structure ToolResultMessage where
  toolCallId : String
  toolName : String
  content : String
  details : String
  isError : Bool
  terminate : Bool
  deriving DecidableEq

/-- Who gave a user message: the caller of `prompt`, or the queue it was taken from. -/
inductive Origin where
  | prompt
  | mailbox
  | steering
  | followUp
  deriving DecidableEq

inductive Message where
  | user (origin : Origin) (text : String)
  | assistant (message : AssistantMessage)
  | toolResult (message : ToolResultMessage)
  deriving DecidableEq

/-! ## Tool results -/

inductive ProjectionTarget where
  | transcript
  | event
  | hook
  deriving DecidableEq

def ProjectionTarget.name : ProjectionTarget → String
  | .transcript => "transcript"
  | .event => "event"
  | .hook => "hook"

/-- A target that a tool result cannot be projected to, and where. -/
structure ProjectionFailure where
  target : ProjectionTarget
  path : String
  deriving DecidableEq

/-- The details of a result under its projector: their text and what they cannot be projected to. -/
structure ToolDetails where
  text : String
  failures : List ProjectionFailure
  deriving DecidableEq

structure AgentToolResult where
  content : String
  details : ToolDetails
  terminate : Bool
  deriving DecidableEq

def AgentToolResult.failure? (result : AgentToolResult) (target : ProjectionTarget) : Option ProjectionFailure :=
  result.details.failures.find? (·.target = target)

/-- An exception: its text, its `tool_result_details` and whether it is an `AIError`. -/
structure Failure where
  text : String
  details : String
  isAIError : Bool

/-- `_create_error_tool_result` without an exception. -/
def errorToolResult (text : String) : AgentToolResult := ⟨text, ⟨"", []⟩, false⟩

/-- `_create_error_tool_result` of an exception. -/
def raisedToolResult (failure : Failure) (terminate : Bool) : AgentToolResult :=
  ⟨failure.text, ⟨failure.details, []⟩, terminate⟩

/-- `_projection_error_tool_result`. -/
def projectionErrorToolResult (failure : ProjectionFailure) (terminate : Bool) : AgentToolResult :=
  ⟨"Tool output could not be projected to " ++ failure.target.name ++ " JSON at " ++ failure.path ++ ".",
    ⟨"tool_output_projection_failed", []⟩, terminate⟩

/-- The result `_emit_aborted_tool_results` gives. -/
def abortedToolResult : AgentToolResult :=
  ⟨"Tool call aborted before completion.", ⟨"tool_call_aborted", []⟩, false⟩

/-- `BeforeToolCallResult`. -/
structure BeforeToolCallResult where
  block : Bool
  reason : Option String
  toolName : Option String
  arguments : Option String

/-- `AfterToolCallResult`; the details come with a projector, given or in force. -/
structure AfterToolCallResult where
  content : Option String
  details : Option ToolDetails
  isError : Option Bool
  terminate : Option Bool

/-- `AgentTool`, with its argument checks. -/
structure Tool where
  name : String
  sequential : Bool
  prepareArguments : String → Except Failure String
  validate : String → Except Failure String

/-! ## Events -/

inductive AgentEvent where
  | agentStart
  | turnStart
  | messageStart (message : Message)
  | messageUpdate (message : Message)
  | messageEnd (message : Message)
  | toolExecutionStart (call : ToolCall)
  | toolExecutionUpdate (call : ToolCall)
  | toolExecutionEnd (toolCallId toolName result : String) (isError : Bool)
  | turnEnd (message : AssistantMessage) (toolResults : List ToolResultMessage)
  | agentEnd (messages : List Message)

/-- What a provider streams, as far as `_collect_assistant_response` tells it apart. -/
inductive ProviderEvent where
  | start (draft : AssistantMessage)
  | delta (draft : AssistantMessage)
  | done
  | other

/-!
## The agent's state and what happens while a run waits

`agent/agent.py`: the queues, the abort signal and `_process_event`, and the execution tasks of a
tool batch. A run waits at each event it emits and for the provider, the hooks and the tools; what
the others did meanwhile and what came of the wait is one tick. Listeners do not raise.
-/

open Loushang.Lib

/-- `PendingMessageQueue`; every mode but `"all"` drains one message. -/
inductive DrainMode where
  | all
  | oneAtATime

structure PendingMessageQueue where
  mode : DrainMode
  messages : List String

namespace PendingMessageQueue

def enqueue (queue : PendingMessageQueue) (text : String) : PendingMessageQueue :=
  { queue with messages := queue.messages ++ [text] }

def hasItems (queue : PendingMessageQueue) : Bool := !queue.messages.isEmpty

/-- What `drain` takes and what it leaves. -/
def drain (queue : PendingMessageQueue) : List String × PendingMessageQueue :=
  match queue.mode with
  | .all => (queue.messages, { queue with messages := [] })
  | .oneAtATime => (queue.messages.take 1, { queue with messages := queue.messages.drop 1 })

end PendingMessageQueue

/-- `_ExecutedToolCallOutcome`. -/
structure ExecutedToolCallOutcome where
  result : AgentToolResult
  isError : Bool
  completedBeforeAbort : Bool
  deriving DecidableEq

inductive TaskState where
  | executing
  | finished (outcome : ExecutedToolCallOutcome)
  | cancelled
  deriving DecidableEq

/-- The task of a prepared call. -/
structure ExecutionTask where
  call : ToolCall
  arguments : String
  state : TaskState

/-- What others do while a run waits. A tool's own failure is a finished task. -/
inductive Happening where
  | steer (text : String)
  | followUp (text : String)
  | enqueueMailbox (text : String)
  | setSteeringMode (mode : DrainMode)
  | setFollowUpMode (mode : DrainMode)
  | abort
  | toolUpdated (index : Nat)
  | toolFinished (index : Nat) (outcome : Except Failure AgentToolResult)
  | toolCancelled (index : Nat)

/-- Where the loop looks at the abort signal, with what it holds there. -/
inductive Check where
  | turnTop (first : Bool) (pending : List Message)
  | beforeResponse
  | execution
  | beforeRequest
  | providerEvent (event : ProviderEvent) (addedDraft : Bool)
  | afterResponse (message : AssistantMessage)
  | beforeBatch
  | batch
  | afterBatch

/-- The history of an agent: what its runs did and what happened to it. A response is interrupted
when one of its waits fails. -/
inductive Action where
  | emitted (event : AgentEvent)
  | checked (check : Check) (aborted : Bool)
  | queued (origin : Origin) (text : String)
  | aborted
  | interrupted (addedDraft : Bool)
  | completed (call : ToolCall) (outcome : ExecutedToolCallOutcome)
  | cancelled (call : ToolCall)
  | finalized (call : ToolCall) (outcome : ExecutedToolCallOutcome) (message : ToolResultMessage)

/-- An `Agent` and its active run. -/
structure World where
  mailbox : PendingMessageQueue
  steering : PendingMessageQueue
  followUp : PendingMessageQueue
  messages : List Message
  abortSignal : Bool
  skipSteering : Bool
  tasks : List ExecutionTask
  finalizedMessages : List ToolResultMessage
  history : List Action

/-- What came of a wait. -/
inductive Arrival where
  | nothing
  | raised (failure : Failure)
  | cancelled
  | event (event : ProviderEvent)
  | exhausted
  | response (message : AssistantMessage)
  | beforeHook (result : Option BeforeToolCallResult)
  | afterHook (result : Option AfterToolCallResult)

structure Tick where
  meanwhile : List Happening
  arrival : Arrival

/-- `AgentLoopConfig`, as far as the loop reads it, and the tools of the context. -/
structure LoopConfig where
  tools : List Tool
  sequential : Bool
  hasBeforeToolCall : Bool
  hasAfterToolCall : Bool
  deliverQueuedInput : Bool

namespace World

def log (w : World) (action : Action) : World := { w with history := w.history ++ [action] }

/-- `_process_event`: the conversation grows at the end of a message. -/
def process (w : World) (event : AgentEvent) : World :=
  let w := w.log (.emitted event)
  match event with
  | .messageEnd message => { w with messages := w.messages ++ [message] }
  | _ => w

/-- The outcome of `_execute_prepared_tool_call` at the time it returns. -/
def executed (w : World) : Except Failure AgentToolResult → ExecutedToolCallOutcome
  | .ok result => ⟨result, false, !w.abortSignal⟩
  | .error failure => ⟨raisedToolResult failure false, true, !w.abortSignal⟩

def settle (w : World) (index : Nat) (task : ExecutionTask) (state : TaskState) : World :=
  { w with tasks := w.tasks.set index { task with state } }

/-- The task at an index while it executes. -/
def executing? (w : World) (index : Nat) : Option ExecutionTask :=
  w.tasks[index]?.filter (·.state = .executing)

/-- Updates come from executing tools; tasks are cancelled after an abort only. -/
def happen (w : World) : Happening → World
  | .steer text => { w.log (.queued .steering text) with steering := w.steering.enqueue text }
  | .followUp text => { w.log (.queued .followUp text) with followUp := w.followUp.enqueue text }
  | .enqueueMailbox text => { w.log (.queued .mailbox text) with mailbox := w.mailbox.enqueue text }
  | .setSteeringMode mode => { w with steering := { w.steering with mode } }
  | .setFollowUpMode mode => { w with followUp := { w.followUp with mode } }
  | .abort => { w.log .aborted with abortSignal := true }
  | .toolUpdated index =>
    match w.executing? index with
    | some task => w.process (.toolExecutionUpdate task.call)
    | none => w
  | .toolFinished index outcome =>
    match w.executing? index with
    | some task =>
      (w.log (.completed task.call (w.executed outcome))).settle index task (.finished (w.executed outcome))
    | none => w
  | .toolCancelled index =>
    match w.executing? index with
    | some task => if w.abortSignal then (w.log (.cancelled task.call)).settle index task .cancelled else w
    | none => w

end World

abbrev Run (A : Type) : Type := Coroutine World Tick A

/-- A wait, with what happens in it. -/
def wait : Run Arrival := do
  let tick ← Coroutine.input
  Coroutine.modify fun w => tick.meanwhile.foldl World.happen w
  pure tick.arrival

/-- `_emit` into `_process_event`, whose listeners are waited for. -/
def emit (event : AgentEvent) : Run Unit := do
  Coroutine.modify fun w => w.process event
  let _ ← wait
  pure ()

/-- `_is_aborted`. -/
def isAborted (check : Check) : Run Bool := do
  let aborted ← Coroutine.read World.abortSignal
  Coroutine.modify fun w => w.log (.checked check aborted)
  pure aborted

/-- `_ExecutionAborted`, or an exception. -/
inductive Fault where
  | executionAborted
  | raised (failure : Failure)

/-- `_is_user_abort_error`. -/
def isUserAbortError (failure : Failure) : Run Bool :=
  Coroutine.read fun w => w.abortSignal && failure.text = "Request aborted by user"

def userAbortError : Failure := ⟨"Request aborted by user", "", false⟩

/-! ## The queues as the loop's configuration sees them -/

def Origin.tag (origin : Origin) (texts : List String) : List Message := texts.map (Message.user origin)

def drainMailbox : Run (List Message) := do
  let taken ← Coroutine.read fun w => Origin.mailbox.tag w.mailbox.drain.1
  Coroutine.modify fun w => { w with mailbox := w.mailbox.drain.2 }
  pure taken

def drainSteering : Run (List Message) := do
  let taken ← Coroutine.read fun w => Origin.steering.tag w.steering.drain.1
  Coroutine.modify fun w => { w with steering := w.steering.drain.2 }
  pure taken

def drainFollowUp : Run (List Message) := do
  let taken ← Coroutine.read fun w => Origin.followUp.tag w.followUp.drain.1
  Coroutine.modify fun w => { w with followUp := w.followUp.drain.2 }
  pure taken

/-- `get_mailbox_messages`. -/
def getMailboxMessages (config : LoopConfig) : Run (List Message) :=
  if config.deliverQueuedInput then drainMailbox else pure []

/-- `get_steering_messages`, which a continuation from steering skips once. -/
def getSteeringMessages (config : LoopConfig) : Run (List Message) :=
  if config.deliverQueuedInput then do
    let skip ← Coroutine.read World.skipSteering
    if skip then do
      Coroutine.modify fun w => { w with skipSteering := false }
      pure []
    else drainSteering
  else pure []

/-- `get_follow_up_messages`. -/
def getFollowUpMessages (config : LoopConfig) : Run (List Message) :=
  if config.deliverQueuedInput then drainFollowUp else pure []

/-- `_poll_immediate_inputs`. -/
def pollImmediateInputs (config : LoopConfig) : Run (List Message) := do
  let mailbox ← getMailboxMessages config
  let steering ← getSteeringMessages config
  pure (mailbox ++ steering)

end Loushang.Agent
