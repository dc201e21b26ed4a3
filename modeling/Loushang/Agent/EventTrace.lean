import Loushang.Agent.Stable

/-!
# Traces of events

A trace of one run is read event by event: what is open, and which messages have ended. The actions
that spoil a trace are told apart from the orderly ones.
-/
namespace Loushang.Agent
open Loushang.Lib

inductive Phase where
  | before
  | running
  | ended
  deriving DecidableEq

/-- What a trace has open, and the messages that have ended. -/
structure TraceState where
  phase : Phase
  turnOpen : Bool
  message : Option Message
  tools : List String
  ended : List Message
  deriving DecidableEq

/-- A response may grow between the start and the end of its message. -/
def Message.continues (message started : Message) : Bool :=
  match started, message with
  | .assistant _, .assistant _ => true
  | _, _ => message = started

namespace TraceState

def start : TraceState := ⟨.before, false, none, [], []⟩

/-- The next state, unless the event is out of place. -/
def step (s : TraceState) : AgentEvent → Option TraceState
  | .agentStart => if s.phase = .before then some { s with phase := .running } else none
  | .turnStart =>
    if s.phase = .running ∧ s.turnOpen = false ∧ s.message = none then some { s with turnOpen := true } else none
  | .messageStart message =>
    if s.phase = .running ∧ s.turnOpen = true ∧ s.message = none then some { s with message := some message }
    else none
  | .messageUpdate message =>
    if s.phase = .running ∧ s.message.any message.continues then some { s with message := some message } else none
  | .messageEnd message =>
    if s.phase = .running ∧ s.message.any message.continues then
      some { s with message := none, ended := s.ended ++ [message] }
    else none
  | .toolExecutionStart call =>
    if s.phase = .running ∧ s.turnOpen = true ∧ call.id ∉ s.tools then some { s with tools := call.id :: s.tools }
    else none
  | .toolExecutionUpdate _ => if s.phase = .running then some s else none
  | .toolExecutionEnd id _ _ _ =>
    if s.phase = .running ∧ id ∈ s.tools then some { s with tools := s.tools.filter (· ≠ id) } else none
  | .turnEnd _ _ =>
    if s.phase = .running ∧ s.turnOpen = true ∧ s.message = none ∧ s.tools = [] then
      some { s with turnOpen := false }
    else none
  | .agentEnd messages =>
    if s.phase = .running ∧ s.turnOpen = false ∧ s.message = none ∧ messages = s.ended then
      some { s with phase := .ended }
    else none

end TraceState

/-- A trace that starts with the agent's start, ends with its only end, and whose ended messages are
those the run returns. -/
def WellFormedTrace (events : List AgentEvent) (newMessages : List Message) : Prop :=
  events.foldlM TraceState.step TraceState.start = some ⟨.ended, false, none, [], newMessages⟩

instance (events : List AgentEvent) (newMessages : List Message) : Decidable (WellFormedTrace events newMessages) :=
  inferInstanceAs (Decidable (_ = _))

def Action.event? : Action → Option AgentEvent
  | .emitted event => some event
  | _ => none

/-- The abort is not seen at the top of a later turn nor around tool calls, no tool is cancelled, and
no response breaks off or gets out of order once its draft is shown. -/
def Action.orderly : Action → Bool
  | .checked (.turnTop first _) seen => first || !seen
  | .checked .beforeBatch seen => !seen
  | .checked .afterBatch seen => !seen
  | .checked (.providerEvent event addedDraft) seen =>
    if seen then !addedDraft
    else
      match event with
      | .start _ => !addedDraft
      | .delta _ => addedDraft
      | .done => true
      | .other => true
  | .interrupted addedDraft => !addedDraft
  | .cancelled _ => false
  | _ => true

namespace World

def events (w : World) : List AgentEvent := w.history.filterMap Action.event?

def trace (w : World) : Option TraceState := w.events.foldlM TraceState.step TraceState.start

def Orderly (w : World) : Prop := ∀ action ∈ w.history, action.orderly = true

instance (w : World) : Decidable w.Orderly := inferInstanceAs (Decidable (∀ action ∈ w.history, action.orderly = true))

end World

section

variable {w w' : World}

theorem World.trace_log (w : World) (action : Action) :
    (w.log action).trace =
      match action.event? with
      | some event => w.trace.bind fun s => s.step event
      | none => w.trace := by
  unfold World.trace World.events World.log
  rw [List.filterMap_append, List.foldlM_append]
  cases found : action.event? with
  | none => simp [found]
  | some event => simp [found]

variable {action : Action}

theorem World.orderly_log : (w.log action).Orderly ↔ w.Orderly ∧ action.orderly = true := by
  unfold World.Orderly World.log
  constructor
  · intro orderly
    exact ⟨fun other member => orderly other (List.mem_append_left _ member),
      orderly action (List.mem_append_right _ (List.mem_singleton.mpr rfl))⟩
  · rintro ⟨earlier, last⟩ other member
    rcases List.mem_append.mp member with early | late
    · exact earlier other early
    · rw [List.mem_singleton.mp late]
      exact last

/-- While the history is orderly, the trace is in a state of a kind, with the run under way. -/
def Traced (good : TraceState → Prop) (w : World) : Prop :=
  w.Orderly → ∃ s, w.trace = some s ∧ s.phase = .running ∧ good s

variable {good good' : TraceState → Prop}

theorem Traced.same (traced : Traced good w) (history : w'.history = w.history) : Traced good w' := by
  unfold Traced World.Orderly World.trace World.events
  rw [history]
  exact traced

theorem Traced.mono (traced : Traced good w) (weaker : ∀ s, good s → good' s) : Traced good' w := by
  intro orderly
  obtain ⟨s, isTrace, running, holds⟩ := traced orderly
  exact ⟨s, isTrace, running, weaker s holds⟩

/-- An action that is no event. -/
theorem Traced.log (traced : Traced good w) (silent : action.event? = none) : Traced good (w.log action) := by
  intro orderly
  obtain ⟨s, isTrace, running, holds⟩ := traced (World.orderly_log.mp orderly).1
  refine ⟨s, ?_, running, holds⟩
  rw [World.trace_log, silent]
  exact isTrace

/-- An action that spoils the trace. -/
theorem Traced.spoiled (spoils : action.orderly = false) : Traced good (w.log action) := by
  intro orderly
  rw [(World.orderly_log.mp orderly).2] at spoils
  cases spoils

theorem traced_of_mem (member : action ∈ w.history) (spoils : action.orderly = false) : Traced good w := by
  intro orderly
  rw [orderly action member] at spoils
  cases spoils

theorem World.history_process (w : World) (event : AgentEvent) :
    (w.process event).history = (w.log (.emitted event)).history := by
  unfold World.process
  split
  · rfl
  · rfl

variable {event : AgentEvent}

theorem Traced.process (traced : Traced good w)
    (fits : ∀ s, s.phase = .running → good s → ∃ s', s.step event = some s' ∧ s'.phase = .running ∧ good' s') :
    Traced good' (w.process event) := by
  have logged : Traced good' (w.log (.emitted event)) := by
    intro orderly
    obtain ⟨s, isTrace, running, holds⟩ := traced (World.orderly_log.mp orderly).1
    obtain ⟨s', stepped, running', holds'⟩ := fits s running holds
    refine ⟨s', ?_, running', holds'⟩
    rw [World.trace_log]
    show w.trace.bind (fun s => s.step event) = some s'
    rw [isTrace]
    exact stepped
  exact logged.same (w.history_process event)

/-- Others only add updates of executing tools. -/
theorem quiet_traced (good : TraceState → Prop) : Quiet (Traced good) where
  checked w check aborted _ traced := traced.log rfl
  happen w happening traced := by
    have updated : ∀ call, Traced good (w.process (.toolExecutionUpdate call)) := fun call =>
      traced.process fun s running holds => ⟨s, if_pos running, running, holds⟩
    cases happening with
    | steer text => exact (traced.log rfl).same rfl
    | followUp text => exact (traced.log rfl).same rfl
    | enqueueMailbox text => exact (traced.log rfl).same rfl
    | setSteeringMode mode => exact traced.same rfl
    | setFollowUpMode mode => exact traced.same rfl
    | abort => exact (traced.log rfl).same rfl
    | toolUpdated index =>
      unfold World.happen
      dsimp only
      split
      · exact updated _
      · exact traced
    | toolFinished index outcome =>
      unfold World.happen
      dsimp only
      split
      · exact (traced.log rfl).same rfl
      · exact traced
    | toolCancelled index =>
      unfold World.happen
      dsimp only
      split
      · split
        · exact (traced.log rfl).same rfl
        · exact traced
      · exact traced

/-- An event that fits, and the wait behind it. -/
theorem Traced.emit (traced : Traced good w) (good' : TraceState → Prop)
    (fits : ∀ s, s.phase = .running → good s → ∃ s', s.step event = some s' ∧ s'.phase = .running ∧ good' s') :
    (emit event).Ensures w fun _ w' => Traced good' w' :=
  .bind (.modify (.bind (((quiet_traced good').wait _ (traced.process fits)).mono fun _ _ traced => .pure traced)))

end

end Loushang.Agent
