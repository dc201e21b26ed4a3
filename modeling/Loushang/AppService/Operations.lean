import Loushang.Lib.Run
import Loushang.Lib.Text
import Mathlib.Logic.Function.Basic

/-!
# Accepted operations

From `appservice/_operations.py`. The event loop runs one piece of code at a time, so an input
names the piece that runs next: a call of the owner, a step of one task, a done callback. What an
operation does inside its steps reaches this owner only through further calls, which are inputs of
their own. The timeouts of the joins and the results of the operations are left out.
-/
namespace Loushang.AppService
open Loushang.Lib

/-- How far the task of `invoke` has come. -/
inductive TaskPhase where
  /-- No step yet. -/
  | unstarted
  /-- At `await published`, where an eager task factory leaves it. -/
  | waiting
  /-- Inside `await operation()`. -/
  | running
  /-- Done, with `_finished` still to be called; `entered` when `invoke` was ever entered. -/
  | ended (entered : Bool)
  /-- Done, and `_finished` has returned. -/
  | observed
  deriving DecidableEq

/-- `task.done()`. -/
def TaskPhase.done : TaskPhase → Bool
  | .ended _ => true
  | .observed => true
  | _ => false

/-- Neither the `finally` of `invoke` nor `_finished` has run. -/
def TaskPhase.holds : TaskPhase → Bool
  | .ended entered => !entered
  | .observed => false
  | _ => true

/-- `asyncio.Task` of one operation. -/
structure OperationTask where
  phase : TaskPhase
  cancelRequested : Bool := false

/-- `_Operation`, and which call of `admit` made it. -/
structure Operation where
  call : Nat
  control : Bool
  key : Option PyStr
  task : Option OperationTask := none
  cancellationSent : Bool := false

namespace Operation

/-- Its place in the lane has not been given back. -/
def holds (operation : Operation) : Bool := operation.task.any fun task => task.phase.holds

/-- Admitted, and its task is not done. -/
def unfinished (operation : Operation) : Bool := operation.task.any fun task => !task.phase.done

/-- Cancelled before its first step, with the done callback still to come. -/
def awaitsCallback (operation : Operation) : Bool :=
  operation.task.any fun task => task.phase == .ended false

def withPhase (operation : Operation) (phase : TaskPhase) : Operation :=
  { operation with task := some { phase } }

/-- `entry.cancellation_sent = True; task.cancel()`, unless it is done or was told before. -/
def cancel (operation : Operation) : Operation :=
  match operation.task with
  | none => operation
  | some task =>
    if task.phase.done || operation.cancellationSent then operation
    else { operation with task := some { task with cancelRequested := true }, cancellationSent := true }

/-- `task.cancel()` by who called `admit`. -/
def cancelTask (operation : Operation) : Operation :=
  match operation.task with
  | none => operation
  | some task =>
    if task.phase.done then operation
    else { operation with task := some { task with cancelRequested := true } }

end Operation

/-- How `asyncio.create_task` ends; an eager factory enters the coroutine at once. -/
inductive Creation where
  | created (eager : Bool)
  | raises (entered : Bool)

inductive AdmissionError where
  | invalidIdentity
  | serviceClosed
  | operationUnavailable
  | creationFailed

/-- `_OwnedAppOperations`, with every operation it ever made, the calls of `admit`, the calls
whose operation was called, and the releases that took place. -/
structure OwnedAppOperations where
  limits : Bool → Nat
  counts : Bool → Int := fun _ => 0
  entries : List Nat := []
  keys : List PyStr := []
  closing : Bool := false
  operations : List Operation := []
  calls : Nat := 0
  started : List Nat := []
  released : List Nat := []

namespace OwnedAppOperations

/-- The constructor. -/
def create (maxOrdinary maxControl : Int) : Option OwnedAppOperations :=
  if (1 ≤ maxOrdinary ∧ maxOrdinary ≤ 1024) ∧ (1 ≤ maxControl ∧ maxControl ≤ 1024) then
    some { limits := fun control => if control then maxControl.toNat else maxOrdinary.toNat }
  else none

/-- `pending_counts`. -/
def pendingCounts (s : OwnedAppOperations) : Int × Int := (s.counts false, s.counts true)

def validKey (key : Option PyStr) : Bool :=
  key.all fun text => text.truthy && decide (text.points.length ≤ 128)

def addKey : Option PyStr → List PyStr → List PyStr
  | none, keys => keys
  | some key, keys => key :: keys

def discardKey : Option PyStr → List PyStr → List PyStr
  | none, keys => keys
  | some key, keys => keys.filter (· ≠ key)

/-- `_release`. -/
def release (s : OwnedAppOperations) (i : Nat) : OwnedAppOperations :=
  match s.operations[i]? with
  | none => s
  | some operation =>
    if i ∈ s.entries then
      { s with
        entries := s.entries.erase i
        counts := Function.update s.counts operation.control (s.counts operation.control - 1)
        keys := discardKey operation.key s.keys
        released := i :: s.released }
    else s

def setOperation (s : OwnedAppOperations) (i : Nat) (operation : Operation) : OwnedAppOperations :=
  { s with operations := s.operations.set i operation }

/-- The entry of an admission, before its task is made. -/
def reserve (s : OwnedAppOperations) (control : Bool) (key : Option PyStr) : OwnedAppOperations :=
  { s with
    operations := s.operations ++ [{ call := s.calls, control, key }]
    calls := s.calls + 1
    entries := s.operations.length :: s.entries
    counts := Function.update s.counts control (s.counts control + 1)
    keys := addKey key s.keys }

/-- `admit`. A factory that raises after it has entered the coroutine closes it at
`await published`, which releases the entry a first time. -/
def admitCall (s : OwnedAppOperations) (control : Bool) (key : Option PyStr) (creation : Creation) :
    Except AdmissionError Nat × OwnedAppOperations :=
  let refused : OwnedAppOperations := { s with calls := s.calls + 1 }
  if !validKey key then (.error .invalidIdentity, refused)
  else if s.closing then (.error .serviceClosed, refused)
  else if (s.limits control : Int) ≤ s.counts control ∨ key.any (· ∈ s.keys) then
    (.error .operationUnavailable, refused)
  else
    let i := s.operations.length
    let reserved := s.reserve control key
    match creation with
    | .raises entered =>
      let closed := if entered then reserved.release i else reserved
      (.error .creationFailed, closed.release i)
    | .created eager =>
      let entry : Operation := { call := s.calls, control, key }
      (.ok i, reserved.setOperation i (entry.withPhase (if eager then .waiting else .unstarted)))

/-- What one step of an operation comes to: it waits for something, or it returns or raises. -/
inductive StepEnd where
  | suspends
  | ends

/-- A step of the task of operation `i`. A task that is told to cancel before its first step ends
without entering `invoke`; one that waits for `published` ends through its `finally`. -/
def stepTask (s : OwnedAppOperations) (i : Nat) (stepEnd : StepEnd) : OwnedAppOperations :=
  match s.operations[i]? with
  | none => s
  | some operation =>
    match operation.task with
    | none => s
    | some task =>
      if task.phase.done then s
      else if task.phase = .unstarted ∧ task.cancelRequested then
        s.setOperation i (operation.withPhase (.ended false))
      else if task.phase = .waiting ∧ task.cancelRequested then
        (s.release i).setOperation i (operation.withPhase (.ended true))
      else
        let called := if task.phase = .running then s else { s with started := operation.call :: s.started }
        match stepEnd with
        | .suspends => called.setOperation i (operation.withPhase .running)
        | .ends => (called.release i).setOperation i (operation.withPhase (.ended true))

/-- The done callback `_finished`, which the loop calls some time after the task is done. -/
def finished (s : OwnedAppOperations) (i : Nat) : OwnedAppOperations :=
  match s.operations[i]? with
  | none => s
  | some operation =>
    match operation.task with
    | some { phase := .ended _, .. } => (s.release i).setOperation i (operation.withPhase .observed)
    | _ => s

def modify (s : OwnedAppOperations) (i : Nat) (f : Operation → Operation) : OwnedAppOperations :=
  match s.operations[i]? with
  | none => s
  | some operation => s.setOperation i (f operation)

/-- `cancel_ordinary` and `cancel_sessions`, which differ in the entries they pick. -/
def cancelEntries (s : OwnedAppOperations) (picks : Operation → Bool) : List Nat → OwnedAppOperations
  | [] => s
  | i :: rest =>
    (s.modify i fun operation => if picks operation then operation.cancel else operation).cancelEntries
      picks rest

def cancelOrdinary (s : OwnedAppOperations) : OwnedAppOperations :=
  s.cancelEntries (fun operation => !operation.control) s.entries

def cancelSessions (s : OwnedAppOperations) (sessionIds : List PyStr) : OwnedAppOperations :=
  s.cancelEntries (fun operation => operation.key.any (· ∈ sessionIds)) s.entries

/-- The tasks `join_sessions` waits for. -/
def sessionTasks (s : OwnedAppOperations) (sessionIds : List PyStr) : List Nat :=
  s.entries.filter fun i => (s.operations[i]?).any fun operation =>
    operation.key.any (· ∈ sessionIds) && operation.task.isSome

/-- The loop of `_close_once`, up to an entry that has no task. -/
def closeEntries (s : OwnedAppOperations) : List Nat → OwnedAppOperations
  | [] => s
  | i :: rest =>
    match (s.operations[i]?).bind Operation.task with
    | none => s
    | some _ => (s.modify i Operation.cancel).closeEntries rest

end OwnedAppOperations

/-- What runs next. -/
inductive OperationInput where
  | admitCall (control : Bool) (key : Option PyStr) (creation : Creation)
  | step (i : Nat) (stepEnd : OwnedAppOperations.StepEnd)
  | finished (i : Nat)
  | cancelTask (i : Nat)
  | cancelOrdinary
  | cancelSessions (sessionIds : List PyStr)
  | joinSessions (sessionIds : List PyStr)
  /-- `close`, up to its wait. -/
  | close
  /-- `_close_once`, up to its wait. -/
  | closeOnce

inductive OperationAnswer where
  | admitted (outcome : Except AdmissionError Nat)
  | joins (tasks : List Nat)
  | done

open OwnedAppOperations in
def operationMachine : Machine OwnedAppOperations OperationInput OperationAnswer where
  step s
    | .admitCall control key creation =>
      let (outcome, after) := s.admitCall control key creation
      (.admitted outcome, after)
    | .step i stepEnd => (.done, s.stepTask i stepEnd)
    | .finished i => (.done, s.finished i)
    | .cancelTask i => (.done, s.modify i Operation.cancelTask)
    | .cancelOrdinary => (.done, s.cancelOrdinary)
    | .cancelSessions sessionIds => (.done, s.cancelSessions sessionIds)
    | .joinSessions sessionIds => (.joins (s.sessionTasks sessionIds), s)
    | .close => (.done, { s with closing := true })
    | .closeOnce => (.done, s.closeEntries s.entries)

end Loushang.AppService
