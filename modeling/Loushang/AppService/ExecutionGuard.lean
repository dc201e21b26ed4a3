import Loushang.AppService.Executions
import Loushang.Lib.Run

/-!
# The execution guard

From `appservice/execution_guard.py`. An input is a call of the guard or one step of a task it made;
a step comes with what the Product does in it, up to where it waits again. Of the calls that the
Product or an observer makes from inside such a step, an interrupt before `run` has ended and a start
when the terminal observation is delivered are part of the input; the others are refused or set
nothing but `interrupt_requested`, and are left out, as are turn interrupts, waiters, and exceptions
that stop the loop.
-/
namespace Loushang.AppService
open Loushang.Lib

/-- Where a task stands; the settlement is of the work that was current when it was asked for. -/
inductive GuardPoint where
  | unstarted (retry : Bool)
  | inRun
  | inSettle (work : Nat)
  | done
  deriving DecidableEq

structure GuardTask where
  point : GuardPoint
  cancelRequested : Bool := false

/-- What happens to an execution. -/
inductive GuardEvent where
  | accepted
  /-- The observation `RUNNING`. -/
  | observedRunning
  | ran
  | settleFailed
  | settled
  /-- `_commit` raised before it set the state. -/
  | commitFailed
  /-- A cancellation that an interrupt asked for reaches the settlement. -/
  | settleCancelled
  | published (status : ExecutionStatus)
  /-- The terminal observation. -/
  | observedEnd (status : ExecutionStatus)
  deriving DecidableEq

/-- `ExecutionGuardV1`. Works are numbered by the start that brought them. -/
structure ExecutionGuard where
  state : Option ExecutionState := none
  observation : ExecutionObservation := .idle
  work : Nat := 0
  tasks : List GuardTask := []
  current : Option Nat := none
  entered : Bool := false
  candidate : Option ExecutionOutcome := none
  debt : Bool := false
  log : List (Nat × GuardEvent) := []

/-- What one step of `run` comes to. -/
inductive RunEnd where
  | suspends
  | returns (outcome : ExecutionOutcome)
  | returnsOther
  | cancelled
  | raises (code : Option AppErrorCode)

/-- What one step of `settle` comes to; a cancellation counts as raising. -/
inductive SettleEnd where
  | suspends
  | succeeds
  | raises

/-- What the Product does in one step of a task. -/
structure GuardScript where
  interrupts : Bool := false
  run : RunEnd := .suspends
  settle : SettleEnd := .suspends
  /-- What `source_cursor` returns, none where it raises. -/
  cursor : Option Nat := none
  /-- The execution an observer starts when it is told the terminal status. -/
  restarts : Option PyStr := none

namespace ExecutionGuard

def happen (g : ExecutionGuard) (work : Nat) (event : GuardEvent) : ExecutionGuard :=
  { g with log := g.log ++ [(work, event)] }

def setTask (g : ExecutionGuard) (i : Nat) (point : GuardPoint) : ExecutionGuard :=
  { g with tasks := g.tasks.modify i fun task => { task with point } }

/-- `start`, whose task may not be made. -/
def start (g : ExecutionGuard) (executionId : PyStr) (created : Bool) : Except AppErrorCode Unit × ExecutionGuard :=
  if g.state.any fun state => !state.status.terminal || state.executionId = executionId then
    (.error .operationUnavailable, g)
  else if !created then (.error .sessionUnavailable, g)
  else
    let accepted : ExecutionGuard := { g with
      state := some (.accepted executionId)
      work := g.work + 1
      tasks := g.tasks ++ [{ point := .unstarted false }]
      current := some g.tasks.length
      entered := false
      candidate := none
      debt := false }
    (.ok (), accepted.happen (g.work + 1) .accepted)

/-- `task.cancel()`. -/
def cancelTask (g : ExecutionGuard) (i : Nat) : ExecutionGuard :=
  { g with
    tasks := g.tasks.modify i fun task =>
      if task.point = .done then task else { task with cancelRequested := true } }

/-- `interrupt` of a whole execution. -/
def interrupt (g : ExecutionGuard) (executionId : PyStr) : Bool × ExecutionGuard :=
  match g.state with
  | none => (false, g)
  | some state =>
    if state.executionId ≠ executionId ∨ state.status.terminal = true then (false, g)
    else if state.interruptRequested then (true, g)
    else
      let asked := { g with state := some state.requested }
      if g.entered ∧ g.candidate.isNone then
        match g.current with
        | none => (true, asked)
        | some i => (true, asked.cancelTask i)
      else (true, asked)

/-- `retry_settlement`, up to its wait. -/
def retrySettlement (g : ExecutionGuard) (executionId : PyStr) (created : Bool) :
    Except AppErrorCode Unit × ExecutionGuard :=
  if g.state.any fun state => state.executionId = executionId then
    if g.debt then
      if created then
        (.ok (), { g with
          debt := false
          tasks := g.tasks ++ [{ point := .unstarted true }]
          current := some g.tasks.length })
      else (.error .sessionUnavailable, g)
    else (.ok (), g)
  else (.error .notFound, g)

/-- `_counter` accepts it. -/
def counterLimit : Nat := 2 ^ 53 - 1

/-- `_commit`, and whether it raised. -/
def commit (g : ExecutionGuard) (script : GuardScript) : Bool × ExecutionGuard :=
  match g.state, g.candidate with
  | some state, some outcome =>
    let ended : ExecutionGuard := { g with state := some (state.finished outcome), debt := false }
    let published := ended.happen g.work (.published outcome.status)
    if g.entered then
      match script.cursor.filter (· ≤ counterLimit) with
      | none => (true, g.happen g.work .commitFailed)
      | some cursor =>
        let told := { published with observation := .ended state.executionId outcome.status cursor }
        let told := told.happen g.work (.observedEnd outcome.status)
        match script.restarts with
        | none => (false, told)
        | some executionId => (false, (told.start executionId true).2)
    else (false, published)
  | _, _ => (true, g.happen g.work .commitFailed)

/-- What follows `await self._work.settle()`. -/
def settleStep (g : ExecutionGuard) (i work : Nat) (script : GuardScript) : ExecutionGuard :=
  match script.settle with
  | .suspends => g.setTask i (.inSettle work)
  | .raises => ({ g.happen work .settleFailed with debt := true } : ExecutionGuard).setTask i .done
  | .succeeds =>
    let (raised, committed) := (g.happen work .settled).commit script
    -- the assertion behind `_commit` fails where an observer has started another execution
    if raised ∨ committed.candidate.isNone then ({ committed with debt := true } : ExecutionGuard).setTask i .done
    else committed.setTask i .done

def runFailed (code : Option AppErrorCode) : ExecutionOutcome :=
  ⟨.failed, some (PyStr.ofString "execution_failed"), some (code.getD .sessionUnavailable), by decide, by simp⟩

/-- The outcome `_drive` remembers, unless `run` waits. -/
def RunEnd.candidate? : RunEnd → Option ExecutionOutcome
  | .suspends => none
  | .returns outcome => some outcome
  | .returnsOther => some (runFailed none)
  | .cancelled => some .interrupted
  | .raises code => some (runFailed code)

/-- What follows `await self._work.run(self._control)`. -/
def runStep (g : ExecutionGuard) (i : Nat) (script : GuardScript) : ExecutionGuard :=
  let heard := if script.interrupts then
      match g.state with
      | none => g
      | some state => (g.interrupt state.executionId).2
    else g
  match RunEnd.candidate? script.run with
  | none => heard.setTask i .inRun
  | some outcome => ({ heard with candidate := some outcome } : ExecutionGuard).settleStep i g.work script

/-- The first step of `_drive`. -/
def drive (g : ExecutionGuard) (i : Nat) (script : GuardScript) : ExecutionGuard :=
  match g.state with
  | none => g.setTask i .done
  | some state =>
    if state.interruptRequested then
      ((({ g with candidate := some .interrupted } : ExecutionGuard).commit script).2).setTask i .done
    else
      let entered : ExecutionGuard := { g with
        entered := true
        state := some state.entered
        observation := .running state.executionId }
      ((entered.happen g.work .observedRunning).happen g.work .ran).runStep i script

/-- One step of a task. A cancellation asked for is delivered at the await it stands at. -/
def stepTask (g : ExecutionGuard) (i : Nat) (script : GuardScript) : ExecutionGuard :=
  match g.tasks[i]? with
  | none => g
  | some task =>
    let resumed := { g with tasks := g.tasks.modify i fun task => { task with cancelRequested := false } }
    match task.point with
    | .done => g
    | .unstarted false => resumed.drive i script
    | .unstarted true => resumed.settleStep i g.work script
    | .inRun => resumed.runStep i script
    | .inSettle work =>
      if task.cancelRequested then (resumed.happen work .settleCancelled).settleStep i work script
      else resumed.settleStep i work script

end ExecutionGuard

inductive GuardInput where
  | start (executionId : PyStr) (created : Bool)
  | interrupt (executionId : PyStr)
  | retrySettlement (executionId : PyStr) (created : Bool)
  | step (i : Nat) (script : GuardScript)

inductive GuardAnswer where
  | called (outcome : Except AppErrorCode Unit)
  | interrupted (accepted : Bool)
  | done

def guardMachine : Machine ExecutionGuard GuardInput GuardAnswer where
  step g
    | .start executionId created =>
      let (outcome, after) := g.start executionId created
      (.called outcome, after)
    | .interrupt executionId =>
      let (accepted, after) := g.interrupt executionId
      (.interrupted accepted, after)
    | .retrySettlement executionId created =>
      let (outcome, after) := g.retrySettlement executionId created
      (.called outcome, after)
    | .step i script => (.done, g.stepTask i script)

end Loushang.AppService
