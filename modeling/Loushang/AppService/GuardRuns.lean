import Loushang.AppService.ExecutionGuard
import Loushang.Lib.Lists

/-!
# The execution guard over runs

Every execution tells one of a few stories: it is interrupted before it is entered, or it is
entered, runs once, and is settled until a settlement is committed. The guard's fields say how far
the story of the current execution has come. The runs are those in which neither the Product nor an
observer calls the guard from inside a step of its task.
-/
namespace Loushang.AppService
open Loushang.Lib

/-- An attempt to settle that published nothing. -/
inductive Attempt where
  | failed
  /-- The settlement succeeded; the commit raised. -/
  | uncommitted

def Attempt.events : Attempt → List GuardEvent
  | .failed => [.settleFailed]
  | .uncommitted => [.settled, .commitFailed]

/-- How far an execution has come. -/
inductive Progress where
  | accepted
  | running
  | settling (attempts : List Attempt)
  | indebted (attempts : List Attempt)
  | ended (attempts : List Attempt) (status : ExecutionStatus)
  | skipped

namespace Progress

def finished : Progress → Bool
  | ended _ _ => true
  | skipped => true
  | _ => false

def entering : List GuardEvent := [.accepted, .observedRunning, .ran]

def events : Progress → List GuardEvent
  | accepted => [.accepted]
  | running => entering
  | settling attempts => entering ++ attempts.flatMap Attempt.events
  | indebted attempts => entering ++ attempts.flatMap Attempt.events
  | ended attempts status =>
    entering ++ attempts.flatMap Attempt.events ++ [.settled, .published status, .observedEnd status]
  | skipped => [.accepted, .published .interrupted]

end Progress

/-! ## The log -/

/-- What happened to one execution. -/
def historyOf (log : List (Nat × GuardEvent)) (n : Nat) : List GuardEvent :=
  (log.filter fun entry => entry.1 = n).map Prod.snd

@[simp] theorem historyOf_nil (n : Nat) : historyOf [] n = [] := rfl

theorem historyOf_append (front back : List (Nat × GuardEvent)) (n : Nat) :
    historyOf (front ++ back) n = historyOf front n ++ historyOf back n := by
  unfold historyOf
  rw [List.filter_append, List.map_append]

theorem historyOf_single (w n : Nat) (event : GuardEvent) :
    historyOf [(w, event)] n = if w = n then [event] else [] := by
  unfold historyOf
  by_cases same : w = n <;> simp [same]

theorem mem_historyOf {log : List (Nat × GuardEvent)} {n : Nat} {event : GuardEvent} :
    event ∈ historyOf log n ↔ (n, event) ∈ log := by
  unfold historyOf
  simp

/-- The log up to an execution that has come to `progress`. -/
structure Logged (log : List (Nat × GuardEvent)) (work : Nat) (progress : Progress) : Prop where
  positive : 1 ≤ work
  current : historyOf log work = progress.events
  past : ∀ n, 1 ≤ n → n < work → ∃ before : Progress, before.finished = true ∧ historyOf log n = before.events
  bounds : ∀ entry ∈ log, 1 ≤ entry.1 ∧ entry.1 ≤ work
  ordered : log.Pairwise fun one other => one.1 ≤ other.1

section Log
variable {log : List (Nat × GuardEvent)} {work : Nat} {progress after : Progress}

theorem Logged.extend (logged : Logged log work progress) (events : List GuardEvent)
    (grows : after.events = progress.events ++ events) :
    Logged (log ++ events.map fun event => (work, event)) work after := by
  obtain ⟨positive, current, past, bounds, ordered⟩ := logged
  have mine : historyOf (events.map fun event => (work, event)) work = events := by
    unfold historyOf
    rw [List.filter_map, List.map_map]
    simp [Function.comp_def]
  have others : ∀ n, n < work → historyOf (events.map fun event => (work, event)) n = [] := by
    intro n below
    unfold historyOf
    rw [List.filter_map]
    have apart : ∀ event ∈ events, ¬ ((fun entry : Nat × GuardEvent => decide (entry.1 = n)) ∘
        fun event => (work, event)) event = true := by
      intro event _
      simp
      omega
    rw [List.filter_eq_nil_iff.mpr apart]
    rfl
  refine ⟨positive, ?_, ?_, ?_, ?_⟩
  · rw [historyOf_append, current, mine, grows]
  · intro n low below
    obtain ⟨before, done, same⟩ := past n low below
    exact ⟨before, done, by rw [historyOf_append, others n below, List.append_nil, same]⟩
  · intro entry member
    rcases List.mem_append.mp member with old | new
    · exact bounds entry old
    · obtain ⟨event, _, rfl⟩ := List.mem_map.mp new
      exact ⟨positive, Nat.le_refl _⟩
  · rw [List.pairwise_append]
    refine ⟨ordered, ?_, ?_⟩
    · rw [List.pairwise_map]
      exact List.pairwise_of_forall fun _ _ => Nat.le_refl _
    · intro entry old other new
      obtain ⟨event, _, rfl⟩ := List.mem_map.mp new
      exact (bounds entry old).2

/-- The first entry of the next execution. -/
theorem Logged.next (logged : Logged log work progress) (done : progress.finished = true) :
    Logged (log ++ [(work + 1, .accepted)]) (work + 1) .accepted := by
  obtain ⟨positive, current, past, bounds, ordered⟩ := logged
  have nothing : historyOf log (work + 1) = [] := by
    unfold historyOf
    rw [List.filter_eq_nil_iff.mpr, List.map_nil]
    intro entry member
    have bound := (bounds entry member).2
    simp
    omega
  refine ⟨by omega, ?_, ?_, ?_, ?_⟩
  · rw [historyOf_append, nothing, historyOf_single, if_pos rfl]
    rfl
  · intro n low below
    rw [historyOf_append, historyOf_single, if_neg (by omega), List.append_nil]
    by_cases last : n = work
    · exact ⟨progress, done, last ▸ current⟩
    · exact past n low (by omega)
  · refine forall_mem_snoc (fun entry old => ?_) ?_
    · have bound := bounds entry old
      omega
    · exact ⟨Nat.succ_pos _, Nat.le_refl _⟩
  · rw [List.pairwise_append]
    refine ⟨ordered, List.pairwise_singleton _ _, ?_⟩
    intro entry old other new
    rw [List.mem_singleton.mp new]
    have bound := (bounds entry old).2
    omega

end Log

/-! ## The fields -/

namespace ExecutionGuard

structure Fields (g : ExecutionGuard) (status : ExecutionStatus) (entered decided debt : Bool) : Prop where
  state : ∃ state, g.state = some state ∧ state.status = status
  entered : g.entered = entered
  decided : g.candidate.isSome = decided
  debt : g.debt = debt

def Resting (g : ExecutionGuard) : Prop := ∀ task ∈ g.tasks, task.point = .done

/-- The last task is the only one at work. -/
def Live (g : ExecutionGuard) (task : GuardTask) : Prop :=
  ∃ rest, g.tasks = rest ++ [task] ∧ (∀ other ∈ rest, other.point = .done) ∧ g.current = some rest.length

/-- What the fields say when the current execution has come to `progress`. -/
def At (g : ExecutionGuard) : Progress → Prop
  | .accepted => Fields g .accepted false false false ∧ Live g ⟨.unstarted false, false⟩
  | .running => Fields g .running true false false ∧ ∃ cancel, Live g ⟨.inRun, cancel⟩
  | .settling _ => Fields g .running true true false ∧
      ∃ point, (point = .unstarted true ∨ point = .inSettle g.work) ∧ Live g ⟨point, false⟩
  | .indebted _ => Fields g .running true true true ∧ Resting g
  | .ended _ status => (Fields g status true true false ∧ status.terminal = true) ∧ Resting g
  | .skipped => Fields g .interrupted false true false ∧ Resting g

/-- Nothing was started yet, or the log and the fields agree on the current execution. -/
def Kept (g : ExecutionGuard) : Prop :=
  (g.state = none ∧ g.work = 0 ∧ g.tasks = [] ∧ g.log = [] ∧ g.debt = false) ∨
    ∃ progress, Logged g.log g.work progress ∧ At g progress

/-- A step in which nobody calls the guard. -/
def Plain (_ : ExecutionGuard) : GuardInput → Prop
  | .step _ script => script.interrupts = false ∧ script.restarts = none
  | _ => True

instance (g : ExecutionGuard) (input : GuardInput) : Decidable (Plain g input) := by
  cases input <;> unfold Plain <;> infer_instance

section Steps
variable {g : ExecutionGuard} {rest : List GuardTask} {task : GuardTask} {script : GuardScript}

theorem modify_last (rest : List GuardTask) (task : GuardTask) (f : GuardTask → GuardTask) :
    (rest ++ [task]).modify rest.length f = rest ++ [f task] := by
  induction rest with
  | nil => rfl
  | cons other rest ih =>
    rw [List.cons_append, List.length_cons, List.modify_succ_cons, ih]
    rfl

theorem resting_done {rest : List GuardTask} (done : ∀ other ∈ rest, other.point = .done) (cancel : Bool) :
    ∀ other ∈ rest ++ [⟨.done, cancel⟩], other.point = .done := by
  intro other member
  rcases List.mem_append.mp member with old | new
  · exact done other old
  · rw [List.mem_singleton.mp new]

theorem commit_committed {state : ExecutionState} {outcome : ExecutionOutcome} {cursor : Nat}
    (found : g.state = some state) (candidate : g.candidate = some outcome) (entered : g.entered = true)
    (valid : script.cursor.filter (· ≤ counterLimit) = some cursor) (plain : script.restarts = none) :
    g.commit script = (false, { g with
      state := some (state.finished outcome)
      debt := false
      observation := .ended state.executionId outcome.status cursor
      log := g.log ++ [(g.work, .published outcome.status)] ++ [(g.work, .observedEnd outcome.status)] }) := by
  unfold commit
  rw [found, candidate]
  dsimp only
  rw [if_pos entered, valid]
  rw [plain]
  rfl

theorem commit_raised {state : ExecutionState} {outcome : ExecutionOutcome} (found : g.state = some state)
    (candidate : g.candidate = some outcome) (entered : g.entered = true)
    (invalid : script.cursor.filter (· ≤ counterLimit) = none) :
    g.commit script = (true, g.happen g.work .commitFailed) := by
  unfold commit
  rw [found, candidate]
  dsimp only
  rw [if_pos entered, invalid]

/-- A step of the settlement keeps the story. -/
theorem kept_settleStep {attempts : List Attempt} (logged : Logged g.log g.work (.settling attempts))
    (fields : Fields g .running true true false) (tasks : g.tasks = rest ++ [task])
    (done : ∀ other ∈ rest, other.point = .done) (current : g.current = some rest.length)
    (calm : task.cancelRequested = false) (plain : script.restarts = none) :
    Kept (g.settleStep rest.length g.work script) := by
  right
  obtain ⟨⟨state, found, status⟩, entered, decided, debt⟩ := fields
  obtain ⟨outcome, candidate⟩ := Option.isSome_iff_exists.mp decided
  obtain ⟨point, cancel⟩ := task
  cases calm
  unfold settleStep
  cases script.settle with
  | suspends =>
    refine ⟨.settling attempts, logged, ⟨⟨state, found, status⟩, entered, decided, debt⟩, _, Or.inr rfl, rest, ?_, done,
      current⟩
    unfold setTask
    rw [tasks, modify_last]
  | raises =>
    have longer : Logged (g.log ++ [(g.work, .settleFailed)]) g.work (.indebted (attempts ++ [Attempt.failed])) :=
      logged.extend [.settleFailed] (by simp [Progress.events, Attempt.events])
    refine ⟨.indebted (attempts ++ [Attempt.failed]), longer, ⟨⟨state, found, status⟩, entered, decided, rfl⟩, ?_⟩
    unfold setTask happen Resting
    dsimp only
    rw [tasks, modify_last]
    exact resting_done done _
  | succeeds =>
    dsimp only
    cases valid : script.cursor.filter (· ≤ counterLimit) with
    | none =>
      have committed := @commit_raised (g.happen g.work .settled) script state outcome found candidate entered valid
      rw [committed]
      have longer : Logged (g.log ++ [(g.work, .settled), (g.work, .commitFailed)]) g.work
          (.indebted (attempts ++ [Attempt.uncommitted])) :=
        logged.extend [.settled, .commitFailed] (by simp [Progress.events, Attempt.events])
      rw [if_pos (Or.inl rfl)]
      refine ⟨.indebted (attempts ++ [Attempt.uncommitted]), ?_, ⟨⟨state, found, status⟩, entered, decided, rfl⟩, ?_⟩
      · unfold setTask happen
        rw [List.append_assoc]
        exact longer
      · unfold setTask happen Resting
        rw [tasks, modify_last]
        exact resting_done done _
    | some cursor =>
      have committed := @commit_committed (g.happen g.work .settled) script state outcome cursor found candidate entered
        valid plain
      rw [committed]
      have longer : Logged (g.log ++ [(g.work, .settled), (g.work, .published outcome.status),
          (g.work, .observedEnd outcome.status)]) g.work (.ended attempts outcome.status) :=
        logged.extend [.settled, .published outcome.status, .observedEnd outcome.status]
          (by simp [Progress.events])
      have kept : ¬ ((false : Bool) = true ∨ (g.happen g.work .settled).candidate.isNone = true) := by
        unfold happen
        rw [candidate]
        simp
      rw [if_neg kept]
      refine ⟨.ended attempts outcome.status, ?_, ⟨⟨⟨_, rfl, rfl⟩, entered, decided, rfl⟩, outcome.terminal⟩, ?_⟩
      · unfold setTask happen
        rw [List.append_assoc, List.append_assoc]
        exact longer
      · unfold setTask happen Resting
        rw [tasks, modify_last]
        exact resting_done done _

/-- A step of the run keeps the story; where it ends, the settlement begins in the same step. -/
theorem kept_runStep (logged : Logged g.log g.work .running) (fields : Fields g .running true false false)
    (tasks : g.tasks = rest ++ [task]) (done : ∀ other ∈ rest, other.point = .done)
    (current : g.current = some rest.length) (calm : task.cancelRequested = false)
    (plain : script.interrupts = false ∧ script.restarts = none) : Kept (g.runStep rest.length script) := by
  obtain ⟨⟨state, found, status⟩, entered, decided, debt⟩ := fields
  unfold runStep
  rw [plain.1, if_neg Bool.false_ne_true]
  cases RunEnd.candidate? script.run with
  | none =>
    refine Or.inr ⟨.running, logged, ⟨⟨state, found, status⟩, entered, decided, debt⟩, task.cancelRequested, rest, ?_, done,
      current⟩
    unfold setTask
    dsimp only
    rw [tasks, modify_last]
  | some outcome =>
    have settling : Logged g.log g.work (.settling []) := by
      have same := @Logged.extend _ _ _ (.settling []) logged [] (by simp [Progress.events])
      simpa using same
    exact @kept_settleStep { g with candidate := some outcome } rest task script [] settling
      ⟨⟨state, found, status⟩, entered, rfl, debt⟩ tasks done current calm plain.2

/-- The first step of `_drive` keeps the story. -/
theorem kept_drive (logged : Logged g.log g.work .accepted) (fields : Fields g .accepted false false false)
    (tasks : g.tasks = rest ++ [task]) (done : ∀ other ∈ rest, other.point = .done)
    (current : g.current = some rest.length) (calm : task.cancelRequested = false)
    (plain : script.interrupts = false ∧ script.restarts = none) : Kept (g.drive rest.length script) := by
  obtain ⟨⟨state, found, status⟩, entered, decided, debt⟩ := fields
  unfold drive
  rw [found]
  dsimp only
  by_cases asked : state.interruptRequested = true
  · rw [if_pos asked]
    have skipped : ({ g with state := some state, candidate := some .interrupted } : ExecutionGuard).commit script =
        (false, { g with
          candidate := some .interrupted
          state := some (state.finished .interrupted)
          debt := false
          log := g.log ++ [(g.work, .published .interrupted)] }) := by
      unfold commit
      dsimp only
      rw [entered, if_neg Bool.false_ne_true]
      rfl
    rw [skipped]
    have longer : Logged (g.log ++ [(g.work, .published .interrupted)]) g.work .skipped :=
      logged.extend [.published .interrupted] rfl
    refine Or.inr ⟨.skipped, longer, ⟨⟨_, rfl, rfl⟩, entered, rfl, rfl⟩, ?_⟩
    unfold setTask Resting
    rw [tasks, modify_last]
    exact resting_done done _
  · rw [if_neg asked]
    have longer : Logged (g.log ++ [(g.work, .observedRunning)] ++ [(g.work, .ran)]) g.work .running := by
      rw [List.append_assoc]
      exact logged.extend [.observedRunning, .ran] rfl
    exact kept_runStep longer ⟨⟨_, rfl, rfl⟩, rfl, decided, debt⟩ tasks done current calm plain

/-- Only the last task of a live guard can take a step. -/
theorem live_step {i : Nat} {found : GuardTask} (tasks : g.tasks = rest ++ [task])
    (done : ∀ other ∈ rest, other.point = .done) (there : g.tasks[i]? = some found) (working : found.point ≠ .done) :
    i = rest.length ∧ found = task := by
  rw [tasks, List.getElem?_append] at there
  split at there
  · exact absurd (done found (List.mem_of_getElem? there)) working
  · next outside =>
    have last := List.getElem?_eq_some_iff.mp there
    have position : i = rest.length := by
      have bound := last.1
      simp at bound
      omega
    subst position
    simp at there
    exact ⟨rfl, there.symm⟩

theorem stepTask_of_done {i : Nat} (script : GuardScript)
    (idle : ∀ task, g.tasks[i]? = some task → task.point = .done) : g.stepTask i script = g := by
  unfold stepTask
  cases there : g.tasks[i]? with
  | none => rfl
  | some task =>
    dsimp only
    rw [idle task there]

theorem kept_stepTask (kept : Kept g) (i : Nat) (plain : script.interrupts = false ∧ script.restarts = none) :
    Kept (g.stepTask i script) := by
  by_cases idle : ∀ task, g.tasks[i]? = some task → task.point = .done
  · rw [stepTask_of_done script idle]
    exact kept
  push Not at idle
  obtain ⟨found, there, working⟩ := idle
  rcases kept with ⟨_, _, none_, _, _⟩ | ⟨progress, logged, at_⟩
  · rw [none_] at there
    cases there
  have resting : ∀ {g : ExecutionGuard}, Resting g → g.tasks[i]? = some found → False :=
    fun resting there => working (resting found (List.mem_of_getElem? there))
  unfold stepTask
  rw [there]
  cases progress with
  | accepted =>
    obtain ⟨fields, rest, tasks, done, current⟩ := at_
    obtain ⟨rfl, rfl⟩ := live_step tasks done there working
    exact @kept_drive
      { g with tasks := g.tasks.modify rest.length fun task => { task with cancelRequested := false } } rest
      ⟨.unstarted false, false⟩ script logged ⟨fields.state, fields.entered, fields.decided, fields.debt⟩
      (by rw [tasks]; exact modify_last _ _ _) done current rfl plain
  | running =>
    obtain ⟨fields, cancel, rest, tasks, done, current⟩ := at_
    obtain ⟨rfl, rfl⟩ := live_step tasks done there working
    exact @kept_runStep
      { g with tasks := g.tasks.modify rest.length fun task => { task with cancelRequested := false } } rest
      ⟨.inRun, false⟩ script logged ⟨fields.state, fields.entered, fields.decided, fields.debt⟩
      (by rw [tasks]; exact modify_last _ _ _) done current rfl plain
  | settling attempts =>
    obtain ⟨fields, point, which, rest, tasks, done, current⟩ := at_
    obtain ⟨rfl, rfl⟩ := live_step tasks done there working
    have settles := @kept_settleStep
      { g with tasks := g.tasks.modify rest.length fun task => { task with cancelRequested := false } } rest
      ⟨point, false⟩ script attempts logged ⟨fields.state, fields.entered, fields.decided, fields.debt⟩
      (by rw [tasks]; exact modify_last _ _ _) done current rfl plain.2
    rcases which with rfl | rfl
    · exact settles
    · dsimp only
      rw [if_neg Bool.false_ne_true]
      exact settles
  | indebted attempts => exact absurd there fun there => resting at_.2 there
  | ended attempts status => exact absurd there fun there => resting at_.2 there
  | skipped => exact absurd there fun there => resting at_.2 there

theorem kept_start (kept : Kept g) (executionId : PyStr) (created : Bool) :
    Kept (g.start executionId created).2 := by
  unfold start
  by_cases refused : (g.state.any fun state => !state.status.terminal || state.executionId = executionId) = true
  · rw [if_pos refused]
    exact kept
  rw [if_neg refused]
  by_cases failed : (!created) = true
  · rw [if_pos failed]
    exact kept
  rw [if_neg failed]
  unfold happen
  have begins : ∀ done : Resting g, At
      ({ g with
        state := some (.accepted executionId)
        work := g.work + 1
        tasks := g.tasks ++ [{ point := .unstarted false }]
        current := some g.tasks.length
        entered := false
        candidate := none
        debt := false
        log := g.log ++ [(g.work + 1, .accepted)] } : ExecutionGuard) .accepted :=
    fun done => ⟨⟨⟨_, rfl, rfl⟩, rfl, rfl, rfl⟩, g.tasks, rfl, done, rfl⟩
  rcases kept with ⟨_, work, tasks, log, _⟩ | ⟨progress, logged, at_⟩
  · refine Or.inr ⟨.accepted, ?_, begins (by rw [Resting, tasks]; simp)⟩
    rw [work, log]
    dsimp only
    exact ⟨Nat.le_refl _, rfl, fun n low below => by omega, by simp, List.pairwise_singleton _ _⟩
  · -- a new execution is accepted only where the current one has ended
    have active : ∀ {status : ExecutionStatus} {entered decided debt : Bool}, Fields g status entered decided debt →
        status.terminal = true := by
      intro status entered decided debt fields
      obtain ⟨state, found, same⟩ := fields.state
      rw [found] at refused
      simp only [Option.any_some, Bool.or_eq_true, Bool.not_eq_true', decide_eq_true_eq, not_or,
        Bool.not_eq_false] at refused
      rw [← same]
      exact refused.1
    cases progress with
    | accepted => cases active at_.1
    | running => cases active at_.1
    | settling attempts => cases active at_.1
    | indebted attempts => cases active at_.1
    | ended attempts status => exact Or.inr ⟨.accepted, logged.next rfl, begins at_.2⟩
    | skipped => exact Or.inr ⟨.accepted, logged.next rfl, begins at_.2⟩

/-- Fields that only an interrupt touches. -/
theorem kept_interrupt (kept : Kept g) (executionId : PyStr) : Kept (g.interrupt executionId).2 := by
  unfold interrupt
  cases found : g.state with
  | none => exact kept
  | some state =>
    dsimp only
    by_cases other : state.executionId ≠ executionId ∨ state.status.terminal = true
    · rw [if_pos other]
      exact kept
    rw [if_neg other]
    by_cases again : state.interruptRequested = true
    · rw [if_pos again]
      exact kept
    rw [if_neg again]
    have still : ∀ {status : ExecutionStatus} {entered decided debt : Bool}, Fields g status entered decided debt →
        Fields { g with state := some state.requested } status entered decided debt := by
      intro status entered decided debt fields
      obtain ⟨state', found', same⟩ := fields.state
      rw [found, Option.some.injEq] at found'
      subst found'
      exact ⟨⟨_, rfl, same⟩, fields.entered, fields.decided, fields.debt⟩
    rcases kept with ⟨none_, _⟩ | ⟨progress, logged, at_⟩
    · rw [found] at none_
      cases none_
    have spared : (g.entered = true ∧ g.candidate.isNone = true → progress = .running) := by
      rintro ⟨entered, undecided⟩
      have decided : g.candidate.isSome = false := by
        rw [Option.isNone_iff_eq_none.mp undecided]
        rfl
      cases progress with
      | accepted => rw [at_.1.entered] at entered; cases entered
      | running => rfl
      | settling attempts => rw [at_.1.decided] at decided; cases decided
      | indebted attempts => rw [at_.1.decided] at decided; cases decided
      | ended attempts status => rw [at_.1.1.decided] at decided; cases decided
      | skipped => rw [at_.1.entered] at entered; cases entered
    by_cases cancels : g.entered = true ∧ g.candidate.isNone = true
    · rw [if_pos cancels]
      have running := spared cancels
      subst running
      obtain ⟨fields, cancel, rest, tasks, done, current⟩ := at_
      rw [current]
      refine Or.inr ⟨.running, logged, ?_, true, rest, ?_, done, rfl⟩
      · have kept := still fields
        exact ⟨kept.state, kept.entered, kept.decided, kept.debt⟩
      · unfold cancelTask
        dsimp only
        rw [tasks, modify_last]
        rfl
    · rw [if_neg cancels]
      refine Or.inr ⟨progress, logged, ?_⟩
      cases progress with
      | accepted => exact ⟨still at_.1, at_.2⟩
      | running => exact ⟨still at_.1, at_.2⟩
      | settling attempts => exact ⟨still at_.1, at_.2⟩
      | indebted attempts => exact ⟨still at_.1, at_.2⟩
      | ended attempts status => exact ⟨⟨still at_.1.1, at_.1.2⟩, at_.2⟩
      | skipped => exact ⟨still at_.1, at_.2⟩

theorem kept_retrySettlement (kept : Kept g) (executionId : PyStr) (created : Bool) :
    Kept (g.retrySettlement executionId created).2 := by
  unfold retrySettlement
  by_cases known : (g.state.any fun state => state.executionId = executionId) = true
  · rw [if_pos known]
    by_cases owes : g.debt = true
    · rw [if_pos owes]
      cases created with
      | false => exact kept
      | true =>
        rw [if_pos rfl]
        rcases kept with ⟨_, _, _, _, none_⟩ | ⟨progress, logged, at_⟩
        · rw [none_] at owes
          cases owes
        cases progress with
        | accepted => rw [at_.1.debt] at owes; cases owes
        | running => rw [at_.1.debt] at owes; cases owes
        | settling attempts => rw [at_.1.debt] at owes; cases owes
        | ended attempts status => rw [at_.1.1.debt] at owes; cases owes
        | skipped => rw [at_.1.debt] at owes; cases owes
        | indebted attempts =>
          obtain ⟨⟨state, entered, decided, _⟩, resting⟩ := at_
          have settling : Logged g.log g.work (.settling attempts) :=
            ⟨logged.positive, logged.current, logged.past, logged.bounds, logged.ordered⟩
          exact Or.inr ⟨.settling attempts, settling, ⟨state, entered, decided, rfl⟩, .unstarted true, Or.inl rfl, g.tasks,
            rfl, resting, rfl⟩
    · rw [if_neg owes]
      exact kept
  · rw [if_neg known]
    exact kept

theorem kept_step (kept : Kept g) (input : GuardInput) (plain : Plain g input) :
    Kept (guardMachine.step g input).2 := by
  cases input with
  | start executionId created => exact kept_start kept executionId created
  | interrupt executionId => exact kept_interrupt kept executionId
  | retrySettlement executionId created => exact kept_retrySettlement kept executionId created
  | step i script => exact kept_stepTask kept i plain

end Steps

theorem kept_final {inputs : List GuardInput} (plain : guardMachine.AllSteps Plain {} inputs) :
    Kept (guardMachine.final {} inputs) :=
  (@Machine.AllSteps.of_invariant _ _ _ guardMachine Kept Plain (fun _ _ => True)
    (fun _ input kept plain => ⟨trivial, kept_step kept input plain⟩) _ _ (Or.inl ⟨rfl, rfl, rfl, rfl, rfl⟩) plain).2

end ExecutionGuard

/-! ## What the stories say -/

namespace Progress

theorem mem_attempts {attempts : List Attempt} {event : GuardEvent} (member : event ∈ attempts.flatMap Attempt.events) :
    event = .settleFailed ∨ event = .settled ∨ event = .commitFailed := by
  obtain ⟨attempt, _, among⟩ := List.mem_flatMap.mp member
  cases attempt with
  | failed => exact Or.inl (List.mem_singleton.mp among)
  | uncommitted =>
    simp only [Attempt.events, List.mem_cons, List.not_mem_nil, or_false] at among
    exact Or.inr among

/-- As many settlements as failed commits. -/
theorem count_attempts (attempts : List Attempt) :
    (attempts.flatMap Attempt.events).count .settled = (attempts.flatMap Attempt.events).count .commitFailed := by
  induction attempts with
  | nil => rfl
  | cons attempt rest ih =>
    rw [List.flatMap_cons, List.count_append, List.count_append, ih]
    cases attempt <;> rfl

theorem count_ran_le (progress : Progress) : progress.events.count .ran ≤ 1 := by
  have none_ : ∀ attempts : List Attempt, (attempts.flatMap Attempt.events).count .ran = 0 := by
    intro attempts
    rw [List.count_eq_zero]
    intro member
    rcases mem_attempts member with same | same | same <;> cases same
  cases progress with
  | accepted => decide
  | running => decide
  | settling attempts => simp [events, none_, entering]
  | indebted attempts => simp [events, none_, entering]
  | ended attempts status => simp [events, none_, entering]
  | skipped => decide

theorem settleCancelled_not_mem (progress : Progress) : GuardEvent.settleCancelled ∉ progress.events := by
  have none_ : ∀ attempts : List Attempt, GuardEvent.settleCancelled ∉ attempts.flatMap Attempt.events := by
    intro attempts member
    rcases mem_attempts member with same | same | same <;> cases same
  cases progress with
  | accepted => decide
  | running => decide
  | settling attempts => simp [events, none_, entering]
  | indebted attempts => simp [events, none_, entering]
  | ended attempts status => simp [events, none_, entering]
  | skipped => decide

/-- A story in which an outcome is published, taken apart there. -/
theorem published_split {progress : Progress} {front back : List GuardEvent} {status : ExecutionStatus}
    (split : progress.events = front ++ .published status :: back) :
    (∃ attempts : List Attempt, front = entering ++ attempts.flatMap Attempt.events ++ [.settled] ∧ back = [.observedEnd status]) ∨
      front = [.accepted] ∧ status = .interrupted ∧ back = [] := by
  have none_ : ∀ attempts : List Attempt, GuardEvent.published status ∉ entering ++ attempts.flatMap Attempt.events := by
    intro attempts member
    rcases List.mem_append.mp member with first | later
    · simp [entering] at first
    · rcases mem_attempts later with same | same | same <;> cases same
  have published : GuardEvent.published status ∈ progress.events := by
    rw [split]
    simp
  cases progress with
  | accepted => simp [events] at published
  | running => simp [events, entering] at published
  | settling attempts => exact absurd published (none_ attempts)
  | indebted attempts => exact absurd published (none_ attempts)
  | ended attempts other =>
    have parted : (entering ++ attempts.flatMap Attempt.events ++ [.settled]) ++ .published other :: [.observedEnd other] =
        front ++ .published status :: back := by
      rw [← split, events]
      simp
    have absent : GuardEvent.published status ∉ entering ++ attempts.flatMap Attempt.events ++ [.settled] := by
      rw [List.mem_append]
      rintro (member | member)
      · exact none_ attempts member
      · cases List.mem_singleton.mp member
    obtain ⟨rfl, same, rfl⟩ := (List.append_cons_inj_of_notMem absent (by simp)).mp parted
    cases same
    exact Or.inl ⟨attempts, rfl, rfl⟩
  | skipped =>
    have parted : [GuardEvent.accepted] ++ .published .interrupted :: [] = front ++ .published status :: back := split
    obtain ⟨rfl, same, rfl⟩ := (List.append_cons_inj_of_notMem (by simp) (by simp)).mp parted
    cases same
    exact Or.inr ⟨rfl, rfl, rfl⟩

end Progress

namespace ExecutionGuard

/-- Every execution of the log has a story, and the finished ones come before the last. -/
theorem story_of {g : ExecutionGuard} (kept : Kept g) (n : Nat) :
    historyOf g.log n = [] ∨ ∃ progress : Progress, historyOf g.log n = progress.events := by
  rcases kept with ⟨_, _, _, log, _⟩ | ⟨progress, logged, _⟩
  · rw [log]
    exact Or.inl rfl
  · by_cases zero : n = 0
    · subst zero
      left
      unfold historyOf
      rw [List.filter_eq_nil_iff.mpr, List.map_nil]
      intro entry member
      have bound := (logged.bounds entry member).1
      simp
      omega
    · rcases Nat.lt_trichotomy n g.work with below | rfl | above
      · obtain ⟨before, _, same⟩ := logged.past n (by omega) below
        exact Or.inr ⟨before, same⟩
      · exact Or.inr ⟨progress, logged.current⟩
      · left
        unfold historyOf
        rw [List.filter_eq_nil_iff.mpr, List.map_nil]
        intro entry member
        have bound := (logged.bounds entry member).2
        simp
        omega

/-- Runs are entered once; an entered execution publishes its outcome right behind the settlement
whose commit did not fail, one that is not entered is interrupted; a start is accepted behind the
outcome of the execution before; no settlement is cancelled. -/
theorem guard_orderly (inputs : List GuardInput) (plain : guardMachine.AllSteps Plain {} inputs) (n : Nat) :
    (historyOf (guardMachine.final {} inputs).log n).count .ran ≤ 1 ∧
    (n, .settleCancelled) ∉ (guardMachine.final {} inputs).log ∧
    (∀ front back status, (guardMachine.final {} inputs).log = front ++ (n, .published status) :: back →
      ((n, .ran) ∈ front →
        (historyOf front n).count .settled = (historyOf front n).count .commitFailed + 1) ∧
      ((n, .ran) ∉ front → status = .interrupted ∧ (n, .settled) ∉ front) ∧
      ((n, .observedRunning) ∈ front ↔ (n, .ran) ∈ front) ∧
      ((n, .observedEnd status) ∈ back ↔ (n, .ran) ∈ front) ∧
      (n, .ran) ∉ back ∧ (n, .settled) ∉ back) ∧
    (∀ front back, (guardMachine.final {} inputs).log = front ++ (n + 1, .accepted) :: back →
      n = 0 ∨ ∃ status, (n, .published status) ∈ front) := by
  have kept := kept_final plain
  generalize guardMachine.final {} inputs = g at kept ⊢
  have story := story_of kept n
  refine ⟨?_, ?_, ?_, ?_⟩
  · rcases story with empty | ⟨progress, same⟩
    · rw [empty]
      simp
    · rw [same]
      exact progress.count_ran_le
  · rw [← mem_historyOf]
    rcases story with empty | ⟨progress, same⟩
    · rw [empty]
      simp
    · rw [same]
      exact progress.settleCancelled_not_mem
  · intro front back status split
    have mine : historyOf g.log n = historyOf front n ++ .published status :: historyOf back n := by
      rw [split, ← List.singleton_append, historyOf_append, historyOf_append, historyOf_single, if_pos rfl]
      rfl
    have parted : ∃ progress : Progress, progress.events = historyOf front n ++ .published status :: historyOf back n := by
      rcases story with empty | ⟨progress, same⟩
      · rw [mine] at empty
        simp at empty
      · exact ⟨progress, same.symm.trans mine⟩
    obtain ⟨progress, parted⟩ := parted
    simp only [← mem_historyOf]
    rcases Progress.published_split parted with ⟨attempts, before, behind⟩ | ⟨before, rfl, behind⟩
    · rw [before, behind]
      refine ⟨fun _ => ?_, fun absent => absurd (by simp [Progress.entering]) absent, by simp [Progress.entering],
        by simp [Progress.entering], by simp, by simp⟩
      have same := Progress.count_attempts attempts
      simp [Progress.entering, same]
    · rw [before, behind]
      simp
  · intro front back split
    by_cases zero : n = 0
    · exact Or.inl zero
    right
    rcases kept with ⟨_, _, _, log, _⟩ | ⟨progress, logged, _⟩
    · rw [log] at split
      simp at split
    have member : (n + 1, GuardEvent.accepted) ∈ g.log := by
      rw [split]
      simp
    have bound := (logged.bounds _ member).2
    obtain ⟨before, finished, same⟩ := logged.past n (by omega) (by omega)
    have published : ∃ status, GuardEvent.published status ∈ historyOf g.log n := by
      rw [same]
      cases before with
      | ended attempts status => exact ⟨status, by simp [Progress.events]⟩
      | skipped => exact ⟨.interrupted, by simp [Progress.events]⟩
      | accepted => cases finished
      | running => cases finished
      | settling attempts => cases finished
      | indebted attempts => cases finished
    obtain ⟨status, published⟩ := published
    refine ⟨status, ?_⟩
    -- the log is in the order of the executions, so the outcome is not behind the next start
    rw [mem_historyOf, split, List.mem_append, List.mem_cons] at published
    have ordered := logged.ordered
    rw [split, List.pairwise_append, List.pairwise_cons] at ordered
    rcases published with there | same | behind
    · exact there
    · cases same
    · have order := ordered.2.1.1 _ behind
      omega

/-- An outcome of `run`. -/
def succeeded : ExecutionOutcome := ⟨.succeeded, none, none, rfl, by simp⟩

/-- Two executions: one fails to settle at first, the other is interrupted before its first step. -/
def twoExecutions : List GuardInput :=
  [.start "a" true, .step 0 {}, .interrupt "a", .step 0 { run := .returns succeeded }, .step 0 { settle := .raises },
    .retrySettlement "a" true, .step 1 { settle := .succeeds, cursor := some 4 }, .start "b" true, .interrupt "b",
    .step 2 {}]

theorem guard_orderly_twoExecutions :
    (historyOf (guardMachine.final {} twoExecutions).log 1).count .ran ≤ 1 :=
  (guard_orderly twoExecutions (by decide) 1).1

/-- An execution that is interrupted before its first step ends without a settlement; one whose source
cursor cannot be read at the first commit is settled twice; an interrupt that an observer asks for on
entry cancels the settlement when `run` returns without waiting. -/
theorem guard_unsettled :
    (guardMachine.final {} [.start "a" true, .interrupt "a", .step 0 {}]).log =
      [(1, .accepted), (1, .published .interrupted)] ∧
    (guardMachine.final {} [.start "a" true, .step 0 { run := .returns succeeded, settle := .succeeds },
        .retrySettlement "a" true, .step 1 { settle := .succeeds, cursor := some 0 }]).log =
      [(1, .accepted), (1, .observedRunning), (1, .ran), (1, .settled), (1, .commitFailed), (1, .settled),
        (1, .published .succeeded), (1, .observedEnd .succeeded)] ∧
    (1, .settleCancelled) ∈ (guardMachine.final {} [.start "a" true,
      .step 0 { interrupts := true, run := .returns succeeded }, .step 0 { settle := .raises }]).log :=
  ⟨by decide, by decide, by decide⟩

end ExecutionGuard

end Loushang.AppService
