import Loushang.AppHost.ServiceJournal
import Loushang.Lib.Folds
import Loushang.Lib.Raises

/-!
# Updates of the service state

How a call of the journal ends, what its update may change and what it leaves on record, so
that the call meets its own work when it is repeated.
-/
namespace Loushang.AppHost
open Lib

variable {keys : JournalKeys} {rows rows' : ServiceRows}

/-! ## What one call does -/

/-- The call reports `state`, or an exception behind the commit that left it. -/
def Outcome.answers (outcome : Outcome) (state : ManagedServiceStateV1) : Prop :=
  outcome = .returned state ∨ ∃ code, outcome = .uncertain code

/-- The states of one generation in the order of their revisions. -/
structure Advance (earlier later : ManagedServiceStateV1) : Prop where
  revision : earlier.revision ≤ later.revision
  instanceRef : later.handoff.instanceRef = earlier.handoff.instanceRef
  attemptId : later.handoff.attemptId = earlier.handoff.attemptId
  phase : later.handoff.phase = earlier.handoff.phase ∨ earlier.handoff.phase = .provisional
  stopRequested : earlier.handoff.stopRequested = true → later.handoff.stopRequested = true
  native : ∀ identity, earlier.nativeIdentity = some identity → later.nativeIdentity = some identity
  trace : ∀ receipt, earlier.traceApplication = some receipt →
    later.traceApplication = some receipt
  processExited : earlier.evidence.processExited = true → later.evidence.processExited = true
  cleanupCompleted : earlier.evidence.applicationCleanupCompleted = true →
    later.evidence.applicationCleanupCompleted = true
  scopeSettled : earlier.evidence.processScopeSettled = true →
    later.evidence.processScopeSettled = true

theorem Advance.refl (state : ManagedServiceStateV1) : Advance state state :=
  ⟨Int.le_refl _, rfl, rfl, .inl rfl, id, fun _ => id, fun _ => id, id, id, id⟩

theorem Advance.trans {one two three : ManagedServiceStateV1} (first : Advance one two)
    (second : Advance two three) : Advance one three where
  revision := Int.le_trans first.revision second.revision
  instanceRef := second.instanceRef.trans first.instanceRef
  attemptId := second.attemptId.trans first.attemptId
  phase := by
    rcases first.phase with same | open1
    · rcases second.phase with same2 | open2
      · exact .inl (same2.trans same)
      · exact .inr (same ▸ open2)
    · exact .inr open1
  stopRequested := second.stopRequested ∘ first.stopRequested
  native identity known := second.native identity (first.native identity known)
  trace receipt known := second.trace receipt (first.trace receipt known)
  processExited := second.processExited ∘ first.processExited
  cleanupCompleted := second.cleanupCompleted ∘ first.cleanupCompleted
  scopeSettled := second.scopeSettled ∘ first.scopeSettled

/-- Two states with the same facts, whose revisions may differ. -/
structure SameFacts (one other : ManagedServiceStateV1) : Prop where
  handoff : one.handoff = other.handoff
  evidence : one.evidence = other.evidence
  native : one.nativeIdentity = other.nativeIdentity
  trace : one.traceApplication = other.traceApplication

variable {revision : Int} {state : ManagedServiceStateV1}

theorem makeState_ok {handoff : ManagedHandoffV1} {evidence : ManagedStopEvidenceV1}
    {native : Option LinuxServiceIdentityV1} {trace : Option ManagedTraceApplicationV1}
    (made : makeState revision handoff evidence native trace = .ok state) :
    state.revision = revision ∧ state.handoff = handoff ∧ state.evidence = evidence ∧
      state.nativeIdentity = native ∧ state.traceApplication = trace := by
  unfold makeState at made
  split at made
  · cases made
    exact ⟨rfl, rfl, rfl, rfl, rfl⟩
  · cases made

/-- How a transaction that changes the state of a service may end. -/
inductive Updated (keys : JournalKeys) (rows : ServiceRows) (instanceRef : ManagedInstanceRefV1)
    (update : Update) : Outcome × ServiceRows → Prop where
  | refused (error : ManagedError) : Updated keys rows instanceRef update (.refused error, rows)
  | kept {outcome : Outcome} {current : ManagedServiceStateV1}
    (read : readService keys rows = .ok (some current))
    (mine : current.handoff.instanceRef = instanceRef) (same : update current = .ok current)
    (answers : outcome.answers current) : Updated keys rows instanceRef update (outcome, rows)
  | saved {outcome : Outcome} {current proposed state : ManagedServiceStateV1}
    (read : readService keys rows = .ok (some current))
    (mine : current.handoff.instanceRef = instanceRef) (accepted : update current = .ok proposed)
    (changed : proposed ≠ current) (facts : SameFacts state proposed) (revision : state.revision = current.revision + 1)
    (answers : outcome.answers state) :
    Updated keys rows instanceRef update (outcome, rows.save state)

theorem settle_cases (env : Surroundings) (rows rows' : ServiceRows) (state : ManagedServiceStateV1) :
    (∃ error, settle env rows rows' state = (.refused error, rows)) ∨
      ∃ outcome : Outcome, outcome.answers state ∧ settle env rows rows' state = (outcome, rows') := by
  unfold settle
  cases env.rollback with
  | some code => exact .inl ⟨_, rfl⟩
  | none =>
    cases env.afterwards with
    | some code => exact .inr ⟨_, .inr ⟨code, rfl⟩, rfl⟩
    | none => exact .inr ⟨_, .inl rfl, rfl⟩

theorem nextRevision_ok (next : nextRevision (some state) = .ok revision) :
    revision = state.revision + 1 := by
  unfold nextRevision at next
  dsimp only at next
  split at next
  · cases next
  · cases next
    rfl

theorem updateService_cases (rows : ServiceRows) (env : Surroundings)
    (instanceRef : ManagedInstanceRefV1) (update : Update) :
    Updated keys rows instanceRef update (updateService keys rows env instanceRef update) := by
  unfold updateService checked
  split
  · exact .refused _
  · split
    · cases read : readService keys rows with
      | error code => exact .refused _
      | ok found =>
        cases found with
        | none => exact .refused _
        | some current =>
          dsimp only
          split
          · exact .refused _
          · rename_i mine
            rw [Decidable.not_not] at mine
            cases accepted : update current with
            | error error => cases error <;> exact .refused _
            | ok proposed =>
              dsimp only
              split
              · rename_i same
                subst same
                rcases settle_cases env rows rows proposed with ⟨error, eq⟩ | ⟨outcome, answers, eq⟩
                · rw [eq]
                  exact .refused _
                · rw [eq]
                  exact .kept read mine accepted answers
              · rename_i changed
                cases env.full with
                | some code => exact .refused _
                | none =>
                  cases next : nextRevision (some current) with
                  | error code => exact .refused _
                  | ok revision =>
                    cases made : makeState revision proposed.handoff proposed.evidence
                        proposed.nativeIdentity proposed.traceApplication with
                    | error error =>
                      simp only [made]
                      exact .refused _
                    | ok state =>
                      simp only [made]
                      obtain ⟨stateRevision, handoff, evidence, native, trace⟩ := makeState_ok made
                      have counted := stateRevision.trans (nextRevision_ok next)
                      rcases settle_cases env rows (rows.save state) state with
                        ⟨error, eq⟩ | ⟨outcome, answers, eq⟩
                      · rw [eq]
                        exact .refused _
                      · rw [eq]
                        exact .saved read mine accepted changed ⟨handoff, evidence, native, trace⟩ counted answers
    · exact .refused _

/-- What a call that is not `prepare` changes the state with, behind its checks. -/
inductive Makes (keys : JournalKeys) (env : Surroundings) :
    JournalCall → ManagedInstanceRefV1 → Update → Prop where
  | registerNative {ref attemptId identity} (mine : identity.userId = keys.userId) :
    Makes keys env (.registerNative ref attemptId identity) ref
      (registerNativeUpdate attemptId identity)
  | commit {ref attemptId identity} :
    Makes keys env (.commit ref attemptId (some identity)) ref (commitUpdate attemptId identity)
  | recordTraceApplication {ref attemptId identity deadlineMs receipt}
    (made : makeTrace ref.instanceId attemptId deadlineMs = .ok receipt) :
    Makes keys env (.recordTraceApplication ref attemptId identity deadlineMs) ref
      (traceUpdate env.expired attemptId identity receipt)
  | publishTrace {ref attemptId identity deadlineMs receipt}
    (made : makeTrace ref.instanceId attemptId deadlineMs = .ok receipt) :
    Makes keys env (.publishTrace ref attemptId identity deadlineMs) ref
      (traceUpdate env.expired attemptId identity receipt)
  | abort {ref attemptId identity} :
    Makes keys env (.abort ref attemptId identity) ref (abortUpdate attemptId identity)
  | requestStop {ref} : Makes keys env (.requestStop ref) ref requestStopUpdate
  | requestChildStop {ref attemptId native} :
    Makes keys env (.requestChildStop ref attemptId native) ref
      (requestChildStopUpdate attemptId native)
  | recordChildCleanup {ref attemptId native} :
    Makes keys env (.recordChildCleanup ref attemptId native) ref
      (recordChildCleanupUpdate attemptId native)
  | recordNativeStop {ref native exited settled} :
    Makes keys env (.recordNativeStop ref native exited settled) ref
      (recordNativeStopUpdate native exited settled)
  | recordStopEvidence {evidence} :
    Makes keys env (.recordStopEvidence evidence) evidence.instanceRef
      (recordStopEvidenceUpdate evidence)

/-- The call changes nothing without a look at the rows, or ends as its update says. -/
def Ends (keys : JournalKeys) (rows : ServiceRows) (env : Surroundings) (call : JournalCall)
    (result : Outcome × ServiceRows) : Prop :=
  (∃ error, result = (.refused error, rows)) ∨
    ∃ ref update, Makes keys env call ref update ∧ Updated keys rows ref update result

variable {env : Surroundings} {call : JournalCall}

theorem Ends.checked {accepts : Bool} {result : Outcome × ServiceRows}
    (ends : accepts = true → Ends keys rows env call result) :
    Ends keys rows env call (AppHost.checked accepts rows result) := by
  unfold AppHost.checked
  split
  · rename_i passed
    exact ends passed
  · exact .inl ⟨_, rfl⟩

variable {attemptId : PyStr} {identity : LinuxServiceIdentityV1}

theorem publishTrace_ends {ref : ManagedInstanceRefV1} {deadlineMs : Int}
    (makes : ∀ receipt, makeTrace ref.instanceId attemptId deadlineMs = .ok receipt →
      Makes keys env call ref (traceUpdate env.expired attemptId identity receipt)) :
    Ends keys rows env call (publishTrace keys rows env ref attemptId identity deadlineMs) := by
  apply Ends.checked
  intro _
  cases made : makeTrace ref.instanceId attemptId deadlineMs with
  | error error => exact .inl ⟨error, rfl⟩
  | ok receipt => exact .inr ⟨_, _, makes receipt made, updateService_cases _ _ _ _⟩

variable {expired : Bool} {receipt : ManagedTraceApplicationV1}
  {current next : ManagedServiceStateV1}

theorem traceUpdate_ok (accepted : traceUpdate expired attemptId identity receipt current = .ok next) :
    current.handoff.attemptId = attemptId ∧ current.nativeIdentity = some identity ∧
      ((current.traceApplication = some receipt ∧ next = current) ∨
        (current.traceApplication = none ∧
          makeState current.revision current.handoff current.evidence current.nativeIdentity
            (some receipt) = .ok next)) := by
  unfold traceUpdate at accepted
  obtain ⟨child, accepted⟩ := raise_if_ok accepted
  rw [not_or, Decidable.not_not, Decidable.not_not] at child
  refine ⟨child.1, child.2, ?_⟩
  cases recorded : current.traceApplication with
  | some known =>
    rw [recorded] at accepted
    obtain ⟨equal, accepted⟩ := raise_unless_ok accepted
    cases accepted
    exact .inl ⟨congrArg some equal, rfl⟩
  | none =>
    rw [recorded] at accepted
    dsimp only at accepted
    split at accepted
    · cases accepted
    · split at accepted
      · cases accepted
      · exact .inr ⟨rfl, accepted⟩

theorem traceUpdate_recorded (recorded : current.traceApplication ≠ none)
    (accepted : traceUpdate expired attemptId identity receipt current = .ok next) : next = current := by
  obtain ⟨-, -, ⟨-, same⟩ | ⟨unset, -⟩⟩ := traceUpdate_ok accepted
  · exact same
  · exact absurd unset recorded

theorem recordTraceApplication_ends (ref : ManagedInstanceRefV1) (attemptId : PyStr)
    (identity : LinuxServiceIdentityV1) (deadlineMs : Int) :
    Ends keys rows env (.recordTraceApplication ref attemptId identity deadlineMs)
      (recordTraceApplication keys rows env ref attemptId identity deadlineMs) := by
  apply Ends.checked
  intro _
  cases made : makeTrace ref.instanceId attemptId deadlineMs with
  | error error => exact .inl ⟨error, rfl⟩
  | ok receipt =>
    cases env.refuses with
    | some error => exact .inl ⟨error, rfl⟩
    | none =>
      cases read : readService keys rows with
      | error code => exact .inl ⟨_, rfl⟩
      | ok found =>
        cases found with
        | none => exact .inl ⟨_, rfl⟩
        | some observed =>
          dsimp only
          split
          · exact .inl ⟨_, rfl⟩
          · rename_i mine
            rw [Decidable.not_not] at mine
            split
            · rename_i recorded
              cases accepted : traceUpdate env.expired attemptId identity receipt observed with
              | error error => exact .inl ⟨error, rfl⟩
              | ok state =>
                obtain rfl := traceUpdate_recorded recorded accepted
                exact .inr ⟨_, _, .recordTraceApplication made, .kept read mine accepted (.inl rfl)⟩
            · exact publishTrace_ends fun receipt made => .recordTraceApplication made

theorem callService_ends (rows : ServiceRows) (env : Surroundings)
    (update : ∀ attemptId expected, call ≠ .prepare attemptId expected) :
    Ends keys rows env call (callService keys rows call env) := by
  cases call with
  | prepare attemptId expected => exact absurd rfl (update attemptId expected)
  | registerNative ref attemptId identity =>
    apply Ends.checked
    intro passed
    rw [Bool.and_eq_true, requireNative, beq_iff_eq] at passed
    exact .inr ⟨_, _, .registerNative passed.2, updateService_cases _ _ _ _⟩
  | commit ref attemptId identity =>
    cases identity with
    | none => exact .inl ⟨_, rfl⟩
    | some identity =>
      exact Ends.checked fun _ => .inr ⟨_, _, .commit, updateService_cases _ _ _ _⟩
  | recordTraceApplication ref attemptId identity deadlineMs =>
    exact recordTraceApplication_ends ref attemptId identity deadlineMs
  | publishTrace ref attemptId identity deadlineMs =>
    exact publishTrace_ends fun receipt made => .publishTrace made
  | abort ref attemptId identity =>
    exact Ends.checked fun _ => .inr ⟨_, _, .abort, updateService_cases _ _ _ _⟩
  | requestStop ref => exact .inr ⟨_, _, .requestStop, updateService_cases _ _ _ _⟩
  | requestChildStop ref attemptId native =>
    exact Ends.checked fun _ => .inr ⟨_, _, .requestChildStop, updateService_cases _ _ _ _⟩
  | recordChildCleanup ref attemptId native =>
    exact Ends.checked fun _ => .inr ⟨_, _, .recordChildCleanup, updateService_cases _ _ _ _⟩
  | recordNativeStop ref native exited settled =>
    exact Ends.checked fun _ => .inr ⟨_, _, .recordNativeStop, updateService_cases _ _ _ _⟩
  | recordStopEvidence evidence =>
    exact .inr ⟨_, _, .recordStopEvidence, updateService_cases _ _ _ _⟩

/-! ## What an update may change -/

/-- The calls that request a stop. -/
def JournalCall.stops : JournalCall → Bool
  | .requestStop _ => true
  | .requestChildStop .. => true
  | _ => false

/-- An accepted update, before its revision is counted. -/
structure Moves (keys : JournalKeys) (stops : Bool) (current next : ManagedServiceStateV1) : Prop where
  advance : Advance current next
  revision : next.revision = current.revision
  user : ∀ identity, next.nativeIdentity = some identity →
    current.nativeIdentity = some identity ∨ identity.userId = keys.userId
  evidence : next.evidence ≠ current.evidence → current.ending
  stopRequested : next.handoff.stopRequested = true →
    current.handoff.stopRequested = true ∨ stops = true

section Moves
variable {stops : Bool} {current next : ManagedServiceStateV1}

theorem Moves.same : Moves keys stops current current :=
  ⟨.refl current, rfl, fun _ => .inl, fun changed => absurd rfl changed, .inl⟩

theorem Moves.of_fact (revision : next.revision = current.revision)
    (handoff : next.handoff = current.handoff) (evidence : next.evidence = current.evidence)
    (native : ∀ identity, current.nativeIdentity = some identity →
      next.nativeIdentity = some identity)
    (trace : ∀ receipt, current.traceApplication = some receipt →
      next.traceApplication = some receipt)
    (user : ∀ identity, next.nativeIdentity = some identity →
      current.nativeIdentity = some identity ∨ identity.userId = keys.userId) :
    Moves keys stops current next := by
  refine ⟨⟨by omega, by rw [handoff], by rw [handoff], .inl (by rw [handoff]), ?_, native, trace,
    ?_, ?_, ?_⟩, revision, user, fun changed => absurd evidence changed, ?_⟩
  · rw [handoff]
    exact id
  · rw [evidence]
    exact id
  · rw [evidence]
    exact id
  · rw [evidence]
    exact id
  · rw [handoff]
    exact .inl

variable {handoff : ManagedHandoffV1}

theorem Moves.of_handoff (made : replaceHandoff current handoff = .ok next)
    (ref : handoff.instanceRef = current.handoff.instanceRef)
    (attempt : handoff.attemptId = current.handoff.attemptId)
    (phase : handoff.phase = current.handoff.phase ∨ current.handoff.phase = .provisional)
    (kept : current.handoff.stopRequested = true → handoff.stopRequested = true)
    (byStop : handoff.stopRequested = true → current.handoff.stopRequested = true ∨ stops = true) :
    Moves keys stops current next := by
  obtain ⟨revision, handoffEq, evidence, native, trace⟩ := makeState_ok made
  subst handoffEq
  refine ⟨⟨by omega, ref, attempt, phase, kept, ?_, ?_, ?_, ?_, ?_⟩, revision, ?_, ?_, byStop⟩
  · intro identity known
    rwa [native]
  · intro receipt known
    rwa [trace]
  · rw [evidence]
    exact id
  · rw [evidence]
    exact id
  · rw [evidence]
    exact id
  · intro identity known
    rw [native] at known
    exact .inl known
  · exact fun changed => absurd evidence changed

variable {evidence : ManagedStopEvidenceV1}

theorem Moves.of_evidence (made : replaceEvidence current evidence = .ok next) (ending : current.ending)
    (exited : current.evidence.processExited = true → evidence.processExited = true)
    (cleanup : current.evidence.applicationCleanupCompleted = true →
      evidence.applicationCleanupCompleted = true)
    (settled : current.evidence.processScopeSettled = true → evidence.processScopeSettled = true) :
    Moves keys stops current next := by
  obtain ⟨revision, handoff, evidenceEq, native, trace⟩ := makeState_ok made
  subst evidenceEq
  refine ⟨⟨by omega, by rw [handoff], by rw [handoff], .inl (by rw [handoff]), ?_, ?_, ?_, exited,
    cleanup, settled⟩, revision, ?_, fun _ => ending, ?_⟩
  · rw [handoff]
    exact id
  · intro identity known
    rwa [native]
  · intro receipt known
    rwa [trace]
  · intro identity known
    rw [native] at known
    exact .inl known
  · rw [handoff]
    exact .inl

variable {other : ManagedHandoffV1}

theorem commit_ok (accepted : handoff.commit = .ok other) :
    handoff.stopRequested = false ∧ handoff.phase ≠ .aborting ∧
      other = { handoff with phase := .committed } := by
  unfold ManagedHandoffV1.commit at accepted
  obtain ⟨allowed, accepted⟩ := raise_if_ok accepted
  cases accepted
  rw [not_or, Bool.not_eq_true] at allowed
  exact ⟨allowed.1, allowed.2, rfl⟩

theorem abort_ok (accepted : handoff.abort = .ok other) :
    handoff.phase ≠ .committed ∧ other = { handoff with phase := .aborting } := by
  unfold ManagedHandoffV1.abort at accepted
  obtain ⟨allowed, accepted⟩ := raise_if_ok accepted
  cases accepted
  exact ⟨allowed, rfl⟩

variable {attemptId : PyStr} {identity : LinuxServiceIdentityV1}

theorem registerNativeUpdate_ok (accepted : registerNativeUpdate attemptId identity current = .ok next) :
    current.handoff.attemptId = attemptId ∧
      ((current.nativeIdentity = some identity ∧ next = current) ∨
        (current.nativeIdentity = none ∧
          makeState current.revision current.handoff current.evidence (some identity)
            current.traceApplication = .ok next)) := by
  unfold registerNativeUpdate at accepted
  obtain ⟨attempt, accepted⟩ := raise_if_ok accepted
  refine ⟨Decidable.not_not.mp attempt, ?_⟩
  split at accepted
  · rename_i known
    cases accepted
    exact .inl ⟨known, rfl⟩
  · obtain ⟨fresh, accepted⟩ := raise_if_ok accepted
    rw [not_or, Decidable.not_not] at fresh
    exact .inr ⟨fresh.1, accepted⟩

theorem commitUpdate_ok (accepted : commitUpdate attemptId identity current = .ok next) :
    current.handoff.attemptId = attemptId ∧ current.nativeIdentity = some identity ∧
      current.handoff.stopRequested = false ∧ current.handoff.phase ≠ .aborting ∧
      replaceHandoff current { current.handoff with phase := .committed } = .ok next := by
  unfold commitUpdate at accepted
  obtain ⟨child, accepted⟩ := raise_if_ok accepted
  rw [not_or, Decidable.not_not, Decidable.not_not] at child
  obtain ⟨handoff, committed, made⟩ := Except.bind_ok_iff.mp accepted
  obtain ⟨running, notAborting, rfl⟩ := commit_ok committed
  exact ⟨child.1, child.2, running, notAborting, made⟩

theorem abortUpdate_ok {identity : Option LinuxServiceIdentityV1}
    (accepted : abortUpdate attemptId identity current = .ok next) :
    current.handoff.attemptId = attemptId ∧
      ¬(identity ≠ none ∧ current.nativeIdentity ≠ none ∧ identity ≠ current.nativeIdentity) ∧
      current.handoff.phase ≠ .committed ∧
      replaceHandoff current { current.handoff with phase := .aborting } = .ok next := by
  unfold abortUpdate at accepted
  obtain ⟨attempt, accepted⟩ := raise_if_ok accepted
  obtain ⟨allowed, accepted⟩ := raise_if_ok accepted
  obtain ⟨handoff, aborted, made⟩ := Except.bind_ok_iff.mp accepted
  obtain ⟨notCommitted, rfl⟩ := abort_ok aborted
  exact ⟨Decidable.not_not.mp attempt, allowed, notCommitted, made⟩

variable {native : LinuxServiceIdentityV1}

theorem requestChildStopUpdate_ok (accepted : requestChildStopUpdate attemptId native current = .ok next) :
    ¬strangeChild current attemptId native ∧
      ∃ phase, phase ≠ .provisional ∧
        (phase = current.handoff.phase ∨ current.handoff.phase = .provisional) ∧
        replaceHandoff current { current.handoff with phase := phase, stopRequested := true } =
          .ok next := by
  unfold requestChildStopUpdate at accepted
  obtain ⟨child, accepted⟩ := raise_if_ok accepted
  refine ⟨child, ?_⟩
  split at accepted
  · rename_i provisional
    obtain ⟨handoff, aborted, made⟩ := Except.bind_ok_iff.mp accepted
    obtain ⟨-, rfl⟩ := abort_ok aborted
    exact ⟨.aborting, by decide, .inr provisional, made⟩
  · rename_i decided
    exact ⟨current.handoff.phase, decided, .inl rfl, accepted⟩

theorem recordChildCleanupUpdate_ok (accepted : recordChildCleanupUpdate attemptId native current = .ok next) :
    ¬strangeChild current attemptId native ∧ current.ending ∧
      replaceEvidence current { current.evidence with applicationCleanupCompleted := true } =
        .ok next := by
  unfold recordChildCleanupUpdate at accepted
  obtain ⟨child, accepted⟩ := raise_if_ok accepted
  obtain ⟨ending, accepted⟩ := raise_if_ok accepted
  exact ⟨child, Decidable.not_not.mp ending, accepted⟩

variable {settled : Bool}

theorem recordNativeStopUpdate_ok {exited : Bool}
    (accepted : recordNativeStopUpdate native exited settled current = .ok next) :
    current.nativeIdentity = some native ∧ current.ending ∧
      replaceEvidence current
        { current.evidence with
          processExited := current.evidence.processExited || exited
          processScopeSettled := current.evidence.processScopeSettled || settled } = .ok next := by
  unfold recordNativeStopUpdate at accepted
  obtain ⟨allowed, accepted⟩ := raise_if_ok accepted
  rw [not_or, Decidable.not_not, Decidable.not_not] at allowed
  exact ⟨allowed.1, allowed.2, accepted⟩

theorem recordStopEvidenceUpdate_ok (accepted : recordStopEvidenceUpdate evidence current = .ok next) :
    current.ending ∧
      replaceEvidence current
        { instanceRef := evidence.instanceRef
          processExited := current.evidence.processExited || evidence.processExited
          applicationCleanupCompleted :=
            current.evidence.applicationCleanupCompleted || evidence.applicationCleanupCompleted
          processScopeSettled :=
            current.evidence.processScopeSettled || evidence.processScopeSettled } = .ok next := by
  unfold recordStopEvidenceUpdate at accepted
  obtain ⟨ending, accepted⟩ := raise_if_ok accepted
  exact ⟨Decidable.not_not.mp ending, accepted⟩

theorem registerNative_moves (mine : identity.userId = keys.userId)
    (accepted : registerNativeUpdate attemptId identity current = .ok next) :
    Moves keys stops current next := by
  obtain ⟨-, ⟨-, rfl⟩ | ⟨unset, made⟩⟩ := registerNativeUpdate_ok accepted
  · exact .same
  · obtain ⟨revision, handoff, evidence, native, trace⟩ := makeState_ok made
    apply Moves.of_fact revision handoff evidence
    · intro other known
      rw [unset] at known
      cases known
    · intro receipt known
      rwa [trace]
    · intro other known
      rw [native, Option.some.injEq] at known
      subst known
      exact .inr mine

theorem commit_moves (accepted : commitUpdate attemptId identity current = .ok next) :
    Moves keys stops current next := by
  obtain ⟨-, -, -, notAborting, made⟩ := commitUpdate_ok accepted
  refine .of_handoff made rfl rfl ?_ id .inl
  cases phase : current.handoff.phase with
  | provisional => exact .inr rfl
  | committed => exact .inl rfl
  | aborting => exact absurd phase notAborting

theorem trace_moves {expired : Bool} {receipt : ManagedTraceApplicationV1}
    (accepted : traceUpdate expired attemptId identity receipt current = .ok next) :
    Moves keys stops current next := by
  obtain ⟨-, -, ⟨-, rfl⟩ | ⟨unset, made⟩⟩ := traceUpdate_ok accepted
  · exact .same
  · obtain ⟨revision, handoff, evidence, native, trace⟩ := makeState_ok made
    apply Moves.of_fact revision handoff evidence
    · intro other known
      rwa [native]
    · intro other known
      rw [unset] at known
      cases known
    · intro other known
      rw [native] at known
      exact .inl known

theorem abort_moves {identity : Option LinuxServiceIdentityV1}
    (accepted : abortUpdate attemptId identity current = .ok next) : Moves keys stops current next := by
  obtain ⟨-, -, notCommitted, made⟩ := abortUpdate_ok accepted
  refine .of_handoff made rfl rfl ?_ id .inl
  cases phase : current.handoff.phase with
  | provisional => exact .inr rfl
  | committed => exact absurd phase notCommitted
  | aborting => exact .inl rfl

theorem requestStop_moves (accepted : requestStopUpdate current = .ok next) :
    Moves keys true current next :=
  .of_handoff accepted rfl rfl (.inl rfl) (fun _ => rfl) fun _ => .inr rfl

theorem requestChildStop_moves (accepted : requestChildStopUpdate attemptId native current = .ok next) :
    Moves keys true current next := by
  obtain ⟨-, phase, -, before, made⟩ := requestChildStopUpdate_ok accepted
  exact .of_handoff made rfl rfl before (fun _ => rfl) fun _ => .inr rfl

theorem recordChildCleanup_moves (accepted : recordChildCleanupUpdate attemptId native current = .ok next) :
    Moves keys stops current next := by
  obtain ⟨-, ending, made⟩ := recordChildCleanupUpdate_ok accepted
  exact .of_evidence made ending id (fun _ => rfl) id

theorem recordNativeStop_moves {exited : Bool}
    (accepted : recordNativeStopUpdate native exited settled current = .ok next) :
    Moves keys stops current next := by
  obtain ⟨-, ending, made⟩ := recordNativeStopUpdate_ok accepted
  exact .of_evidence made ending (Bool.or_eq_true_iff.mpr <| .inl ·) id
    (Bool.or_eq_true_iff.mpr <| .inl ·)

theorem recordStopEvidence_moves (accepted : recordStopEvidenceUpdate evidence current = .ok next) :
    Moves keys stops current next := by
  obtain ⟨ending, made⟩ := recordStopEvidenceUpdate_ok accepted
  exact .of_evidence made ending (Bool.or_eq_true_iff.mpr <| .inl ·)
    (Bool.or_eq_true_iff.mpr <| .inl ·) (Bool.or_eq_true_iff.mpr <| .inl ·)

theorem Makes.moves {env : Surroundings} {call : JournalCall} {ref : ManagedInstanceRefV1}
    {update : Update} (makes : Makes keys env call ref update) (accepted : update current = .ok next) :
    Moves keys call.stops current next := by
  cases makes with
  | registerNative mine => exact registerNative_moves mine accepted
  | commit => exact commit_moves accepted
  | recordTraceApplication => exact trace_moves accepted
  | publishTrace => exact trace_moves accepted
  | abort => exact abort_moves accepted
  | requestStop => exact requestStop_moves accepted
  | requestChildStop => exact requestChildStop_moves accepted
  | recordChildCleanup => exact recordChildCleanup_moves accepted
  | recordNativeStop => exact recordNativeStop_moves accepted
  | recordStopEvidence => exact recordStopEvidence_moves accepted

end Moves

/-! ## Repeated calls -/

/-- What an accepted call leaves on record. -/
def JournalCall.recorded : JournalCall → ManagedServiceStateV1 → Prop
  | .prepare .., _ => False
  | .registerNative _ _ identity, state => state.nativeIdentity = some identity
  | .commit .., state => state.handoff.phase = .committed
  | .recordTraceApplication .., state => state.traceApplication ≠ none
  | .publishTrace .., state => state.traceApplication ≠ none
  | .abort .., state => state.handoff.phase = .aborting
  | .requestStop _, state => state.handoff.stopRequested = true
  | .requestChildStop .., state =>
    state.handoff.stopRequested = true ∧ state.handoff.phase ≠ .provisional
  | .recordChildCleanup .., state => state.evidence.applicationCleanupCompleted = true
  | .recordNativeStop _ _ exited settled, state =>
    (exited = true → state.evidence.processExited = true) ∧
      (settled = true → state.evidence.processScopeSettled = true)
  | .recordStopEvidence evidence, state =>
    (evidence.processExited = true → state.evidence.processExited = true) ∧
      (evidence.applicationCleanupCompleted = true →
        state.evidence.applicationCleanupCompleted = true) ∧
      (evidence.processScopeSettled = true → state.evidence.processScopeSettled = true)

section Again
variable {env : Surroundings} {call : JournalCall} {ref : ManagedInstanceRefV1} {update : Update}
  {current next earlier later : ManagedServiceStateV1}

theorem JournalCall.recorded_of_facts (same : SameFacts later earlier)
    (recorded : call.recorded earlier) : call.recorded later := by
  obtain ⟨handoff, evidence, native, trace⟩ := same
  cases call <;> simp only [JournalCall.recorded, handoff, evidence, native, trace] at recorded ⊢ <;>
    exact recorded

theorem JournalCall.recorded_later (advance : Advance earlier later)
    (recorded : call.recorded earlier) : call.recorded later := by
  have decided : earlier.handoff.phase ≠ .provisional →
      later.handoff.phase = earlier.handoff.phase := advance.phase.resolve_right
  cases call with
  | prepare => exact recorded
  | registerNative => exact advance.native _ recorded
  | commit => exact (decided (by rw [recorded]; decide)).trans recorded
  | recordTraceApplication =>
    obtain ⟨receipt, known⟩ := Option.ne_none_iff_exists'.mp recorded
    exact Option.ne_none_iff_exists'.mpr ⟨receipt, advance.trace receipt known⟩
  | publishTrace =>
    obtain ⟨receipt, known⟩ := Option.ne_none_iff_exists'.mp recorded
    exact Option.ne_none_iff_exists'.mpr ⟨receipt, advance.trace receipt known⟩
  | abort => exact (decided (by rw [recorded]; decide)).trans recorded
  | requestStop => exact advance.stopRequested recorded
  | requestChildStop => exact ⟨advance.stopRequested recorded.1, by rw [decided recorded.2]; exact recorded.2⟩
  | recordChildCleanup => exact advance.cleanupCompleted recorded
  | recordNativeStop =>
    exact ⟨advance.processExited ∘ recorded.1, advance.scopeSettled ∘ recorded.2⟩
  | recordStopEvidence =>
    exact ⟨advance.processExited ∘ recorded.1, advance.cleanupCompleted ∘ recorded.2.1,
      advance.scopeSettled ∘ recorded.2.2⟩

theorem Makes.records (makes : Makes keys env call ref update) (accepted : update current = .ok next) :
    call.recorded next := by
  cases makes with
  | registerNative =>
    obtain ⟨-, ⟨known, rfl⟩ | ⟨-, made⟩⟩ := registerNativeUpdate_ok accepted
    · exact known
    · exact (makeState_ok made).2.2.2.1
  | commit =>
    obtain ⟨-, -, -, -, made⟩ := commitUpdate_ok accepted
    exact congrArg ManagedHandoffV1.phase (makeState_ok made).2.1
  | recordTraceApplication =>
    obtain ⟨-, -, ⟨known, rfl⟩ | ⟨-, made⟩⟩ := traceUpdate_ok accepted
    · exact Option.ne_none_iff_exists'.mpr ⟨_, known⟩
    · exact Option.ne_none_iff_exists'.mpr ⟨_, (makeState_ok made).2.2.2.2⟩
  | publishTrace =>
    obtain ⟨-, -, ⟨known, rfl⟩ | ⟨-, made⟩⟩ := traceUpdate_ok accepted
    · exact Option.ne_none_iff_exists'.mpr ⟨_, known⟩
    · exact Option.ne_none_iff_exists'.mpr ⟨_, (makeState_ok made).2.2.2.2⟩
  | abort =>
    obtain ⟨-, -, -, made⟩ := abortUpdate_ok accepted
    exact congrArg ManagedHandoffV1.phase (makeState_ok made).2.1
  | requestStop => exact congrArg ManagedHandoffV1.stopRequested (makeState_ok accepted).2.1
  | requestChildStop =>
    obtain ⟨-, phase, decided, -, made⟩ := requestChildStopUpdate_ok accepted
    have handoff := (makeState_ok made).2.1
    rw [JournalCall.recorded, handoff]
    exact ⟨rfl, decided⟩
  | recordChildCleanup =>
    obtain ⟨-, -, made⟩ := recordChildCleanupUpdate_ok accepted
    exact congrArg ManagedStopEvidenceV1.applicationCleanupCompleted (makeState_ok made).2.2.1
  | recordNativeStop =>
    obtain ⟨-, -, made⟩ := recordNativeStopUpdate_ok accepted
    rw [JournalCall.recorded, (makeState_ok made).2.2.1]
    exact ⟨(Bool.or_eq_true_iff.mpr <| .inr ·), (Bool.or_eq_true_iff.mpr <| .inr ·)⟩
  | recordStopEvidence =>
    obtain ⟨-, made⟩ := recordStopEvidenceUpdate_ok accepted
    rw [JournalCall.recorded, (makeState_ok made).2.2.1]
    exact ⟨(Bool.or_eq_true_iff.mpr <| .inr ·), (Bool.or_eq_true_iff.mpr <| .inr ·),
      (Bool.or_eq_true_iff.mpr <| .inr ·)⟩

theorem makeState_self (state : ManagedServiceStateV1) :
    makeState state.revision state.handoff state.evidence state.nativeIdentity
      state.traceApplication = .ok state :=
  dif_pos state.admitted

variable {handoff : ManagedHandoffV1}

theorem replaceHandoff_same (made : replaceHandoff current handoff = .ok next)
    (same : handoff = current.handoff) : next = current := by
  rw [replaceHandoff, same, makeState_self] at made
  cases made
  rfl

variable {evidence : ManagedStopEvidenceV1}

theorem replaceEvidence_same (made : replaceEvidence current evidence = .ok next)
    (same : evidence = current.evidence) : next = current := by
  rw [replaceEvidence, same, makeState_self] at made
  cases made
  rfl

theorem or_absorb {old new : Bool} (known : new = true → old = true) : (old || new) = old := by
  cases new with
  | false => exact Bool.or_false old
  | true => rw [known rfl, Bool.or_true]

/-- What is on record is not changed by the call that put it there. -/
theorem Makes.again (makes : Makes keys env call ref update) (recorded : call.recorded current)
    (accepted : update current = .ok next) : next = current := by
  cases makes with
  | registerNative =>
    obtain ⟨-, ⟨-, same⟩ | ⟨unset, -⟩⟩ := registerNativeUpdate_ok accepted
    · exact same
    · rw [JournalCall.recorded, unset] at recorded
      cases recorded
  | commit =>
    obtain ⟨-, -, -, -, made⟩ := commitUpdate_ok accepted
    exact replaceHandoff_same made (by rw [← show _ = ManagedHandoffPhaseV1.committed from recorded])
  | recordTraceApplication => exact traceUpdate_recorded recorded accepted
  | publishTrace => exact traceUpdate_recorded recorded accepted
  | abort =>
    obtain ⟨-, -, -, made⟩ := abortUpdate_ok accepted
    exact replaceHandoff_same made (by rw [← show _ = ManagedHandoffPhaseV1.aborting from recorded])
  | requestStop =>
    refine replaceHandoff_same accepted ?_
    rw [ManagedHandoffV1.requestStop, ← show _ = true from recorded]
  | requestChildStop =>
    obtain ⟨-, phase, -, before, made⟩ := requestChildStopUpdate_ok accepted
    obtain ⟨stopped, decided⟩ := recorded
    obtain rfl := before.resolve_right decided
    exact replaceHandoff_same made (by rw [← stopped])
  | recordChildCleanup =>
    obtain ⟨-, -, made⟩ := recordChildCleanupUpdate_ok accepted
    exact replaceEvidence_same made (by rw [← show _ = true from recorded])
  | recordNativeStop =>
    obtain ⟨-, -, made⟩ := recordNativeStopUpdate_ok accepted
    obtain ⟨exited, settled⟩ := recorded
    exact replaceEvidence_same made (by rw [or_absorb exited, or_absorb settled])
  | @recordStopEvidence evidence =>
    obtain ⟨-, made⟩ := recordStopEvidenceUpdate_ok accepted
    obtain ⟨exited, cleanup, settled⟩ := recorded
    have mine : evidence.instanceRef = current.evidence.instanceRef := by
      obtain ⟨-, handoff, facts, -, -⟩ := makeState_ok made
      have own := next.admitted.2.1
      rw [handoff, facts] at own
      exact own.symm.trans current.admitted.2.1
    exact replaceEvidence_same made
      (by rw [or_absorb exited, or_absorb cleanup, or_absorb settled, mine])

variable {state : ManagedServiceStateV1} {attemptId : PyStr}

theorem strangeChild_same {native : LinuxServiceIdentityV1}
    (attempt : state.handoff.attemptId = current.handoff.attemptId)
    (identity : state.nativeIdentity = current.nativeIdentity)
    (child : ¬strangeChild current attemptId native) : ¬strangeChild state attemptId native := by
  unfold strangeChild at child ⊢
  rwa [attempt, identity]

theorem replaceHandoff_self (same : handoff = current.handoff) :
    replaceHandoff current handoff = .ok current := by
  rw [replaceHandoff, same, makeState_self]

theorem replaceEvidence_self (same : evidence = current.evidence) :
    replaceEvidence current evidence = .ok current := by
  rw [replaceEvidence, same, makeState_self]

theorem ending_same (handoff : state.handoff = current.handoff) (ending : current.ending) : state.ending := by
  unfold ManagedServiceStateV1.ending at ending ⊢
  rwa [handoff]

theorem traceUpdate_atOnce {expired expired' : Bool} {identity : LinuxServiceIdentityV1}
    {receipt : ManagedTraceApplicationV1}
    (accepted : traceUpdate expired attemptId identity receipt current = .ok next)
    (facts : SameFacts state next) : traceUpdate expired' attemptId identity receipt state = .ok state := by
  obtain ⟨handoffEq, -, nativeEq, traceEq⟩ := facts
  obtain ⟨attempt, native, written⟩ := traceUpdate_ok accepted
  have known : next.handoff = current.handoff ∧ next.nativeIdentity = current.nativeIdentity ∧
      next.traceApplication = some receipt := by
    rcases written with ⟨known, rfl⟩ | ⟨-, made⟩
    · exact ⟨rfl, rfl, known⟩
    · obtain ⟨-, handoff, -, identity, trace⟩ := makeState_ok made
      exact ⟨handoff, identity, trace⟩
  rw [known.1] at handoffEq
  rw [known.2.1] at nativeEq
  rw [known.2.2] at traceEq
  rw [traceUpdate, if_neg, traceEq]
  · exact if_neg (not_not.mpr rfl)
  · rw [handoffEq, nativeEq]
    exact not_or.mpr ⟨not_not.mpr attempt, not_not.mpr native⟩

/-- An accepted call that is made once more finds its own work and accepts it. -/
theorem Makes.atOnce {env' : Surroundings} {update' : Update} (makes : Makes keys env call ref update)
    (accepted : update current = .ok next) (again : Makes keys env' call ref update')
    (facts : SameFacts state next) : update' state = .ok state := by
  have recorded := JournalCall.recorded_of_facts facts (makes.records accepted)
  obtain ⟨handoffEq, evidenceEq, nativeEq, traceEq⟩ := facts
  cases makes with
  | @registerNative _ attemptId =>
    cases again
    have attempt : state.handoff.attemptId = attemptId := by
      obtain ⟨attempt, ⟨-, rfl⟩ | ⟨-, made⟩⟩ := registerNativeUpdate_ok accepted
      · rw [handoffEq, attempt]
      · rw [handoffEq, (makeState_ok made).2.1, attempt]
    rw [registerNativeUpdate, if_neg (not_not.mpr attempt)]
    exact if_pos recorded
  | commit =>
    cases again
    obtain ⟨attempt, identity, running, -, made⟩ := commitUpdate_ok accepted
    obtain ⟨-, handoff, -, native, -⟩ := makeState_ok made
    rw [handoff] at handoffEq
    rw [commitUpdate, if_neg, ManagedHandoffV1.commit, if_neg]
    · exact replaceHandoff_self (by rw [handoffEq])
    · rw [handoffEq]
      simp [running]
    · rw [handoffEq, nativeEq, native]
      simp [attempt, identity]
  | recordTraceApplication made =>
    cases again with
    | recordTraceApplication again =>
      rw [made, Except.ok.injEq] at again
      subst again
      exact traceUpdate_atOnce accepted ⟨handoffEq, evidenceEq, nativeEq, traceEq⟩
  | publishTrace made =>
    cases again with
    | publishTrace again =>
      rw [made, Except.ok.injEq] at again
      subst again
      exact traceUpdate_atOnce accepted ⟨handoffEq, evidenceEq, nativeEq, traceEq⟩
  | abort =>
    cases again
    obtain ⟨attempt, allowed, -, made⟩ := abortUpdate_ok accepted
    obtain ⟨-, handoff, -, native, -⟩ := makeState_ok made
    rw [handoff] at handoffEq
    rw [abortUpdate, if_neg, if_neg, ManagedHandoffV1.abort, if_neg]
    · exact replaceHandoff_self (by rw [handoffEq])
    · rw [handoffEq]
      simp
    · rwa [nativeEq, native]
    · rw [handoffEq]
      exact not_not.mpr attempt
  | requestStop =>
    cases again
    refine replaceHandoff_self ?_
    rw [ManagedHandoffV1.requestStop, ← show _ = true from recorded]
  | requestChildStop =>
    cases again
    obtain ⟨child, phase, decided, -, made⟩ := requestChildStopUpdate_ok accepted
    obtain ⟨-, handoff, -, native, -⟩ := makeState_ok made
    rw [handoff] at handoffEq
    rw [native] at nativeEq
    rw [requestChildStopUpdate, if_neg (strangeChild_same (by rw [handoffEq]) nativeEq child),
      if_neg recorded.2]
    exact replaceHandoff_self (by rw [ManagedHandoffV1.requestStop, ← recorded.1])
  | recordChildCleanup =>
    cases again
    obtain ⟨child, ending, made⟩ := recordChildCleanupUpdate_ok accepted
    obtain ⟨-, handoff, -, native, -⟩ := makeState_ok made
    rw [handoff] at handoffEq
    rw [native] at nativeEq
    rw [recordChildCleanupUpdate, if_neg (strangeChild_same (by rw [handoffEq]) nativeEq child),
      if_neg (not_not.mpr (ending_same handoffEq ending))]
    exact replaceEvidence_self (by rw [← show _ = true from recorded])
  | recordNativeStop =>
    cases again
    obtain ⟨identity, ending, made⟩ := recordNativeStopUpdate_ok accepted
    obtain ⟨-, handoff, -, native, -⟩ := makeState_ok made
    rw [handoff] at handoffEq
    rw [native] at nativeEq
    rw [recordNativeStopUpdate, if_neg]
    · exact replaceEvidence_self (by rw [or_absorb recorded.1, or_absorb recorded.2])
    · rw [nativeEq]
      exact not_or.mpr ⟨not_not.mpr identity, not_not.mpr (ending_same handoffEq ending)⟩
  | @recordStopEvidence evidence =>
    cases again
    obtain ⟨ending, made⟩ := recordStopEvidenceUpdate_ok accepted
    obtain ⟨-, handoff, facts, -, -⟩ := makeState_ok made
    rw [handoff] at handoffEq
    have mine : evidence.instanceRef = state.evidence.instanceRef := by rw [evidenceEq, facts]
    obtain ⟨exited, cleanup, settled⟩ := recorded
    rw [recordStopEvidenceUpdate, if_neg (not_not.mpr (ending_same handoffEq ending))]
    exact replaceEvidence_self
      (by rw [or_absorb exited, or_absorb cleanup, or_absorb settled, mine])

end Again

end Loushang.AppHost
