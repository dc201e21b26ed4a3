import Loushang.AppHost.ServiceUpdates

/-!
# Runs of the managed service journal

What one call does to the two rows, and what follows for every sequence of calls: the rows
decode, revisions count the writes, and within one generation facts are only added.
-/
namespace Loushang.AppHost
open Lib

/-! ## Rows that decode -/

/-- The rows hold a state and the transition that began its generation. -/
structure Recorded (keys : JournalKeys) (rows : ServiceRows) (state : ManagedServiceStateV1)
    (transition : ManagedServiceTransitionV1) : Prop where
  row : rows.state = some (stateRow state)
  belongs : Belongs keys state
  transitionRow : rows.transition =
    some ⟨transition.instanceRef.instanceId, transition.attemptId, transition.startedRevision,
      encodePrevious transition.previous⟩
  sameInstance : transition.instanceRef = state.handoff.instanceRef
  sameAttempt : transition.attemptId = state.handoff.attemptId
  started : transition.startedRevision ≤ state.revision
  previous : ∀ before ∈ transition.previous, Belongs keys before

variable {keys : JournalKeys} {rows rows' : ServiceRows}

variable {state : ManagedServiceStateV1} {transition : ManagedServiceTransitionV1}

theorem Recorded.readState (recorded : Recorded keys rows state transition) :
    AppHost.readState keys rows = .ok (some state) := by
  rw [AppHost.readState, recorded.row]
  simp only [decodeState_stateRow recorded.belongs]

theorem Recorded.decodeTransition (recorded : Recorded keys rows state transition) :
    AppHost.decodeTransition keys state
      ⟨transition.instanceRef.instanceId, transition.attemptId, transition.startedRevision,
        encodePrevious transition.previous⟩ = some transition := by
  obtain ⟨row, ⟨namespaceEq, serviceEq, user⟩, transitionRow, sameInstance, sameAttempt, started, previous⟩ :=
    recorded
  obtain ⟨instanceRef, attemptId, startedRevision, before, admitted⟩ := transition
  dsimp only at *
  have readBefore : decodeColumn keys (encodePrevious before) = some before := by
    cases before with
    | none => rfl
    | some state =>
      obtain ⟨text, encoded, decoded⟩ := decodePrevious_encodePrevious (previous state rfl)
      rw [encoded, decodeColumn, decoded, Option.map_some]
  have ref : keys.refOf instanceRef.instanceId instanceRef.instanceId_hex = instanceRef := by
    subst sameInstance
    unfold JournalKeys.refOf
    cases h : state.handoff.instanceRef
    simp only [h] at namespaceEq serviceEq ⊢
    simp only [namespaceEq, serviceEq]
  have made : makeTransition instanceRef attemptId startedRevision before =
      .ok ⟨instanceRef, attemptId, startedRevision, before, admitted⟩ := dif_pos admitted
  have hex : decodeHex32 (.str instanceRef.instanceId) =
      some ⟨instanceRef.instanceId, instanceRef.instanceId_hex⟩ := dif_pos instanceRef.instanceId_hex
  simp only [AppHost.decodeTransition, readBefore, hex, ref, made, Option.bind_eq_bind,
    Option.bind_some, Except.toOption]
  exact if_neg (by simp [sameInstance, sameAttempt, started])

theorem Recorded.readService (recorded : Recorded keys rows state transition) :
    AppHost.readService keys rows = .ok (some state) := by
  simp only [AppHost.readService, recorded.readState, readTransition, recorded.transitionRow,
    recorded.decodeTransition]

theorem readService_empty : readService keys .empty = .ok none := rfl

/-- The rows of a service that some calls were made on. -/
def Sound (keys : JournalKeys) (rows : ServiceRows) : Prop :=
  rows = .empty ∨ ∃ state transition, Recorded keys rows state transition

/-! ## A new generation -/

/-- A generation as `prepare` stores it first. -/
structure Fresh (state : ManagedServiceStateV1) : Prop where
  phase : state.handoff.phase = .provisional
  stopRequested : state.handoff.stopRequested = false
  evidence : state.evidence.any = false
  native : state.nativeIdentity = none
  trace : state.traceApplication = none

def revisionOf : Option ManagedServiceStateV1 → Int
  | none => 0
  | some state => state.revision

variable {current : Option ManagedServiceStateV1}

theorem nextRevision_revisionOf {revision : Int} (next : nextRevision current = .ok revision) :
    revision = revisionOf current + 1 := by
  cases current with
  | none =>
    cases next
    rfl
  | some state => exact nextRevision_ok next

variable {ref : ManagedInstanceRefV1} {attemptId : PyStr}

theorem makeTransition_ok {startedRevision : Int} {previous : Option ManagedServiceStateV1}
    (made : makeTransition ref attemptId startedRevision previous = .ok transition) :
    transition.instanceRef = ref ∧ transition.attemptId = attemptId ∧
      transition.startedRevision = startedRevision ∧ transition.previous = previous := by
  unfold makeTransition at made
  split at made
  · cases made
    exact ⟨rfl, rfl, rfl, rfl⟩
  · cases made

/-- The update of the call was accepted, and `state` is what it led to. -/
def Accepted (keys : JournalKeys) (env : Surroundings) (call : JournalCall)
    (state : ManagedServiceStateV1) : Prop :=
  ∃ update before proposed, Makes keys env call state.handoff.instanceRef update ∧
    update before = .ok proposed ∧ SameFacts state proposed

/-- What a call does to rows that decode. -/
inductive Effect (keys : JournalKeys) (rows : ServiceRows) (call : JournalCall)
    (env : Surroundings) : Outcome × ServiceRows → Prop where
  | refused (error : ManagedError) : Effect keys rows call env (.refused error, rows)
  | kept {outcome : Outcome} {current : ManagedServiceStateV1}
    (read : readService keys rows = .ok (some current)) (accepted : Accepted keys env call current)
    (answers : outcome.answers current) : Effect keys rows call env (outcome, rows)
  | advanced {outcome : Outcome} {current state : ManagedServiceStateV1}
    {transition : ManagedServiceTransitionV1} {rows' : ServiceRows}
    (before : Recorded keys rows current transition)
    (after : Recorded keys rows' state transition) (advance : Advance current state)
    (revision : state.revision = current.revision + 1)
    (evidence : state.evidence ≠ current.evidence → current.ending)
    (stopRequested : state.handoff.stopRequested = true →
      current.handoff.stopRequested = true ∨ call.stops = true)
    (accepted : Accepted keys env call state) (answers : outcome.answers state) :
    Effect keys rows call env (outcome, rows')
  | started {outcome : Outcome} {current : Option ManagedServiceStateV1}
    {state : ManagedServiceStateV1} {transition : ManagedServiceTransitionV1} {rows' : ServiceRows}
    (read : readService keys rows = .ok current)
    (prepares : ∃ attemptId, call = .prepare attemptId current)
    (after : Recorded keys rows' state transition)
    (clean : ∀ previous ∈ current, previous.cleanlyStopped = true ∧
      state.handoff.instanceRef ≠ previous.handoff.instanceRef)
    (fresh : Fresh state) (revision : state.revision = revisionOf current + 1)
    (started : transition.startedRevision = state.revision)
    (answers : outcome.answers state) : Effect keys rows call env (outcome, rows')

theorem Sound.readService (sound : Sound keys rows) :
    ∃ current, AppHost.readService keys rows = .ok current ∧
      ∀ previous ∈ current, Belongs keys previous := by
  rcases sound with rfl | ⟨state, transition, recorded⟩
  · exact ⟨none, rfl, fun _ => nofun⟩
  · refine ⟨some state, recorded.readService, ?_⟩
    intro previous member
    rw [← Option.mem_some.mp member]
    exact recorded.belongs

theorem prepare_effect (sound : Sound keys rows) (env : Surroundings) (attemptId : PyStr)
    (expected : Option ManagedServiceStateV1) :
    Effect keys rows (.prepare attemptId expected) env
      (prepare keys rows env attemptId expected) := by
  obtain ⟨current, read, belongs⟩ := sound.readService
  unfold prepare
  split
  · rename_i attemptHex
    cases env.refuses with
    | some error => exact .refused error
    | none =>
      simp only [read]
      split
      · exact .refused _
      · rename_i same
        obtain rfl := Decidable.not_not.mp same
        split
        · exact .refused _
        · rename_i clean
          split
          · exact .refused _
          · cases env.full with
            | some code => exact .refused _
            | none =>
              dsimp only
              split
              · exact .refused _
              · rename_i newToken
                cases next : nextRevision current with
                | error code => exact .refused _
                | ok revision =>
                  dsimp only
                  cases made : makeState revision
                      ⟨keys.refOf env.token.val env.token.property, attemptId, .provisional, false,
                        attemptHex⟩
                      ⟨keys.refOf env.token.val env.token.property, false, false, false⟩ none none with
                  | error error => exact .refused _
                  | ok state =>
                    dsimp only
                    cases begun : makeTransition (keys.refOf env.token.val env.token.property)
                        attemptId state.revision current with
                    | error error => exact .refused _
                    | ok transition =>
                      obtain ⟨counted, handoff, evidence, native, trace⟩ := makeState_ok made
                      obtain ⟨ref, attempt, started, previous⟩ := makeTransition_ok begun
                      have after : Recorded keys
                          { state := some (stateRow state)
                            transition := some ⟨env.token.val, attemptId, transition.startedRevision,
                              encodePrevious current⟩ } state transition := by
                        refine ⟨rfl, ⟨by rw [handoff]; rfl, by rw [handoff]; rfl, ?_⟩, ?_, ?_, ?_,
                          Int.le_of_eq started, ?_⟩
                        · rw [native]
                          simp
                        · rw [ref, attempt, previous]
                          rfl
                        · rw [handoff, ref]
                        · rw [handoff, attempt]
                        · rw [previous]
                          exact belongs
                      have distinct : ∀ previous ∈ current, previous.cleanlyStopped = true ∧
                          state.handoff.instanceRef ≠ previous.handoff.instanceRef := by
                        intro previous member
                        refine ⟨?_, ?_⟩
                        · by_contra running
                          exact clean ⟨previous, member, Bool.not_eq_true _ ▸ running⟩
                        · rw [handoff]
                          intro same
                          exact newToken ⟨previous, member, congrArg ManagedInstanceRefV1.instanceId same⟩
                      have fresh : Fresh state := by
                        refine ⟨?_, ?_, ?_, native, trace⟩
                        · rw [handoff]
                        · rw [handoff]
                        · rw [evidence]
                          rfl
                      have revisionEq := counted.trans (nextRevision_revisionOf next)
                      dsimp only
                      rcases settle_cases env rows _ state with ⟨error, eq⟩ | ⟨outcome, answers, eq⟩
                      · rw [eq]
                        exact .refused _
                      · rw [eq]
                        exact .started read ⟨_, rfl⟩ after distinct fresh revisionEq started answers
  · exact .refused _

theorem Recorded.save {current : ManagedServiceStateV1} (recorded : Recorded keys rows current transition)
    (advance : Advance current state)
    (user : ∀ identity ∈ state.nativeIdentity, identity.userId = keys.userId) :
    Recorded keys (rows.save state) state transition where
  row := rfl
  belongs := ⟨by rw [advance.instanceRef]; exact recorded.belongs.namespaceKey,
    by rw [advance.instanceRef]; exact recorded.belongs.serviceId, user⟩
  transitionRow := recorded.transitionRow
  sameInstance := recorded.sameInstance.trans advance.instanceRef.symm
  sameAttempt := recorded.sameAttempt.trans advance.attemptId.symm
  started := Int.le_trans recorded.started advance.revision
  previous := recorded.previous

theorem Sound.recorded {current : ManagedServiceStateV1} (sound : Sound keys rows)
    (read : AppHost.readService keys rows = .ok (some current)) :
    ∃ transition, Recorded keys rows current transition := by
  rcases sound with rfl | ⟨state, transition, recorded⟩
  · cases read
  · rw [recorded.readService, Except.ok.injEq, Option.some.injEq] at read
    exact ⟨transition, read ▸ recorded⟩

theorem callService_effect (sound : Sound keys rows) (call : JournalCall) (env : Surroundings) :
    Effect keys rows call env (callService keys rows call env) := by
  by_cases prepares : ∃ attemptId expected, call = .prepare attemptId expected
  · obtain ⟨attemptId, expected, rfl⟩ := prepares
    exact prepare_effect sound env attemptId expected
  · push Not at prepares
    rcases callService_ends rows env prepares with ⟨error, eq⟩ | ⟨ref, update, makes, updated⟩
    · rw [eq]
      exact .refused error
    · generalize callService keys rows call env = result at updated
      cases updated with
      | refused error => exact .refused error
      | kept read mine same answers =>
        exact .kept read ⟨update, _, _, mine ▸ makes, same, ⟨rfl, rfl, rfl, rfl⟩⟩ answers
      | @saved _ current proposed state read mine accepted changed facts revision answers =>
        obtain ⟨transition, recorded⟩ := sound.recorded read
        have moves := makes.moves accepted
        have advance : Advance current state := by
          obtain ⟨handoff, evidence, native, trace⟩ := facts
          have moved := moves.advance
          refine ⟨by omega, ?_, ?_, ?_, ?_, ?_, ?_, ?_, ?_, ?_⟩
          · rw [handoff]; exact moved.instanceRef
          · rw [handoff]; exact moved.attemptId
          · rw [handoff]; exact moved.phase
          · rw [handoff]; exact moved.stopRequested
          · rw [native]; exact moved.native
          · rw [trace]; exact moved.trace
          · rw [evidence]; exact moved.processExited
          · rw [evidence]; exact moved.cleanupCompleted
          · rw [evidence]; exact moved.scopeSettled
        have user : ∀ identity ∈ state.nativeIdentity, identity.userId = keys.userId := by
          intro identity known
          rw [facts.native] at known
          exact (moves.user identity known).elim (recorded.belongs.user identity) id
        have here : state.handoff.instanceRef = ref := advance.instanceRef.trans mine
        refine .advanced recorded (recorded.save advance user) advance revision ?_ ?_
          ⟨update, current, proposed, here ▸ makes, accepted, facts⟩ answers
        · rw [facts.evidence]
          exact moves.evidence
        · rw [facts.handoff]
          exact moves.stopRequested

variable {call : JournalCall} {env : Surroundings} {result : Outcome × ServiceRows}

theorem Effect.sound (sound : Sound keys rows) (effect : Effect keys rows call env result) :
    Sound keys result.2 := by
  cases effect with
  | refused => exact sound
  | kept => exact sound
  | advanced _ after => exact .inr ⟨_, _, after⟩
  | started _ _ after => exact .inr ⟨_, _, after⟩

/-! ## Later states of a generation -/

/-- The revision that began the stored generation. -/
def generation (rows : ServiceRows) : Option Int := rows.transition.map TransitionRow.startedRevision

theorem Recorded.generation (recorded : Recorded keys rows state transition) :
    AppHost.generation rows = some transition.startedRevision := by
  rw [AppHost.generation, recorded.transitionRow]
  rfl

variable {one other : ManagedServiceStateV1}

theorem Recorded.state_eq (recorded : Recorded keys rows one transition)
    (read : AppHost.readService keys rows = .ok (some other)) : one = other := by
  rw [recorded.readService, Except.ok.injEq, Option.some.injEq] at read
  exact read

/-- `later` stands in the generation of `earlier`, or in one that began behind it. -/
def Follows (earlier : ManagedServiceStateV1) (began : ManagedServiceTransitionV1)
    (later : ManagedServiceStateV1) (transition : ManagedServiceTransitionV1) : Prop :=
  earlier.revision ≤ later.revision ∧
    ((transition.startedRevision = began.startedRevision ∧ Advance earlier later) ∨
      began.startedRevision < transition.startedRevision)

theorem Follows.step {earlier state : ManagedServiceStateV1}
    {began transition : ManagedServiceTransitionV1} (recorded : Recorded keys rows state transition)
    (follows : Follows earlier began state transition) (call : JournalCall) (env : Surroundings) :
    ∃ state' transition', Recorded keys (callService keys rows call env).2 state' transition' ∧
      Follows earlier began state' transition' := by
  have effect := callService_effect (.inr ⟨state, transition, recorded⟩) call env
  generalize callService keys rows call env = result at effect
  obtain ⟨grows, place⟩ := follows
  cases effect with
  | refused => exact ⟨state, transition, recorded, grows, place⟩
  | kept => exact ⟨state, transition, recorded, grows, place⟩
  | @advanced _ current next other _ before after advance revision =>
    obtain rfl := recorded.state_eq before.readService
    have same : other.startedRevision = transition.startedRevision := by
      have one := before.generation
      rw [recorded.generation, Option.some.injEq] at one
      exact one.symm
    refine ⟨next, other, after, by omega, ?_⟩
    rcases place with ⟨here, earlierAdvance⟩ | behind
    · exact .inl ⟨same.trans here, earlierAdvance.trans advance⟩
    · exact .inr (by omega)
  | @started _ current next other _ read _ after _ _ revision begun =>
    rw [recorded.readService, Except.ok.injEq] at read
    subst read
    rw [revisionOf] at revision
    have inside := recorded.started
    refine ⟨next, other, after, by omega, .inr ?_⟩
    rcases place with ⟨here, -⟩ | behind <;> omega

variable {earlier : ManagedServiceStateV1} {began : ManagedServiceTransitionV1}

theorem Recorded.later (recorded : Recorded keys rows earlier began)
    (more : List (JournalCall × Surroundings)) :
    ∃ later transition, Recorded keys ((journal keys).final rows more) later transition ∧
      Follows earlier began later transition := by
  refine @Machine.final_of_invariant _ _ _ (journal keys) (fun rows => ∃ later transition,
    Recorded keys rows later transition ∧ Follows earlier began later transition) ?_ rows
    ⟨earlier, began, recorded, Int.le_refl _, .inl ⟨rfl, .refl earlier⟩⟩ more
  rintro rows ⟨call, env⟩ ⟨state, transition, here, follows⟩
  exact follows.step here call env

variable {env' : Surroundings} {update : Update}

theorem Makes.ref_unique {ref' : ManagedInstanceRefV1} {update' : Update}
    (one : Makes keys env call ref update) (other : Makes keys env' call ref' update') : ref = ref' := by
  cases one <;> cases other <;> rfl

variable {later : ManagedServiceStateV1}

/-- A call that was accepted changes nothing when it meets a later state, unless a later
generation drew the instance id of the first. -/
theorem Accepted.quiet (accepted : Accepted keys env call earlier)
    (recorded : Recorded keys rows later transition)
    (place : Advance earlier later ∨ later.handoff.instanceRef ≠ earlier.handoff.instanceRef) :
    (callService keys rows call env').2 = rows := by
  obtain ⟨update, before, proposed, makes, done, facts⟩ := accepted
  have notPrepare : ∀ attemptId expected, call ≠ .prepare attemptId expected := by
    rintro attemptId expected rfl
    cases makes
  rcases callService_ends rows env' notPrepare with ⟨error, eq⟩ | ⟨ref, update', again, updated⟩
  · rw [eq]
  · generalize callService keys rows call env' = result at updated
    cases updated with
    | refused => rfl
    | kept => rfl
    | saved read mine accepted' changed =>
      obtain rfl := recorded.state_eq read
      have same := makes.ref_unique again
      rcases place with advance | strange
      · have known := JournalCall.recorded_of_facts facts (makes.records done)
        exact absurd (again.again (JournalCall.recorded_later advance known) accepted') changed
      · exact absurd (mine.trans same.symm) strange

theorem prepare_quiet {expected : Option ManagedServiceStateV1} (read : readService keys rows = .ok current)
    (other : current ≠ expected) : (prepare keys rows env attemptId expected).2 = rows := by
  unfold prepare
  split
  · cases env.refuses with
    | some error => rfl
    | none => simp only [read, if_pos other]
  · rfl

/-! ## The call that is made once more -/

/-- Nothing around the call stands in its way. -/
def Surroundings.Quiet (env : Surroundings) : Prop :=
  env.refuses = none ∧ env.rollback = none ∧ env.afterwards = none

theorem updateService_atOnce (quiet : env.Quiet) (recorded : Recorded keys rows state transition)
    (mine : state.handoff.instanceRef = ref) (same : update state = .ok state) :
    updateService keys rows env ref update = (.returned state, rows) := by
  obtain ⟨noRefusal, noRollback, noAfterwards⟩ := quiet
  have belongs : requireInstance keys ref = true := by
    rw [requireInstance, ← mine, recorded.belongs.namespaceKey, recorded.belongs.serviceId]
    simp
  simp only [updateService, noRefusal, checked, belongs, if_true, recorded.readService, same]
  rw [if_neg (not_not.mpr mine), settle, noRollback, noAfterwards]

variable {accepts : Bool}

theorem checked_returned (returned : (checked accepts rows result).1 = .returned state) :
    accepts = true ∧ result.1 = .returned state := by
  unfold checked at returned
  split at returned
  · rename_i passed
    exact ⟨passed, returned⟩
  · cases returned

theorem checked_atOnce {answer : Outcome × ServiceRows} (passed : accepts = true) (same : result = answer) :
    checked accepts rows result = answer := by
  rw [checked, if_pos passed, same]

theorem publishTrace_atOnce {rows' : ServiceRows} {identity : LinuxServiceIdentityV1} {deadlineMs : Int}
    (first : (publishTrace keys rows env ref attemptId identity deadlineMs).1 = .returned state)
    (makes : ∀ receipt, makeTrace ref.instanceId attemptId deadlineMs = .ok receipt →
      Makes keys env' call ref (traceUpdate env'.expired attemptId identity receipt)) (quiet : env'.Quiet)
    (recorded : Recorded keys rows' state transition) (mine : state.handoff.instanceRef = ref)
    (same : ∀ update, Makes keys env' call ref update → update state = .ok state) :
    publishTrace keys rows' env' ref attemptId identity deadlineMs = (.returned state, rows') := by
  obtain ⟨passed, first⟩ := checked_returned first
  unfold publishTrace checked
  rw [if_pos passed]
  cases made : makeTrace ref.instanceId attemptId deadlineMs with
  | error error =>
    rw [made] at first
    cases first
  | ok receipt => exact updateService_atOnce quiet recorded mine (same _ (makes receipt made))

theorem answers_returned {outcome : Outcome} (answers : outcome.answers one)
    (returned : outcome = .returned other) : one = other := by
  rcases answers with rfl | ⟨code, rfl⟩
  · cases returned
    rfl
  · cases returned

theorem callService_atOnce {rows' : ServiceRows}
    (first : (callService keys rows call env).1 = .returned state) (accepted : Accepted keys env call state)
    (quiet : env'.Quiet) (recorded : Recorded keys rows' state transition) :
    callService keys rows' call env' = (.returned state, rows') := by
  obtain ⟨update, before, proposed, makes, done, facts⟩ := accepted
  have known := JournalCall.recorded_of_facts facts (makes.records done)
  have same : ∀ update', Makes keys env' call state.handoff.instanceRef update' →
      update' state = .ok state := fun update' again => makes.atOnce done again facts
  generalize mine : state.handoff.instanceRef = ref at makes same
  cases makes with
  | registerNative user =>
    obtain ⟨passed, -⟩ := checked_returned first
    exact checked_atOnce passed (updateService_atOnce quiet recorded mine (same _ (.registerNative user)))
  | commit =>
    obtain ⟨passed, -⟩ := checked_returned first
    exact checked_atOnce passed (updateService_atOnce quiet recorded mine (same _ .commit))
  | recordTraceApplication made =>
    obtain ⟨passed, -⟩ := checked_returned first
    have found := same _ (.recordTraceApplication made)
    apply checked_atOnce passed
    rw [made, quiet.1]
    simp only [recorded.readService, if_neg (not_not.mpr mine), found]
    exact if_pos known
  | publishTrace made =>
    exact publishTrace_atOnce first (fun _ made => .publishTrace made) quiet recorded mine same
  | abort =>
    obtain ⟨passed, -⟩ := checked_returned first
    exact checked_atOnce passed (updateService_atOnce quiet recorded mine (same _ .abort))
  | requestStop => exact updateService_atOnce quiet recorded mine (same _ .requestStop)
  | requestChildStop =>
    obtain ⟨passed, -⟩ := checked_returned first
    exact checked_atOnce passed (updateService_atOnce quiet recorded mine (same _ .requestChildStop))
  | recordChildCleanup =>
    obtain ⟨passed, -⟩ := checked_returned first
    exact checked_atOnce passed (updateService_atOnce quiet recorded mine (same _ .recordChildCleanup))
  | recordNativeStop =>
    obtain ⟨passed, -⟩ := checked_returned first
    exact checked_atOnce passed (updateService_atOnce quiet recorded mine (same _ .recordNativeStop))
  | recordStopEvidence => exact updateService_atOnce quiet recorded mine (same _ .recordStopEvidence)

/-! ## Runs -/

/-- A write: a new generation behind one that stopped cleanly, or one more fact about the
current generation. Either takes the next revision. -/
inductive Written (call : JournalCall) :
    Option ManagedServiceStateV1 → ManagedServiceStateV1 → Prop where
  | started {before : Option ManagedServiceStateV1} {state : ManagedServiceStateV1}
    (prepares : ∃ attemptId, call = .prepare attemptId before)
    (clean : ∀ previous ∈ before, previous.cleanlyStopped = true ∧
      state.handoff.instanceRef ≠ previous.handoff.instanceRef)
    (fresh : Fresh state) (revision : state.revision = revisionOf before + 1) : Written call before state
  | advanced {earlier later : ManagedServiceStateV1} (advance : Advance earlier later)
    (revision : later.revision = earlier.revision + 1)
    (evidence : later.evidence ≠ earlier.evidence → earlier.ending)
    (stopRequested : later.handoff.stopRequested = true →
      earlier.handoff.stopRequested = true ∨ call.stops = true) : Written call (some earlier) later

/-- What a stored state says of itself. -/
theorem ManagedServiceStateV1.facts (state : ManagedServiceStateV1) :
    (state.handoff.phase = .committed → state.nativeIdentity ≠ none) ∧
      (state.evidence.any = true → state.ending) := by
  obtain ⟨-, -, committed, -, evidence⟩ := state.admitted
  refine ⟨committed, fun seen => ?_⟩
  by_contra running
  rw [ManagedServiceStateV1.ending, not_or, Bool.not_eq_true] at running
  rw [evidence running.1 running.2] at seen
  cases seen

/-- What one call does to rows that earlier calls left, and what later calls leave of it. -/
structure JournalStep (keys : JournalKeys) (rows : ServiceRows) (call : JournalCall)
    (env : Surroundings) : Prop where
  /-- Both rows decode before and behind the call; it writes the next revision or nothing. -/
  decodes : ∃ before after, readService keys rows = .ok before ∧
    readService keys (callService keys rows call env).2 = .ok after ∧
    ((callService keys rows call env).2 = rows ∨ ∃ state, after = some state ∧ Written call before state) ∧
    (∀ state, (callService keys rows call env).1 = .returned state → after = some state) ∧
    ∀ state, after = some state → (state.handoff.phase = .committed → state.nativeIdentity ≠ none) ∧
      (state.evidence.any = true → state.ending)
  refused : ∀ error, (callService keys rows call env).1 = .refused error →
    (callService keys rows call env).2 = rows
  /-- Facts of a generation stay as long as the generation does. -/
  lasts : ∀ more earlier later,
    readService keys (callService keys rows call env).2 = .ok (some earlier) →
    readService keys ((journal keys).final (callService keys rows call env).2 more) = .ok (some later) →
    generation ((journal keys).final (callService keys rows call env).2 more) =
      generation (callService keys rows call env).2 → Advance earlier later
  /-- An accepted call that is repeated, at once or later, writes nothing; only a later
  generation that drew the same instance id could be taken for its own. -/
  repeated : ∀ more env' state, (callService keys rows call env).1 = .returned state →
    (generation ((journal keys).final (callService keys rows call env).2 more) =
        generation (callService keys rows call env).2 ∨
      ∀ later, readService keys ((journal keys).final (callService keys rows call env).2 more) =
        .ok (some later) → later.handoff.instanceRef ≠ state.handoff.instanceRef) →
    (callService keys ((journal keys).final (callService keys rows call env).2 more) call env').2 =
      (journal keys).final (callService keys rows call env).2 more
  /-- Repeated at once, every call but `prepare` also gives its answer again. -/
  again : ∀ env' state, (callService keys rows call env).1 = .returned state → env'.Quiet →
    (∀ attemptId expected, call ≠ .prepare attemptId expected) →
    callService keys (callService keys rows call env).2 call env' =
      (.returned state, (callService keys rows call env).2)

theorem Recorded.advance_of_generation {more : List (JournalCall × Surroundings)}
    (recorded : Recorded keys rows earlier began)
    (read : AppHost.readService keys ((journal keys).final rows more) = .ok (some later))
    (same : AppHost.generation ((journal keys).final rows more) = AppHost.generation rows) :
    Advance earlier later := by
  obtain ⟨state, transition, here, -, place⟩ := recorded.later more
  obtain rfl := here.state_eq read
  rw [here.generation, recorded.generation, Option.some.injEq] at same
  exact (place.resolve_right (by omega)).2

theorem Effect.recorded {call : JournalCall} {env : Surroundings} {result : Outcome × ServiceRows}
    (sound : Sound keys rows) (effect : Effect keys rows call env result)
    {state : ManagedServiceStateV1} (returned : result.1 = .returned state) :
    (∃ transition, Recorded keys result.2 state transition) ∧
      (Accepted keys env call state ∨
        ∃ attemptId expected, call = .prepare attemptId expected ∧
          revisionOf expected < state.revision) := by
  cases effect with
  | refused error => cases returned
  | kept read accepted answers =>
    obtain rfl := answers_returned answers returned
    exact ⟨sound.recorded read, .inl accepted⟩
  | advanced _ after _ _ _ _ accepted answers =>
    obtain rfl := answers_returned answers returned
    exact ⟨⟨_, after⟩, .inl accepted⟩
  | started _ prepares after _ _ revision _ answers =>
    obtain rfl := answers_returned answers returned
    obtain ⟨attemptId, rfl⟩ := prepares
    exact ⟨⟨_, after⟩, .inr ⟨attemptId, _, rfl, by omega⟩⟩

theorem journalStep (sound : Sound keys rows) (call : JournalCall) (env : Surroundings) :
    JournalStep keys rows call env := by
  have effect := callService_effect sound call env
  have sound' := effect.sound sound
  refine ⟨?_, ?_, ?_, ?_, ?_⟩
  · generalize callService keys rows call env = result at effect
    obtain ⟨before, readBefore, -⟩ := sound.readService
    cases effect with
    | refused error =>
      exact ⟨before, before, readBefore, readBefore, .inl rfl, fun _ => nofun, fun state _ => state.facts⟩
    | kept read accepted answers =>
      refine ⟨_, _, read, read, .inl rfl, ?_, fun state _ => state.facts⟩
      intro state returned
      rw [answers_returned answers returned]
    | advanced before after advance revision evidence stopRequested accepted answers =>
      refine ⟨_, _, before.readService, after.readService,
        .inr ⟨_, rfl, .advanced advance revision evidence stopRequested⟩, ?_, fun state _ => state.facts⟩
      intro state returned
      rw [answers_returned answers returned]
    | started read prepares after clean fresh revision started answers =>
      refine ⟨_, _, read, after.readService, .inr ⟨_, rfl, .started prepares clean fresh revision⟩, ?_,
        fun state _ => state.facts⟩
      intro state returned
      rw [answers_returned answers returned]
  · intro error refused
    generalize callService keys rows call env = result at effect refused
    cases effect with
    | refused => rfl
    | kept => rfl
    | advanced _ _ _ _ _ _ _ answers =>
      subst refused
      rcases answers with same | ⟨code, same⟩ <;> cases same
    | started _ _ _ _ _ _ _ answers =>
      subst refused
      rcases answers with same | ⟨code, same⟩ <;> cases same
  · intro more earlier later read readLater same
    obtain ⟨began, recorded⟩ := sound'.recorded read
    exact recorded.advance_of_generation readLater same
  · intro more env' state returned place
    obtain ⟨⟨began, recorded⟩, accepted | ⟨attemptId, expected, rfl, newer⟩⟩ :=
      effect.recorded sound returned
    · obtain ⟨later, transition, here, -, follows⟩ := recorded.later more
      refine accepted.quiet here ?_
      rcases place with same | strange
      · exact .inl (recorded.advance_of_generation here.readService same)
      · exact .inr (strange later here.readService)
    · obtain ⟨later, transition, here, grows, -⟩ := recorded.later more
      refine prepare_quiet here.readService ?_
      rintro rfl
      rw [revisionOf] at newer
      omega
  · intro env' state returned quiet updates
    obtain ⟨⟨began, recorded⟩, accepted | ⟨attemptId, expected, prepares, -⟩⟩ :=
      effect.recorded sound returned
    · exact callService_atOnce returned accepted quiet recorded
    · exact absurd prepares (updates attemptId expected)

/-- Every sequence of calls on a service that was never started. -/
theorem journal_runs (keys : JournalKeys) (calls : List (JournalCall × Surroundings)) :
    (journal keys).AllSteps (fun rows input => JournalStep keys rows input.1 input.2) .empty calls := by
  have steps := @Machine.AllSteps.of_invariant _ _ _ (journal keys) (Sound keys)
    (fun _ _ => True) (fun rows input => JournalStep keys rows input.1 input.2)
    (fun rows input sound _ =>
      ⟨journalStep sound input.1 input.2, (callService_effect sound input.1 input.2).sound sound⟩)
    .empty calls (.inl rfl) (.true _ _ _)
  exact steps.1

end Loushang.AppHost
