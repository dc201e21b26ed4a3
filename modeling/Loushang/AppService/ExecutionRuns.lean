import Loushang.AppService.ExecutionSteps
import Loushang.Lib.Run
import Mathlib.Data.List.Perm.Subperm
import Loushang.Lib.Raises

/-!
# Runs of the registry

Calls, reports of the Product and steps of tasks in any order. The registry's invariant holds in every
state of every run, so executions are started once, submissions are remembered for good, and at most
one execution of a session is active.
-/
namespace Loushang.AppService
open Loushang.Lib

/-- What happens to a registry; clock readings and what the Product does are part of it. -/
inductive Event where
  | bind (identity : SessionIdentity)
  | submit (b : Nat) (text : PyStr) (submissionId : Option PyStr) (created : Bool)
  | get (identity : SessionIdentity) (executionId : PyStr) (now : Rat)
  | find (identity : SessionIdentity) (submissionId : PyStr)
  | interrupt (b : Nat) (executionId : PyStr) (now : Rat) (answers : Bool)
  | wait (b : Nat) (record : ExecutionRecord) (now : Rat)
  | retrySettlement (b : Nat) (executionId : PyStr) (now : Rat) (created : Bool)
  | closeBinding (b : Nat) (now : Rat) (answers created : Bool)
  | fence
  | observation (b : Nat) (value : ExecutionObservation)
  | progress (i : Nat) (emitted : List ExecutionObservation) (reply : Registry.Reply) (now : Rat)

def Answer.ofResult : Except Failure ExecutionRecord → Answer
  | .ok kept => .record kept
  | .error failure => .failed failure

namespace Registry

def step (r : Registry) : Event → Answer × Registry
  | .bind identity => r.bind identity
  | .submit b text submissionId created => r.submit b text submissionId created
  | .get identity executionId now =>
    (.ofResult (r.get identity executionId now).1, (r.get identity executionId now).2)
  | .find identity submissionId => (r.find identity submissionId, r)
  | .interrupt b executionId now answers => r.interrupt b executionId now answers
  | .wait b record now => r.wait b record now
  | .retrySettlement b executionId now created => r.retrySettlement b executionId now created
  | .closeBinding b now answers created => r.closeBinding b now answers created
  | .fence => (.done, r.fence)
  | .observation b value => r.onObservation b value
  | .progress i emitted reply now => (.done, r.progress i emitted reply now)

end Registry

def registry : Machine Registry Event Answer := ⟨Registry.step⟩

namespace Registry

/-! ## Every step keeps the invariant -/

section Step
variable {r s : Registry}

theorem Sound.wait (sound : Sound r) (b : Nat) (record : ExecutionRecord) (now : Rat) :
    Sound (r.wait b record now).2 := by
  have retained : Sound (r.retained record now).2 := by
    have got := sound.get record.identity record.state.executionId now
    unfold Registry.retained
    split
    · next failure s answer =>
      rw [answer] at got
      exact got
    · next kept s answer =>
      rw [answer] at got
      split
      · exact got
      · exact got
  unfold Registry.wait
  split
  · exact sound
  · exact sound
  · split
    · split
      · exact sound
      · exact retained
    · exact retained

theorem Sound.step (sound : Sound r) (event : Event) : Sound (r.step event).2 := by
  cases event with
  | bind identity => exact sound.bind identity
  | submit b text submissionId created => exact sound.submit b text submissionId created
  | get identity executionId now => exact sound.get identity executionId now
  | find identity submissionId => exact sound
  | interrupt b executionId now answers => exact sound.interrupt b executionId now answers
  | wait b record now => exact sound.wait b record now
  | retrySettlement b executionId now created => exact sound.retrySettlement b executionId now created
  | closeBinding b now answers created => exact sound.closeBinding b now answers created
  | fence =>
    exact ⟨sound.owned.congr rfl rfl rfl rfl rfl rfl rfl rfl,
      ⟨sound.kept.recorded, sound.kept.known⟩,
      ⟨sound.driven.resting, sound.driven.started, sound.driven.once⟩,
      ⟨sound.told.known, sound.told.orderly⟩⟩
  | observation b value => exact sound.onObservation b value
  | progress i emitted reply now => exact sound.progress i emitted reply now

end Step

/-! ## The ledger only grows -/

section Ledger
variable {r s t : Registry}

/-- A step that changes neither the ledger nor the limits. -/
structure Frame (r s : Registry) : Prop where
  ledger : s.ledger = r.ledger
  limits : s.limits = r.limits

theorem Frame.refl (r : Registry) : Frame r r := ⟨rfl, rfl⟩

theorem Frame.trans (first : Frame r s) (second : Frame s t) : Frame r t :=
  ⟨second.ledger.trans first.ledger, second.limits.trans first.limits⟩

theorem frame_publish (i : Nat) (state : ExecutionState) : Frame r (r.publish i state) := by
  unfold publish
  split
  · exact .refl r
  · exact ⟨rfl, rfl⟩

theorem frame_get (identity : SessionIdentity) (executionId : PyStr) (now : Rat) :
    Frame r (r.get identity executionId now).2 := by
  unfold Registry.get
  split
  · exact .refl r
  · dsimp only
    split
    · exact ⟨rfl, rfl⟩
    · split
      · exact ⟨rfl, rfl⟩
      · exact ⟨rfl, rfl⟩

theorem frame_finishTask (i : Nat) (outcome : Option ExecutionOutcome) (now : Rat) :
    Frame r (r.finishTask i outcome now) := by
  have ended : Frame r (r.endTask i) := ⟨rfl, rfl⟩
  unfold finishTask
  split
  · next after done =>
    unfold finish at done
    cases found : (r.endTask i).invocations[i]? with
    | none =>
      rw [found] at done
      cases done
    | some v =>
      rw [found] at done
      cases outcome with
      | none => cases done
      | some outcome =>
        obtain ⟨-, done⟩ := raise_if_ok done
        obtain ⟨-, done⟩ := raise_if_ok done
        cases done
        have published :=
          @frame_publish ((r.endTask i).quiet v) i (v.record.state.finished outcome)
        have released : Frame (r.endTask i)
            ((((r.endTask i).quiet v).publish i (v.record.state.finished outcome)).release v) :=
          ⟨published.ledger, published.limits⟩
        refine (ended.trans released).trans ?_
        unfold settle cache
        split
        · exact ⟨rfl, rfl⟩
        · exact .refl _
  · exact ended

theorem frame_onObservation (b : Nat) (value : ExecutionObservation) :
    Frame r (r.onObservation b value).2 := by
  unfold onObservation
  split
  · exact .refl r
  · next i _ =>
    split
    · exact .refl r
    · next v _ =>
      dsimp only
      split
      · exact .refl r
      · split
        · split
          · exact .refl r
          · have published := @frame_publish r i v.record.state.entered
            exact ⟨published.ledger, published.limits⟩
        · split
          · exact .refl r
          · exact ⟨rfl, rfl⟩

theorem frame_reports (b : Nat) (emitted : List ExecutionObservation) :
    Frame r (emitted.foldl (fun r value => (r.onObservation b value).2) r) := by
  induction emitted generalizing r with
  | nil => exact .refl r
  | cons value rest ih => exact (frame_onObservation b value).trans ih

theorem frame_interrupt (b : Nat) (executionId : PyStr) (now : Rat) (answers : Bool) :
    Frame r (r.interrupt b executionId now answers).2 := by
  unfold interrupt
  split
  · exact .refl r
  · next binding _ =>
    have got := @frame_get r binding.view.identity executionId now
    split
    · next answer =>
      rw [answer] at got
      exact got
    · next answer =>
      rw [answer] at got
      split
      · exact got
      · split
        · exact got
        · split
          · exact got
          · split
            · exact got
            · split
              · exact got
              · exact got.trans (frame_publish _ _)

theorem frame_retrySettlement (b : Nat) (executionId : PyStr) (now : Rat) (created : Bool) :
    Frame r (r.retrySettlement b executionId now created).2 := by
  unfold retrySettlement
  split
  · exact .refl r
  · next binding _ =>
    have got := @frame_get r binding.view.identity executionId now
    split
    · next answer =>
      rw [answer] at got
      exact got
    · next answer =>
      rw [answer] at got
      split
      · exact got
      · split
        · exact got
        · split
          · exact got
          · split
            · exact got
            · split
              · exact got.trans ⟨rfl, rfl⟩
              · exact got

theorem frame_closeBinding (b : Nat) (now : Rat) (answers created : Bool) :
    Frame r (r.closeBinding b now answers created).2 := by
  unfold closeBinding
  split
  · exact .refl r
  · next binding _ =>
    have closing : Frame r (r.putBinding b { binding with closing := true }) := ⟨rfl, rfl⟩
    dsimp only
    split
    · exact closing
    · next v _ =>
      have interrupted := closing.trans (frame_interrupt b v.id now answers)
      split
      · next answer =>
        rw [answer] at interrupted
        exact interrupted
      · next answer =>
        rw [answer] at interrupted
        exact interrupted.trans (frame_retrySettlement b v.id now created)

theorem frame_wait (b : Nat) (record : ExecutionRecord) (now : Rat) :
    Frame r (r.wait b record now).2 := by
  have retained : Frame r (r.retained record now).2 := by
    have got := @frame_get r record.identity record.state.executionId now
    unfold Registry.retained
    split
    · next answer =>
      rw [answer] at got
      exact got
    · next answer =>
      rw [answer] at got
      split
      · exact got
      · exact got
  unfold Registry.wait
  split
  · exact .refl r
  · exact .refl r
  · split
    · split
      · exact .refl r
      · exact retained
    · exact retained

theorem frame_start (i : Nat) (v : Invocation) (text : PyStr) (emitted : List ExecutionObservation)
    (reply : Reply) (now : Rat) : Frame r (r.start i v text emitted reply now) := by
  have begun : Frame r { r.putInvocation i { v with task := .waiting } with
      starts := r.starts ++ [StartCall.mk v.record text] } := ⟨rfl, rfl⟩
  have reported := begun.trans (frame_reports v.binding emitted)
  unfold start
  split
  · exact reported.trans (frame_finishTask i _ now)
  · exact reported.trans ⟨rfl, rfl⟩
  · exact reported.trans ⟨rfl, rfl⟩

theorem frame_progress (i : Nat) (emitted : List ExecutionObservation) (reply : Reply) (now : Rat) :
    Frame r (r.progress i emitted reply now) := by
  unfold progress
  split
  · exact .refl r
  · split
    · exact .refl r
    · exact ⟨rfl, rfl⟩
    · split
      · exact frame_finishTask i _ now
      · exact frame_start i _ _ emitted _ now
    · split
      · exact ⟨rfl, rfl⟩
      · exact frame_finishTask i _ now
    · exact ⟨rfl, rfl⟩
    · exact ⟨rfl, rfl⟩
    · exact frame_finishTask i _ now
    · exact ⟨rfl, rfl⟩

/-- No entry leaves the ledger or changes. -/
structure Extends (r s : Registry) : Prop where
  ledger : ∀ key value, r.ledger.get? key = some value → s.ledger.get? key = some value
  limits : s.limits = r.limits

theorem Extends.trans (first : Extends r s) (second : Extends s t) : Extends r t :=
  ⟨fun key value known => second.ledger key value (first.ledger key value known),
    second.limits.trans first.limits⟩

theorem Frame.extends (frame : Frame r s) : Extends r s := by
  refine ⟨?_, frame.limits⟩
  intro key value known
  rw [frame.ledger]
  exact known

theorem extends_accept (b : Nat) (binding : Binding) (text : PyStr) (digest : List Sha256.Word)
    (submissionId : Option PyStr)
    (unused : ∀ id, submissionId = some id →
      r.ledger.get? (canonical binding.view.identity, id) = none) :
    Extends r ({ r with sequence := r.sequence + 1 }.accept b binding text digest submissionId).2 := by
  have published := @frame_publish
    ({ r with sequence := r.sequence + 1 }.entry b binding text digest submissionId)
    r.invocations.length (.accepted (executionId r.nonce (r.sequence + 1)))
  have entered : Extends r
      ({ r with sequence := r.sequence + 1 }.entry b binding text digest submissionId) := by
    refine ⟨?_, rfl⟩
    intro key value known
    cases submissionId with
    | none => exact known
    | some submission =>
      have other : key ≠ (canonical binding.view.identity, submission) := by
        intro same
        rw [same, unused submission rfl] at known
        cases known
      exact (Dict.get?_set_of_ne r.ledger (digest, executionId r.nonce (r.sequence + 1)) other).trans
        known
  exact entered.trans published.extends

theorem extends_submit (b : Nat) (text : PyStr) (submissionId : Option PyStr) (created : Bool) :
    Extends r (r.submit b text submissionId created).2 := by
  have done := @submits r b text submissionId created
  generalize r.submit b text submissionId created = result at done ⊢
  cases done with
  | refused => exact (Frame.refl r).extends
  | known => exact (Frame.refl r).extends
  | accepted binding bytes bound valid encoded idle room unused =>
    exact extends_accept b binding text _ submissionId unused
  | skipped => exact (Frame.extends ⟨rfl, rfl⟩)

theorem extends_step (event : Event) : Extends r (r.step event).2 := by
  cases event with
  | bind identity => exact (Frame.extends ⟨rfl, rfl⟩)
  | submit b text submissionId created => exact extends_submit b text submissionId created
  | get identity executionId now => exact (frame_get identity executionId now).extends
  | find identity submissionId => exact (Frame.refl r).extends
  | interrupt b executionId now answers => exact (frame_interrupt b executionId now answers).extends
  | wait b record now => exact (frame_wait b record now).extends
  | retrySettlement b executionId now created =>
    exact (frame_retrySettlement b executionId now created).extends
  | closeBinding b now answers created => exact (frame_closeBinding b now answers created).extends
  | fence => exact (Frame.extends ⟨rfl, rfl⟩)
  | observation b value => exact (frame_onObservation b value).extends
  | progress i emitted reply now => exact (frame_progress i emitted reply now).extends

end Ledger

/-! ## What the invariant says -/

section Promises
variable {r s : Registry}

/-- What holds of a registry in every state. -/
structure ExactlyOnce (limits : ExecutionLimits) (r : Registry) : Prop where
  executions : (r.starts.map fun call => call.record.state.executionId).Nodup
  submissions : (r.starts.filterMap fun call =>
    call.record.submissionId.map fun submissionId => (call.record.key, submissionId)).Nodup
  retained : ∀ key submissionId digest id,
    r.ledger.get? (key, submissionId) = some (digest, id) →
      ∃ record, r.records.get? id = some record ∧ record.state.executionId = id ∧
        record.key = key ∧ record.submissionId = some submissionId
  single : ∀ (i j : Nat) (v w : Invocation), r.invocations[i]? = some v →
    r.invocations[j]? = some w → v.live = true → w.live = true → v.record.key = w.record.key → i = j
  limited : r.invocations.countP Invocation.live ≤ limits.active
  orderly : ∀ v ∈ r.invocations, Orderly (r.history v.id) v.record.state
  told : ∀ update ∈ r.updates, ∃ v ∈ r.invocations, v.id = update.executionId

theorem Sound.submissions (sound : Sound r) :
    (r.starts.filterMap fun call =>
      call.record.submissionId.map fun submissionId => (call.record.key, submissionId)).Nodup := by
  -- The ledger has one execution for a submission.
  have ledger : ∀ call ∈ r.starts, ∀ submissionId, call.record.submissionId = some submissionId →
      ∃ digest, r.ledger.get? (call.record.key, submissionId) =
        some (digest, call.record.state.executionId) := by
    intro call member submissionId submitted
    obtain ⟨i, v, found, named, keyed, same, _⟩ := sound.driven.started call member
    exact (sound.owned.ledger_iff call.record.key submissionId call.record.state.executionId).mpr
      ⟨i, v.outline, outline_of found, named, keyed, same.trans submitted⟩
  refine List.pairwise_filterMap.mpr ?_
  refine List.Pairwise.imp_of_mem ?_ (List.pairwise_map.mp sound.driven.once)
  intro call other first second different key keyed key' keyed' same
  obtain ⟨submissionId, submitted, rfl⟩ := Option.map_eq_some_iff.mp keyed
  obtain ⟨submissionId', submitted', rfl⟩ := Option.map_eq_some_iff.mp keyed'
  obtain ⟨digest, entry⟩ := ledger call first submissionId submitted
  obtain ⟨digest', entry'⟩ := ledger other second submissionId' submitted'
  rw [same, entry', Option.some.injEq, Prod.mk.injEq] at entry
  exact different entry.2.symm

theorem Sound.single (sound : Sound r) {i j : Nat} {v w : Invocation}
    (first : r.invocations[i]? = some v) (second : r.invocations[j]? = some w)
    (live : v.live = true) (alsoLive : w.live = true) (same : v.record.key = w.record.key) : i = j := by
  have active := (sound.owned.active_iff v.record.key i).mpr ⟨v.outline, outline_of first, rfl, live⟩
  have alsoActive :=
    (sound.owned.active_iff w.record.key j).mpr ⟨w.outline, outline_of second, rfl, alsoLive⟩
  rw [same, alsoActive, Option.some.injEq] at active
  exact active.symm

theorem Sound.limited (sound : Sound r) :
    r.invocations.countP Invocation.live ≤ r.limits.active := by
  have distinct : ((r.invocations.filter Invocation.live).map fun v => v.record.key).Nodup := by
    refine List.pairwise_map.mpr (List.pairwise_filter.mpr ?_)
    refine List.pairwise_iff_getElem.mpr ?_
    intro i j inside alsoInside before live alsoLive same
    have here := sound.single (List.getElem?_eq_getElem inside) (List.getElem?_eq_getElem alsoInside)
      live alsoLive same
    omega
  have active : ∀ key ∈ (r.invocations.filter Invocation.live).map fun v => v.record.key,
      key ∈ r.active.keys := by
    intro key member
    obtain ⟨v, kept, rfl⟩ := List.mem_map.mp member
    obtain ⟨inside, live⟩ := List.mem_filter.mp kept
    obtain ⟨i, found⟩ := List.getElem?_of_mem inside
    have there := (sound.owned.active_iff v.record.key i).mpr ⟨v.outline, outline_of found, rfl, live⟩
    exact Dict.get?_isSome.mp (there ▸ rfl)
  have fewer := (distinct.subperm active).length_le
  rw [List.length_map, ← List.countP_eq_length_filter] at fewer
  have keys : r.active.keys.length = r.active.entries.length := List.length_map _
  have limited := sound.owned.limited
  omega

theorem Sound.retained (sound : Sound r) {key : SessionKey} {submissionId id : PyStr}
    {digest : List Sha256.Word} (entry : r.ledger.get? (key, submissionId) = some (digest, id)) :
    ∃ record, r.records.get? id = some record ∧ record.state.executionId = id ∧
      record.key = key ∧ record.submissionId = some submissionId := by
  obtain ⟨i, o, known, named, keyed, submitted⟩ :=
    (sound.owned.ledger_iff key submissionId id).mp ⟨digest, entry⟩
  rw [getElem?_outlines] at known
  obtain ⟨v, found, rfl⟩ := Option.map_eq_some_iff.mp known
  have sent : v.record.submissionId.isSome = true := Option.isSome_of_eq_some submitted
  have kept := sound.kept.recorded i v found (.inr sent)
  exact ⟨v.record, named ▸ kept, named, keyed, submitted⟩

theorem Sound.exactlyOnce (sound : Sound r) : ExactlyOnce r.limits r := by
  refine ⟨sound.driven.once, sound.submissions, ?_, ?_, sound.limited, ?_, ?_⟩
  · intro key submissionId digest id entry
    exact sound.retained entry
  · intro i j v w first second live alsoLive same
    exact sound.single first second live alsoLive same
  · intro v member
    obtain ⟨i, found⟩ := List.getElem?_of_mem member
    exact sound.told.orderly i v found
  · intro update member
    obtain ⟨i, v, found, named⟩ := sound.told.known update member
    exact ⟨v, List.mem_of_getElem? found, named⟩

/-! ## Submissions again -/

/-- A submission that is answered by a record is in the ledger. -/
theorem submit_record (sound : Sound r) {b : Nat} {text submission : PyStr} {created : Bool}
    {record : ExecutionRecord}
    (answer : (r.submit b text (some submission) created).1 = .record record) :
    ∃ binding bytes, r.bindings[b]? = some binding ∧ text.encode? = some bytes ∧
      Submittable r binding text (some submission) ∧
      (r.submit b text (some submission) created).2.ledger.get?
        (canonical binding.view.identity, submission) =
          some (Sha256.digest bytes, record.state.executionId) := by
  have done := @submits r b text (some submission) created
  generalize r.submit b text (some submission) created = result at done answer ⊢
  cases done with
  | refused => cases answer
  | known binding bytes id kept submission' bound valid encoded named prior there =>
    cases answer
    cases named
    obtain ⟨i, v, _, same, named⟩ := sound.kept.known id _ there
    refine ⟨binding, bytes, bound, encoded, valid, ?_⟩
    rw [prior, ← named, ← same]
    rfl
  | accepted binding bytes bound valid encoded idle room unused =>
    cases answer
    refine ⟨binding, bytes, bound, encoded, valid, ?_⟩
    have published := @frame_publish
      ({ r with sequence := r.sequence + 1 }.entry b binding text (Sha256.digest bytes) (some submission))
      r.invocations.length (.accepted (executionId r.nonce (r.sequence + 1)))
    exact (congrArg (fun ledger => ledger.get? (canonical binding.view.identity, submission))
      published.ledger).trans (Dict.get?_set_self _ _ _)
  | skipped => cases answer

/-- A submission of the ledger, submitted again: its record, or a conflict. -/
theorem submit_again (sound : Sound r) {c : Nat} {binding : Binding} {text submission id : PyStr}
    {bytes : List UInt8} {digest : List Sha256.Word} (bound : r.bindings[c]? = some binding)
    (valid : Submittable r binding text (some submission)) (encoded : text.encode? = some bytes)
    (entry : r.ledger.get? (canonical binding.view.identity, submission) = some (digest, id))
    (created : Bool) :
    ∃ record, r.records.get? id = some record ∧ record.state.executionId = id ∧
      r.submit c text (some submission) created =
        (if Sha256.digest bytes = digest then .record record
          else .failed (.execution .submissionConflict), r) := by
  obtain ⟨record, kept, named, _⟩ := sound.retained entry
  refine ⟨record, kept, named, ?_⟩
  have identifier := valid.identifier submission rfl
  unfold submit
  rw [bound]
  simp only [valid.opened, valid.turn, encoded, identifier, entry, kept, Bool.or_self, Bool.not_true,
    Bool.false_eq_true, if_false, Option.any_some, Option.bind_some]
  by_cases same : Sha256.digest bytes = digest
  · simp [same]
  · simp [same, Ne.symm same]

end Promises

end Registry

/-! ## Every run -/

section Runs

/-- Later, the same submission with a text the registry takes answers the record of the execution,
or a conflict where the text has another digest; nothing changes. -/
def Remembers (s : Registry) (key : SessionKey) (digest : List Sha256.Word) (submission id : PyStr) :
    Prop :=
  ∀ c binding text bytes created, s.bindings[c]? = some binding →
    canonical binding.view.identity = key →
    Registry.Submittable s binding text (some submission) → text.encode? = some bytes →
    ∃ record, s.records.get? id = some record ∧ record.state.executionId = id ∧
      s.submit c text (some submission) created =
        (if Sha256.digest bytes = digest then .record record
          else .failed (.execution .submissionConflict), s)

/-- Every submission of a run that a record answered is remembered in the end. -/
def Resubmits (r : Registry) (events : List Event) : Prop :=
  ∀ before b text submission created after record,
    events = before ++ .submit b text (some submission) created :: after →
    (registry.step (registry.final r before) (.submit b text (some submission) created)).1 =
      .record record →
    ∃ binding bytes, (registry.final r before).bindings[b]? = some binding ∧
      text.encode? = some bytes ∧
      Remembers (registry.final r events) (canonical binding.view.identity) (Sha256.digest bytes)
        submission record.state.executionId

theorem sound_final {r : Registry} (sound : r.Sound) (events : List Event) :
    (registry.final r events).Sound :=
  Machine.final_of_invariant (fun _ event sound => sound.step event) sound events

theorem extends_final (r : Registry) (events : List Event) :
    Registry.Extends r (registry.final r events) :=
  @Machine.final_of_invariant _ _ _ registry (Registry.Extends r)
    (fun _ event kept => kept.trans (Registry.extends_step event)) r (Registry.Frame.refl r).extends events

/-- A submission, the end of its binding, and the same submission again. -/
def closedBinding (text submission : PyStr) (identity : SessionIdentity) : List Event :=
  [.bind identity, .submit 0 text (some submission) true, .closeBinding 0 0 true true]

end Runs


end Loushang.AppService
