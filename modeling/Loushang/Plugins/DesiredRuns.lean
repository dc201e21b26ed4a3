import Loushang.Plugins.DesiredLedger
import Mathlib.Data.List.Range
import Loushang.Lib.Raises

/-!
# Runs of the desired-state ledger

Commit and replay compute a transition from different evidence: a fresh id drawn now, or the one
found in the committed state. They agree, so that the journal replays after every call, and the
history of instance revisions and package revisions can be read off the transitions.
-/
namespace Loushang.Plugins
open Loushang.Lib Loushang.Journal

/-! ## What one mutation does -/

variable {key : InstallationKey} {latest : Option InstanceRevisionRef}

theorem makeState_ok {selection : DesiredSelection} {state : InstallationState}
    (made : makeState key selection latest = .ok state) :
    state.installationKey = key ∧ state.selection = selection ∧ state.latestInstanceRevisionRef = latest := by
  unfold makeState at made
  split at made
  · cases made
    exact ⟨rfl, rfl, rfl⟩
  · cases made

variable {package : PackageRevisionRef}

theorem select_ok {desired : DesiredState} {selected : Option InstanceRevisionRef} {state : InstallationState}
    (made : select key desired package selected latest = .ok state) :
    state.installationKey = key ∧ state.selection.desiredState = desired ∧
      state.selection.packageRevision = some package ∧ state.selection.instanceRevisionRef = selected ∧
      state.latestInstanceRevisionRef = latest := by
  unfold select makeSelection at made
  split at made
  · obtain ⟨owner, selection, newest⟩ := makeState_ok made
    rw [selection]
    exact ⟨owner, rfl, rfl, rfl, newest⟩
  · cases made

/-- An enabled selection carries the installation's latest instance revision. -/
theorem InstallationState.enabled_latest (state : InstallationState)
    (enabled : state.selection.desiredState = .installedEnabled) :
    state.selection.instanceRevisionRef = state.latestInstanceRevisionRef ∧
      state.latestInstanceRevisionRef.isSome := by
  have accepted := state.accepted
  have same : state.selection.instanceRevisionRef = state.latestInstanceRevisionRef := by
    simp only [stateAccepts, enabled, Bool.and_eq_true, ne_eq, not_true_eq_false, decide_false,
      Bool.false_or, decide_eq_true_eq] at accepted
    exact accepted.2
  refine ⟨same, ?_⟩
  have selection := state.selection.accepted
  rw [enabled] at selection
  rw [← same]
  unfold selectionAccepts at selection
  split at selection
  · contradiction
  · contradiction
  · rename_i found
    rw [found]
    rfl
  · cases selection

theorem InstallationState.absent_package (state : InstallationState)
    (absent : state.selection.desiredState = .absent) : state.selection.packageRevision = none := by
  have selection := state.selection.accepted
  rw [absent] at selection
  unfold selectionAccepts at selection
  split at selection
  · assumption
  · contradiction
  · contradiction
  · cases selection

/-- How a mutation moves an installation's latest instance revision, and the id it issues. -/
inductive Renewal : Option InstanceRevisionRef → Option InstanceRevisionRef → Option Name → Prop
  | kept (latest : Option InstanceRevisionRef) : Renewal latest latest none
  | dropped (latest : Option InstanceRevisionRef) : Renewal latest none none
  | raised (latest next : InstanceRevisionRef) (same : next.instanceId = latest.instanceId)
      (up : next.revision = latest.revision + 1) : Renewal (some latest) (some next) none
  | issued (latest : Option InstanceRevisionRef) (first : InstanceRevisionRef)
      (one : first.revision = 1) : Renewal latest (some first) (some first.instanceId)

/-- How a mutation moves an installation's package revision. -/
inductive Repackaging (before after : InstallationState) : Prop
  | same (kept : after.selection.packageRevision = before.selection.packageRevision)
  | installed (absent : before.selection.desiredState = .absent)
  | removed (absent : after.selection.desiredState = .absent)

variable {previous : InstallationState} {mutation : DesiredStateMutation}

theorem packageOf_ok (found : packageOf previous mutation = .ok package) :
    previous.selection.desiredState = .absent ∨ previous.selection.packageRevision = some package := by
  unfold packageOf at found
  split at found
  · cases found
  · rename_i package' isPackage
    obtain ⟨-, found⟩ := raise_if_ok found
    obtain ⟨staged, found⟩ := raise_if_ok found
    cases found
    by_cases absent : previous.selection.desiredState = .absent
    · exact .inl absent
    · right
      cases current : previous.selection.packageRevision with
      | none =>
        have valid := previous.selection.accepted
        rw [current] at valid
        unfold selectionAccepts at valid
        split at valid
        · contradiction
        · contradiction
        · contradiction
        · cases valid
      | some other =>
        simp only [current, Option.any_some, not_and, decide_eq_true_eq, ne_eq, not_not] at staged
        rw [staged absent]

variable {α β : Type}

variable {fresh : Option Name}

theorem nextInstance_ok {issued : InstanceRevisionRef × Option Name}
    (found : nextInstance previous key fresh = .ok issued) :
    Renewal previous.latestInstanceRevisionRef (some issued.1) issued.2 ∧
      (issued.2.isSome → fresh = issued.2 ∧ some issued.1.instanceId = issued.2) := by
  unfold nextInstance at found
  split at found
  · rename_i _ latest isLatest
    cases found
    split at isLatest
    · cases isLatest
    · rw [isLatest]
      exact ⟨.raised latest _ rfl rfl, fun some => by cases some⟩
  · cases found
    exact ⟨.issued _ _ rfl, fun _ => ⟨rfl, rfl⟩⟩
  · cases found

variable {committed : InstallationState} {issued : Option Name} {kind : TransitionKind}

/-- What `_apply_mutation` comes to. -/
theorem applyMutation_ok (applied : applyMutation previous mutation fresh = .ok (kind, committed, issued)) :
    previous.installationKey = mutation.installationKey ∧
      committed.installationKey = mutation.installationKey ∧
      Renewal previous.latestInstanceRevisionRef committed.latestInstanceRevisionRef issued ∧
      Repackaging previous committed ∧
      (issued.isSome → fresh = issued ∧ committed.selection.instanceRevisionRef.map
        InstanceRevisionRef.instanceId = issued) := by
  unfold applyMutation at applied
  dsimp only at applied
  obtain ⟨key, applied⟩ := raise_if_ok applied
  have key : previous.installationKey = mutation.installationKey := by simpa using key
  refine ⟨key, ?_⟩
  split at applied
  · obtain ⟨state, made, outcome⟩ := Except.map_ok_iff.mp applied
    obtain ⟨owner, selection, newest⟩ := makeState_ok made
    cases outcome
    refine ⟨owner, ?_, .removed (by rw [selection]; rfl), fun some => by cases some⟩
    rw [newest]
    exact .kept _
  · obtain ⟨package, isPackage, applied⟩ := Except.bind_ok_iff.mp applied
    obtain ⟨state, made, outcome⟩ := Except.map_ok_iff.mp applied
    obtain ⟨owner, -, packaged, -, newest⟩ := select_ok made
    cases outcome
    refine ⟨owner, ?_, ?_, fun some => by cases some⟩
    · rw [newest]
      split
      · exact .dropped _
      · exact .kept _
    · rcases packageOf_ok isPackage with absent | same
      · exact .installed absent
      · exact .same (packaged.trans same.symm)
  · obtain ⟨package, isPackage, applied⟩ := Except.bind_ok_iff.mp applied
    split at applied
    · split at applied
      · cases applied
      · cases applied
        exact ⟨key, .kept _, .same rfl, fun some => by cases some⟩
    · obtain ⟨next, isNext, applied⟩ := Except.bind_ok_iff.mp applied
      obtain ⟨state, made, outcome⟩ := Except.map_ok_iff.mp applied
      obtain ⟨owner, -, packaged, selected, newest⟩ := select_ok made
      obtain ⟨renewal, drawn⟩ := nextInstance_ok isNext
      cases outcome
      refine ⟨owner, by rw [newest]; exact renewal, ?_, fun some => ⟨(drawn some).1, ?_⟩⟩
      · rcases packageOf_ok isPackage with absent | same
        · exact .installed absent
        · exact .same (packaged.trans same.symm)
      · rw [selected]
        exact (drawn some).2

/-- What `_apply_update_mutation` comes to. -/
theorem applyUpdateMutation_ok {mutation : UpdateMutation}
    (applied : applyUpdateMutation previous mutation = .ok committed) :
    previous.installationKey = mutation.command.installationKey ∧
      committed.installationKey = mutation.command.installationKey ∧
      Renewal previous.latestInstanceRevisionRef committed.latestInstanceRevisionRef none := by
  unfold applyUpdateMutation at applied
  dsimp only at applied
  obtain ⟨key, applied⟩ := raise_if_ok applied
  have key : previous.installationKey = mutation.command.installationKey := by simpa using key
  refine ⟨key, ?_⟩
  obtain ⟨-, applied⟩ := raise_if_ok applied
  obtain ⟨-, applied⟩ := raise_if_ok applied
  obtain ⟨-, applied⟩ := raise_if_ok applied
  obtain ⟨-, applied⟩ := raise_if_ok applied
  split at applied
  · obtain ⟨owner, -, -, -, newest⟩ := select_ok applied
    refine ⟨owner, ?_⟩
    rw [newest]
    exact .kept _
  · split at applied
    · rename_i selected latest _ isLatest
      split at applied
      · cases applied
      · obtain ⟨owner, -, -, -, newest⟩ := select_ok applied
        refine ⟨owner, ?_⟩
        rw [newest, isLatest]
        exact .raised latest _ rfl rfl
    · cases applied

/-! ## What one replayed transition does -/

/-- An installation keeps its package revision, unless it is updated, installed from absent or
removed. -/
def Transition.Repackages (transition : Transition) : Prop :=
  (∃ update, transition = .update update) ∨
    Repackaging transition.previousState transition.committedState

variable {transition : Transition}

theorem replayedOutcome_ok (same : replayedOutcome previous transition = .ok (true, fresh)) :
    transition.committedState.installationKey = transition.key ∧
      Renewal previous.latestInstanceRevisionRef transition.committedState.latestInstanceRevisionRef fresh ∧
      ((∃ update, transition = .update update) ∨ Repackaging previous transition.committedState) := by
  unfold replayedOutcome at same
  split at same
  · obtain ⟨⟨kind, state, issued⟩, applied, outcome⟩ := Except.map_ok_iff.mp same
    simp only [Prod.mk.injEq, Bool.and_eq_true, decide_eq_true_eq] at outcome
    obtain ⟨⟨-, state_eq⟩, rfl⟩ := outcome
    obtain ⟨-, owner, renewal, repackaging, -⟩ := applyMutation_ok applied
    simp only [Transition.committedState, Transition.key, Transition.mutation, Mutation.installationKey,
      state_eq]
    exact ⟨owner, renewal, .inr repackaging⟩
  · rename_i update
    obtain ⟨state, applied, outcome⟩ := Except.map_ok_iff.mp same
    simp only [Prod.mk.injEq, decide_eq_true_eq] at outcome
    obtain ⟨state_eq, rfl⟩ := outcome
    obtain ⟨-, owner, renewal⟩ := applyUpdateMutation_ok applied
    simp only [Transition.committedState, Transition.key, Transition.mutation, Mutation.installationKey,
      state_eq]
    exact ⟨owner, renewal, .inl ⟨update, rfl⟩⟩

variable {owners grown : Dict Name InstallationKey} {reference : Option InstanceRevisionRef}

theorem claimInstance_ok (claimed : claimInstance owners key reference = .ok grown) :
    (∀ id owner, owners.get? id = some owner → grown.get? id = some owner) ∧
      ∀ r, reference = some r → grown.get? r.instanceId = some key := by
  unfold claimInstance at claimed
  split at claimed
  · cases claimed
    exact ⟨fun _ _ owned => owned, fun _ none => by cases none⟩
  · rename_i r
    split at claimed
    · rename_i free
      cases claimed
      refine ⟨fun id owner owned => ?_, fun r' same => ?_⟩
      · by_cases this : id = r.instanceId
        · rw [this, free] at owned
          cases owned
        · rw [Dict.get?_set_of_ne _ _ this]
          exact owned
      · cases same
        rw [Dict.get?_set_self]
    · rename_i owner owned
      obtain ⟨same, claimed⟩ := raise_else_ok claimed
      cases claimed
      refine ⟨fun _ _ owned => owned, fun r' isR => ?_⟩
      cases isR
      rw [owned, same]

/-- A reference nobody else owns can be claimed. -/
theorem claimInstance_free
    (free : ∀ r owner, reference = some r → owners.get? r.instanceId = some owner → owner = key) :
    ∃ grown, claimInstance owners key reference = .ok grown := by
  unfold claimInstance
  split
  · exact ⟨_, rfl⟩
  · rename_i r
    split
    · exact ⟨_, rfl⟩
    · rename_i owner owned
      rw [if_pos (free r owner rfl owned)]
      exact ⟨_, rfl⟩

/-- What a replayed transition was checked for, and what it adds. -/
structure Replays (r : ReplayedLedger) (transition : Transition) (next : ReplayedLedger) : Prop where
  previous : transition.previousState = r.state transition.key
  newOperation : r.operations.get? transition.mutation.operationId = none
  newKey : r.idempotency.get? transition.mutation.idempotencyKey = none
  owner : transition.committedState.installationKey = transition.key
  renewal : ∃ fresh, Renewal transition.previousState.latestInstanceRevisionRef
    transition.committedState.latestInstanceRevisionRef fresh ∧
      ∀ id, fresh = some id → r.instanceOwners.get? id = none
  repackages : transition.Repackages
  transitions : next.transitions = r.transitions ++ [transition]
  states : next.states = r.states.set transition.key transition.committedState
  operations : next.operations = r.operations.set transition.mutation.operationId transition
  idempotency : next.idempotency = r.idempotency.set transition.mutation.idempotencyKey transition
  keepsOwners : ∀ id owner, r.instanceOwners.get? id = some owner → next.instanceOwners.get? id = some owner
  claims : ∀ latest, transition.committedState.latestInstanceRevisionRef = some latest →
    next.instanceOwners.get? latest.instanceId = some transition.key

variable {r : ReplayedLedger}

theorem replayTransition_ok {next : ReplayedLedger} (replayed : replayTransition r transition = .ok next) :
    Replays r transition next := by
  unfold replayTransition at replayed
  dsimp only at replayed
  obtain ⟨chained, replayed⟩ := raise_if_ok replayed
  obtain ⟨newOperation, replayed⟩ := raise_if_ok replayed
  obtain ⟨newKey, replayed⟩ := raise_if_ok replayed
  split at replayed
  · cases replayed
  · rename_i same fresh outcome
    obtain ⟨isSame, replayed⟩ := raise_if_ok replayed
    obtain ⟨unowned, replayed⟩ := raise_if_ok replayed
    obtain ⟨owners, before, replayed⟩ := Except.bind_ok_iff.mp replayed
    obtain ⟨owners', after, made⟩ := Except.map_ok_iff.mp replayed
    cases made
    have previous : transition.previousState = r.state transition.key := by
      by_contra different
      exact chained (.inr (.inr different))
    have isSame : same = true := by simpa using isSame
    rw [isSame] at outcome
    obtain ⟨owner, renewal, repackages⟩ := replayedOutcome_ok outcome
    rw [← previous] at renewal repackages
    refine ⟨previous, by simpa using newOperation, by simpa using newKey, owner,
      ⟨fresh, renewal, fun id isId => ?_⟩, repackages, rfl, rfl, rfl, rfl,
      fun id owner owned => ?_, (claimInstance_ok after).2⟩
    · rw [isId] at unowned
      simpa using unowned
    · exact (claimInstance_ok after).1 _ _ ((claimInstance_ok before).1 _ _ owned)

/-! ## The history of instance revisions -/

/-- The instance revision a transition records: the one it moves the installation's latest to. -/
def Transition.recorded (transition : Transition) : Option InstanceRevisionRef :=
  if transition.committedState.latestInstanceRevisionRef =
      transition.previousState.latestInstanceRevisionRef then none
  else transition.committedState.latestInstanceRevisionRef

/-- The revisions recorded for an instance id, in journal order. -/
def revisionsOf (transitions : List Transition) (id : Name) : List Nat :=
  ((transitions.filterMap Transition.recorded).filter (·.instanceId = id)).map InstanceRevisionRef.revision

/-- The state an installation was last committed to. -/
def lastCommitted (transitions : List Transition) (key : InstallationKey) : InstallationState :=
  (((transitions.filter (·.key = key)).getLast?).map Transition.committedState).getD (.initial key)

theorem revisionsOf_append (transitions : List Transition) (transition : Transition) (id : Name) :
    revisionsOf (transitions ++ [transition]) id = revisionsOf transitions id ++
      ((transition.recorded.toList.filter (·.instanceId = id)).map InstanceRevisionRef.revision) := by
  unfold revisionsOf
  rw [List.filterMap_append, List.filter_append, List.map_append]
  cases recorded : transition.recorded with
  | none => simp [recorded]
  | some reference => simp [recorded]

theorem revisionsOf_other {id : Name}
    (other : ∀ reference, transition.recorded = some reference → reference.instanceId ≠ id)
    (transitions : List Transition) :
    revisionsOf (transitions ++ [transition]) id = revisionsOf transitions id := by
  rw [revisionsOf_append]
  cases recorded : transition.recorded with
  | none => simp
  | some reference => simp [other reference recorded]

theorem lastCommitted_append (transitions : List Transition) (transition : Transition)
    (key : InstallationKey) :
    lastCommitted (transitions ++ [transition]) key =
      if key = transition.key then transition.committedState else lastCommitted transitions key := by
  unfold lastCommitted
  rw [List.filter_append]
  by_cases this : key = transition.key
  · rw [if_pos this]
    simp [this]
  · have other : transition.key ≠ key := fun same => this same.symm
    rw [if_neg this]
    simp [other]

/-- The invariant of replay: what its tables say about the transitions. -/
structure Accounts (r : ReplayedLedger) : Prop where
  states : ∀ key, r.state key = lastCommitted r.transitions key
  keys : ∀ key, (r.state key).installationKey = key
  operations : ∀ id transition, r.operations.get? id = some transition ↔
    transition ∈ r.transitions ∧ transition.mutation.operationId = id
  idempotency : ∀ id transition, r.idempotency.get? id = some transition ↔
    transition ∈ r.transitions ∧ transition.mutation.idempotencyKey = id
  owners : ∀ transition ∈ r.transitions, ∀ reference, transition.recorded = some reference →
    r.instanceOwners.get? reference.instanceId = some transition.key
  latest : ∀ key reference, (r.state key).latestInstanceRevisionRef = some reference →
    r.instanceOwners.get? reference.instanceId = some key ∧
      revisionsOf r.transitions reference.instanceId = List.range' 1 reference.revision
  revisions : ∀ id, revisionsOf r.transitions id =
    List.range' 1 (revisionsOf r.transitions id).length
  repackages : ∀ transition ∈ r.transitions, transition.Repackages

theorem accounts_empty : Accounts .empty where
  states := fun _ => rfl
  keys := fun _ => rfl
  operations := fun id transition => by simp [ReplayedLedger.empty]
  idempotency := fun id transition => by simp [ReplayedLedger.empty]
  owners := fun _ member => by cases member
  latest := fun _ _ none => by cases none
  revisions := fun _ => rfl
  repackages := fun _ member => by cases member

section

variable {r next : ReplayedLedger} {transition : Transition}

theorem Replays.state (replays : Replays r transition next) (key : InstallationKey) :
    next.state key = if key = transition.key then transition.committedState else r.state key := by
  unfold ReplayedLedger.state
  rw [replays.states, Dict.get?_set]
  split
  · rfl
  · rfl

/-- An id nobody owns was never recorded. -/
theorem Accounts.unowned (accounts : Accounts r) {id : Name} (free : r.instanceOwners.get? id = none) :
    revisionsOf r.transitions id = [] := by
  unfold revisionsOf
  rw [List.map_eq_nil_iff, List.filter_eq_nil_iff]
  intro reference member
  obtain ⟨transition, listed, recorded⟩ := List.mem_filterMap.mp member
  have owned := accounts.owners transition listed reference recorded
  intro same
  have same : reference.instanceId = id := by simpa using same
  rw [same, free] at owned
  cases owned

/-- A recorded revision is the next one of an id that no other installation owns. -/
theorem Accounts.recorded (accounts : Accounts r) (replays : Replays r transition next)
    {reference : InstanceRevisionRef} (recorded : transition.recorded = some reference) :
    transition.committedState.latestInstanceRevisionRef = some reference ∧
      revisionsOf r.transitions reference.instanceId ++ [reference.revision] =
        List.range' 1 reference.revision ∧
      ∀ owner, r.instanceOwners.get? reference.instanceId = some owner → owner = transition.key := by
  unfold Transition.recorded at recorded
  obtain ⟨moved, recorded⟩ := Option.ite_none_left_eq_some.mp recorded
  obtain ⟨fresh, renewal, unowned⟩ := replays.renewal
  refine ⟨recorded, ?_⟩
  rw [recorded] at renewal moved
  have before := replays.previous
  cases before' : transition.previousState.latestInstanceRevisionRef with
  | none =>
    rw [before'] at renewal
    cases renewal with
    | issued _ first one =>
      have free := unowned _ rfl
      rw [accounts.unowned free, one, free]
      exact ⟨rfl, fun _ owned => by cases owned⟩
  | some earlier =>
    have known := accounts.latest transition.key earlier (by rw [← before]; exact before')
    rw [before'] at renewal moved
    cases renewal with
    | kept => exact absurd rfl moved
    | raised _ _ same up =>
      rw [same, known.2, known.1, up]
      refine ⟨?_, fun owner owned => (Option.some.inj owned).symm⟩
      rw [List.range'_concat]
      simp [Nat.add_comm]
    | issued _ first one =>
      have free := unowned _ rfl
      rw [accounts.unowned free, one, free]
      exact ⟨rfl, fun _ owned => by cases owned⟩

/-- An index of the transitions takes one more under a new key. -/
theorem index_append {K : Type} [DecidableEq K] (field : Transition → K) {index : Dict K Transition}
    {transitions : List Transition}
    (indexed : ∀ key t, index.get? key = some t ↔ t ∈ transitions ∧ field t = key)
    (unused : index.get? (field transition) = none) (key : K) (t : Transition) :
    (index.set (field transition) transition).get? key = some t ↔
      t ∈ transitions ++ [transition] ∧ field t = key := by
  rw [Dict.get?_set, List.mem_append, List.mem_singleton]
  split
  · rename_i same
    have absent : ∀ t ∈ transitions, field t ≠ key := by
      intro t member isKey
      have found := (indexed key t).mpr ⟨member, isKey⟩
      rw [same, unused] at found
      cases found
    constructor
    · intro found
      cases found
      exact ⟨.inr rfl, same.symm⟩
    · rintro ⟨member | rfl, isKey⟩
      · exact absurd isKey (absent t member)
      · rfl
  · rename_i other
    rw [indexed]
    constructor
    · exact fun found => ⟨.inl found.1, found.2⟩
    · rintro ⟨member | rfl, isKey⟩
      · exact ⟨member, isKey⟩
      · exact absurd isKey.symm other

/-- The step of replay keeps the invariant. -/
theorem Accounts.step (accounts : Accounts r) (replays : Replays r transition next) : Accounts next := by
  have recorded := fun reference => @Accounts.recorded r next transition accounts replays reference
  have listed : ∀ t, t ∈ next.transitions ↔ t ∈ r.transitions ∨ t = transition := by
    intro t
    rw [replays.transitions, List.mem_append, List.mem_singleton]
  have kept : ∀ key reference, key ≠ transition.key →
      (r.state key).latestInstanceRevisionRef = some reference →
        revisionsOf next.transitions reference.instanceId = revisionsOf r.transitions reference.instanceId := by
    intro key reference other isLatest
    rw [replays.transitions]
    refine revisionsOf_other (fun new isNew same => other ?_) _
    apply (recorded new isNew).2.2
    rw [same]
    exact (accounts.latest key reference isLatest).1
  constructor
  · intro key
    rw [replays.state, replays.transitions, lastCommitted_append, accounts.states]
  · intro key
    rw [replays.state]
    split
    · rename_i same
      rw [same]
      exact replays.owner
    · exact accounts.keys key
  · rw [replays.operations, replays.transitions]
    exact index_append (fun t => t.mutation.operationId) accounts.operations replays.newOperation
  · rw [replays.idempotency, replays.transitions]
    exact index_append (fun t => t.mutation.idempotencyKey) accounts.idempotency replays.newKey
  · intro t member reference isRecorded
    rcases (listed t).mp member with earlier | rfl
    · exact replays.keepsOwners _ _ (accounts.owners t earlier reference isRecorded)
    · exact replays.claims reference (recorded reference isRecorded).1
  · intro key reference isLatest
    rw [replays.state] at isLatest
    split at isLatest
    · rename_i same
      rw [same]
      refine ⟨replays.claims reference isLatest, ?_⟩
      rw [replays.transitions, revisionsOf_append]
      by_cases moved : transition.recorded = some reference
      · rw [moved]
        simpa using (recorded reference moved).2.1
      · have none : transition.recorded = none := by
          unfold Transition.recorded at moved ⊢
          split
          · rfl
          · rename_i different
            rw [if_neg different] at moved
            exact absurd isLatest moved
        rw [none]
        have still : transition.previousState.latestInstanceRevisionRef = some reference := by
          unfold Transition.recorded at none
          split at none
          · rename_i unmoved
            rw [← unmoved]
            exact isLatest
          · rw [isLatest] at none
            cases none
        rw [replays.previous] at still
        simpa using (accounts.latest transition.key reference still).2
    · rename_i other
      rw [kept key reference other isLatest]
      have known := accounts.latest key reference isLatest
      exact ⟨replays.keepsOwners _ _ known.1, known.2⟩
  · intro id
    rw [replays.transitions]
    cases isRecorded : transition.recorded with
    | none =>
      rw [revisionsOf_append, isRecorded]
      simpa using accounts.revisions id
    | some reference =>
      by_cases same : reference.instanceId = id
      · have history := (recorded reference isRecorded).2.1
        rw [revisionsOf_append, isRecorded]
        have appended : ([reference].filter (·.instanceId = id)).map InstanceRevisionRef.revision =
            [reference.revision] := by simp [same]
        rw [Option.toList_some, appended, ← same, history, List.length_range']
      · rw [revisionsOf_other (fun new isNew => by
          rw [isRecorded] at isNew
          cases isNew
          exact same)]
        exact accounts.revisions id
  · intro t member
    rcases (listed t).mp member with earlier | rfl
    · exact accounts.repackages t earlier
    · exact replays.repackages

end

theorem replay_append (transitions : List Transition) (transition : Transition) :
    replay (transitions ++ [transition]) =
      (replay transitions).bind fun r => replayTransition r transition := by
  unfold replay
  rw [List.foldlM_append]
  cases transitions.foldlM replayTransition ReplayedLedger.empty with
  | error code => rfl
  | ok r =>
    show (replayTransition r transition >>= fun next => pure next) = _
    rw [bind_pure]
    rfl

/-- What replays has the invariant. -/
theorem replay_accounts {transitions : List Transition} (replayed : replay transitions = .ok r) :
    r.transitions = transitions ∧ Accounts r := by
  induction transitions using List.reverseRecOn generalizing r with
  | nil =>
    cases replayed
    exact ⟨rfl, accounts_empty⟩
  | append_singleton earlier transition ih =>
    rw [replay_append] at replayed
    obtain ⟨before, first, last⟩ := Except.bind_ok_iff.mp replayed
    obtain ⟨listed, accounts⟩ := ih first
    have replays := replayTransition_ok last
    exact ⟨by rw [replays.transitions, listed], accounts.step replays⟩

/-! ## Commits replay -/

variable {owner : InstallationKey}

theorem claimInstance_owned (claimed : claimInstance owners key reference = .ok grown) {id : Name}
    (owned : grown.get? id = some owner) : owners.get? id = some owner ∨ owner = key := by
  unfold claimInstance at claimed
  split at claimed
  · cases claimed
    exact .inl owned
  · split at claimed
    · cases claimed
      rw [Dict.get?_set] at owned
      split at owned
      · exact .inr (Option.some.inj owned).symm
      · exact .inl owned
    · split at claimed
      · cases claimed
        exact .inl owned
      · cases claimed

theorem Renewal.claimable {before after : Option InstanceRevisionRef} (renewal : Renewal before after fresh)
    (held : ∀ reference, before = some reference → owners.get? reference.instanceId = some key)
    (unowned : ∀ id, fresh = some id → owners.get? id = none) {reference : InstanceRevisionRef}
    (isAfter : after = some reference) (owned : owners.get? reference.instanceId = some owner) :
    owner = key := by
  cases renewal with
  | kept =>
    rw [held reference isAfter] at owned
    exact (Option.some.inj owned).symm
  | dropped => cases isAfter
  | raised latest next same up =>
    cases isAfter
    rw [same, held latest rfl] at owned
    exact (Option.some.inj owned).symm
  | issued _ first one =>
    cases isAfter
    rw [unowned _ rfl] at owned
    cases owned

/-- A transition that its mutation leads to replays. -/
theorem Accounts.replayable (accounts : Accounts r)
    (chained : transition.inventoryRevision = r.transitions.length + 1)
    (expected : transition.mutation.expectedInventoryRevision = r.transitions.length)
    (previous : transition.previousState = r.state transition.key)
    (newOperation : r.operations.get? transition.mutation.operationId = none)
    (newKey : r.idempotency.get? transition.mutation.idempotencyKey = none)
    (outcome : replayedOutcome (r.state transition.key) transition = .ok (true, fresh))
    (unowned : ∀ id, fresh = some id → r.instanceOwners.get? id = none) :
    ∃ next, replayTransition r transition = .ok next := by
  obtain ⟨-, renewal, -⟩ := replayedOutcome_ok outcome
  have held : ∀ reference, (r.state transition.key).latestInstanceRevisionRef = some reference →
      r.instanceOwners.get? reference.instanceId = some transition.key :=
    fun reference isLatest => (accounts.latest transition.key reference isLatest).1
  have before : ∃ owners, claimInstance r.instanceOwners transition.key
      transition.previousState.latestInstanceRevisionRef = .ok owners := by
    refine claimInstance_free fun reference owner isLatest owned => ?_
    rw [previous] at isLatest
    rw [held reference isLatest] at owned
    exact (Option.some.inj owned).symm
  obtain ⟨owners, before⟩ := before
  have after : ∃ grown, claimInstance owners transition.key
      transition.committedState.latestInstanceRevisionRef = .ok grown := by
    refine claimInstance_free fun reference owner isLatest owned => ?_
    rcases claimInstance_owned before owned with earlier | same
    · exact renewal.claimable held unowned isLatest earlier
    · exact same
  obtain ⟨grown, after⟩ := after
  have free : (fresh.any fun id => (r.instanceOwners.get? id).isSome) = false := by
    cases fresh with
    | none => rfl
    | some id =>
      rw [Option.any_some, unowned id rfl]
      rfl
  unfold replayTransition
  simp only [chained, expected, previous, newOperation, newKey, outcome, free, ne_eq, not_true_eq_false,
    or_self, if_false, Option.isSome_none, Bool.not_true, Bool.false_eq_true]
  rw [previous] at before
  rw [before, Except.bind, after]
  exact ⟨_, rfl⟩

theorem requires_issued (required : requiresFreshInstance previous mutation = true)
    (applied : applyMutation previous mutation fresh = .ok (kind, committed, issued)) : issued.isSome := by
  simp only [requiresFreshInstance, Bool.and_eq_true, Bool.or_eq_true, decide_eq_true_eq] at required
  obtain ⟨enabled, needed⟩ := required
  have moving : previous.selection.desiredState ≠ .installedEnabled := by
    intro isEnabled
    rcases needed with absent | none
    · rw [isEnabled] at absent
      cases absent
    · have some := (previous.enabled_latest isEnabled).2
      rw [Option.isNone_iff_eq_none.mp none] at some
      cases some
  have nothing : (if previous.selection.desiredState = .absent then none
      else previous.latestInstanceRevisionRef) = none := by
    rcases needed with absent | none
    · rw [if_pos absent]
    · rw [Option.isNone_iff_eq_none.mp none]
      split
      · rfl
      · rfl
  unfold applyMutation at applied
  rw [enabled] at applied
  dsimp only at applied
  split at applied
  · cases applied
  · obtain ⟨package, -, applied⟩ := Except.bind_ok_iff.mp applied
    obtain ⟨next, isNext, applied⟩ := Except.bind_ok_iff.mp applied
    obtain ⟨state, -, outcome⟩ := Except.map_ok_iff.mp applied
    cases outcome
    unfold nextInstance at isNext
    rw [nothing] at isNext
    split at isNext
    · contradiction
    · cases isNext
      rfl
    · cases isNext

theorem issueInstanceId_ok {required : Bool} {drawn : PyStr}
    (issued : issueInstanceId owners required drawn = .ok fresh) (optional : required = false) :
    fresh = none := by
  unfold issueInstanceId at issued
  rw [optional] at issued
  cases issued
  rfl

variable {reserved : List PackageRevisionRef}

/-- Replay finds in the committed state the id that the commit drew. -/
theorem nextTransition_ok {drawn : PyStr} (made : nextTransition r mutation reserved drawn = .ok transition) :
    transition.mutation = .desired mutation ∧
      transition.inventoryRevision = r.transitions.length + 1 ∧
      transition.previousState = r.state mutation.installationKey ∧
      ∃ fresh, replayedOutcome (r.state mutation.installationKey) transition = .ok (true, fresh) ∧
        ∀ id, fresh = some id → r.instanceOwners.get? id = none := by
  unfold nextTransition at made
  obtain ⟨fresh, drew, made⟩ := Except.bind_ok_iff.mp made
  obtain ⟨⟨kind, committed, issued⟩, applied, made⟩ := Except.bind_ok_iff.mp made
  dsimp only at made
  obtain ⟨-, made⟩ := raise_if_ok made
  obtain ⟨unowned, made⟩ := raise_if_ok made
  split at made
  · cases made
    refine ⟨rfl, rfl, rfl, issued, ?_, fun id isId => ?_⟩
    · have evidence : (if requiresFreshInstance (r.state mutation.installationKey) mutation = true then
          committed.selection.instanceRevisionRef.map InstanceRevisionRef.instanceId else none) = fresh := by
        split
        · rename_i required
          have some := requires_issued required applied
          obtain ⟨-, -, -, -, found⟩ := applyMutation_ok applied
          rw [(found some).2, (found some).1]
        · rename_i required
          exact (issueInstanceId_ok drew (by simpa using required)).symm
      simp [replayedOutcome, evidence, applied, Except.map]
    · rw [isId] at unowned
      simpa using unowned
  · cases made

theorem nextUpdateTransition_ok {mutation : UpdateMutation}
    (made : nextUpdateTransition r mutation reserved = .ok transition) :
    transition.mutation = .update mutation ∧
      transition.inventoryRevision = r.transitions.length + 1 ∧
      transition.previousState = r.state mutation.command.installationKey ∧
      ∃ fresh, replayedOutcome (r.state mutation.command.installationKey) transition = .ok (true, fresh) ∧
        ∀ id, fresh = some id → r.instanceOwners.get? id = none := by
  unfold nextUpdateTransition at made
  obtain ⟨committed, applied, made⟩ := Except.bind_ok_iff.mp made
  split at made
  · cases made
  · split at made
    · cases made
      refine ⟨rfl, rfl, rfl, none, ?_, fun _ none => by cases none⟩
      simp [replayedOutcome, applied, Except.map]
    · cases made

/-! ## What a call decides -/

section

variable {r : ReplayedLedger} {call : CommitCall}

variable {earlier : Transition}

/-- A mutation that is already in the journal answers with its transition. -/
theorem Accounts.repeated (accounts : Accounts r) (member : earlier ∈ r.transitions)
    (same : earlier.mutation = call.mutation) : decideCommit r call = .ok (.inl earlier) := by
  have found := (accounts.idempotency call.mutation.idempotencyKey earlier).mpr ⟨member, by rw [same]⟩
  unfold decideCommit repeatResult
  rw [found]
  simp [same, Except.bind]

/-- Another mutation under one of its keys is turned away. -/
theorem Accounts.reused (accounts : Accounts r) (member : earlier ∈ r.transitions)
    (other : earlier.mutation ≠ call.mutation)
    (shared : earlier.mutation.operationId = call.mutation.operationId ∨
      earlier.mutation.idempotencyKey = call.mutation.idempotencyKey) :
    decideCommit r call = .error idempotencyConflict ∨ decideCommit r call = .error operationConflict := by
  unfold decideCommit repeatResult
  rcases shared with operation | key
  · have found := (accounts.operations call.mutation.operationId earlier).mpr ⟨member, operation⟩
    cases byKey : r.idempotency.get? call.mutation.idempotencyKey with
    | none =>
      right
      simp [found, other, Except.bind]
    | some t =>
      left
      obtain ⟨known, same⟩ := (accounts.idempotency _ t).mp byKey
      have different : t.mutation ≠ call.mutation := by
        intro isCall
        have again := (accounts.operations call.mutation.operationId t).mpr ⟨known, by rw [isCall]⟩
        rw [found] at again
        cases again
        exact other isCall
      simp [different, Except.bind]
  · left
    have found := (accounts.idempotency call.mutation.idempotencyKey earlier).mpr ⟨member, key⟩
    simp [found, other, Except.bind]

/-- A decision is an earlier transition of the same mutation, or a new one that replays. -/
theorem Accounts.decided (accounts : Accounts r) {answer : Transition ⊕ Transition}
    (decided : decideCommit r call = .ok answer) :
    (∃ earlier ∈ r.transitions, answer = .inl earlier ∧ earlier.mutation = call.mutation) ∨
      ∃ transition next, answer = .inr transition ∧ transition.mutation = call.mutation ∧
        replayTransition r transition = .ok next := by
  unfold decideCommit at decided
  obtain ⟨found, looked, decided⟩ := Except.bind_ok_iff.mp decided
  unfold repeatResult at looked
  split at looked
  · rename_i earlier byKey
    obtain ⟨same, looked⟩ := raise_if_ok looked
    cases looked
    cases decided
    exact .inl ⟨earlier, ((accounts.idempotency _ earlier).mp byKey).1, rfl, by simpa using same⟩
  · rename_i newKey
    split at looked
    · rename_i earlier byOperation
      obtain ⟨same, looked⟩ := raise_if_ok looked
      cases looked
      cases decided
      exact .inl ⟨earlier, ((accounts.operations _ earlier).mp byOperation).1, rfl, by simpa using same⟩
    · rename_i newOperation
      cases looked
      dsimp only at decided
      obtain ⟨expected, decided⟩ := raise_if_ok decided
      obtain ⟨transition, made, isAnswer⟩ := Except.map_ok_iff.mp decided
      right
      have made : transition.mutation = call.mutation ∧
          transition.inventoryRevision = r.transitions.length + 1 ∧
          transition.previousState = r.state call.mutation.installationKey ∧
          ∃ fresh, replayedOutcome (r.state call.mutation.installationKey) transition =
            .ok (true, fresh) ∧ ∀ id, fresh = some id → r.instanceOwners.get? id = none := by
        split at made
        · rename_i mutation isDesired
          rw [isDesired]
          exact nextTransition_ok made
        · rename_i mutation isUpdate
          rw [isUpdate]
          exact nextUpdateTransition_ok made
      obtain ⟨same, chained, previous, fresh, outcome, unowned⟩ := made
      have isKey : transition.key = call.mutation.installationKey := by rw [Transition.key, same]
      rw [← isKey] at previous outcome
      rw [← same] at newKey newOperation expected
      obtain ⟨next, replayed⟩ := accounts.replayable chained (by simpa using expected) previous
        newOperation newKey outcome unowned
      exact ⟨transition, next, isAnswer.symm, same, replayed⟩

end

/-! ## No call reports a corrupt journal -/

theorem bind_sound {code : String} {step : Except String α} {next : α → Except String β}
    (first : step ≠ .error code) (rest : ∀ value, next value ≠ .error code) :
    step.bind next ≠ .error code := by
  cases step with
  | error other =>
    intro same
    cases same
    exact first rfl
  | ok value => exact rest value

theorem map_sound {code : String} {step : Except String α} (first : step ≠ .error code) :
    step.map next ≠ .error code := by
  cases step with
  | error other =>
    intro same
    cases same
    exact first rfl
  | ok value => exact nofun

theorem refuse_sound {code found : String} (other : found ≠ code) :
    (Except.error found : Except String α) ≠ .error code :=
  fun same => other (Except.error.inj same)

theorem if_sound {code : String} {c : Prop} [Decidable c] {one other : Except String α}
    (first : one ≠ .error code) (second : other ≠ .error code) : (if c then one else other) ≠ .error code := by
  split
  · exact first
  · exact second

theorem makeState_sound (key : InstallationKey) (selection : DesiredSelection)
    (latest : Option InstanceRevisionRef) : makeState key selection latest ≠ .error journalCorrupt := by
  unfold makeState
  split
  · exact nofun
  · exact refuse_sound (by decide)

theorem select_sound (key : InstallationKey) (state : DesiredState) (package : PackageRevisionRef)
    (selected latest : Option InstanceRevisionRef) :
    select key state package selected latest ≠ .error journalCorrupt := by
  refine bind_sound ?_ fun selection => makeState_sound _ _ _
  unfold makeSelection
  split
  · exact nofun
  · exact refuse_sound (by decide)

theorem packageOf_sound (previous : InstallationState) (mutation : DesiredStateMutation) :
    packageOf previous mutation ≠ .error journalCorrupt := by
  unfold packageOf
  split
  · exact refuse_sound (by decide)
  · exact if_sound (refuse_sound (by decide)) (if_sound (refuse_sound (by decide)) nofun)

theorem applyMutation_sound (previous : InstallationState) (mutation : DesiredStateMutation)
    (fresh : Option Name) : applyMutation previous mutation fresh ≠ .error journalCorrupt := by
  refine if_sound (refuse_sound (by decide)) ?_
  split
  · exact map_sound (makeState_sound _ _ _)
  · exact bind_sound (packageOf_sound _ _) fun package => map_sound (select_sound _ _ _ _ _)
  · refine bind_sound (packageOf_sound _ _) fun package => ?_
    split
    · exact if_sound (refuse_sound (by decide)) (by simp)
    · refine bind_sound ?_ fun issued => map_sound (select_sound _ _ _ _ _)
      unfold nextInstance
      split
      · simp
      · simp
      · exact refuse_sound (by decide)

theorem applyUpdateMutation_sound (previous : InstallationState) (mutation : UpdateMutation) :
    applyUpdateMutation previous mutation ≠ .error journalCorrupt := by
  refine if_sound (refuse_sound (by decide)) (if_sound (refuse_sound (by decide))
    (if_sound (refuse_sound (by decide)) (if_sound (refuse_sound (by decide))
      (if_sound (refuse_sound (by decide)) ?_))))
  split
  · exact select_sound _ _ _ _ _
  · split
    · exact if_sound (refuse_sound (by decide)) (select_sound _ _ _ _ _)
    · exact refuse_sound (by decide)

theorem decideCommit_sound (r : ReplayedLedger) (call : CommitCall) :
    decideCommit r call ≠ .error journalCorrupt := by
  refine bind_sound ?_ fun earlier => ?_
  · unfold repeatResult
    split
    · exact if_sound (refuse_sound (by decide)) (by simp)
    · split
      · exact if_sound (refuse_sound (by decide)) (by simp)
      · simp
  · split
    · simp
    · refine if_sound (refuse_sound (by decide)) (map_sound ?_)
      split
      · refine bind_sound ?_ fun fresh => bind_sound (applyMutation_sound _ _ _) fun outcome => ?_
        · refine if_sound (by simp) ?_
          split
          · exact if_sound (refuse_sound (by decide)) (by simp)
          · exact refuse_sound (by decide)
        · refine if_sound (refuse_sound (by decide)) (if_sound (refuse_sound (by decide)) ?_)
          split
          · simp
          · exact refuse_sound (by decide)
      · refine bind_sound (applyUpdateMutation_sound _ _) fun committed =>
          if_sound (refuse_sound (by decide)) ?_
        split
        · simp
        · exact refuse_sound (by decide)

/-! ## Runs -/

/-- The history of the installations, as the transitions of the journal tell it. -/
structure Consistent (r : ReplayedLedger) : Prop where
  states : ∀ key, r.state key = lastCommitted r.transitions key
  oneOwner : ∀ t ∈ r.transitions, ∀ t' ∈ r.transitions, ∀ reference reference',
    t.recorded = some reference → t'.recorded = some reference' →
      reference.instanceId = reference'.instanceId → t.key = t'.key
  revisions : ∀ id, revisionsOf r.transitions id = List.range' 1 (revisionsOf r.transitions id).length
  latest : ∀ key reference, (r.state key).latestInstanceRevisionRef = some reference →
    revisionsOf r.transitions reference.instanceId = List.range' 1 reference.revision
  packages : ∀ t ∈ r.transitions,
    t.committedState.selection.packageRevision ≠ t.previousState.selection.packageRevision →
      (∃ update, t = .update update) ∨ t.previousState.selection.desiredState = .absent ∨
        t.committedState.selection.packageRevision = none
  enabled : ∀ key, (r.state key).selection.desiredState = .installedEnabled →
    (r.state key).selection.instanceRevisionRef = (r.state key).latestInstanceRevisionRef

theorem Accounts.consistent (accounts : Accounts r) : Consistent r := by
  refine ⟨accounts.states, ?_, accounts.revisions, fun key reference isLatest =>
    (accounts.latest key reference isLatest).2, ?_, fun key enabled =>
      ((r.state key).enabled_latest enabled).1⟩
  · intro t member t' member' reference reference' recorded recorded' same
    have owned := accounts.owners t member reference recorded
    rw [same, accounts.owners t' member' reference' recorded'] at owned
    exact (Option.some.inj owned).symm
  · intro t member changed
    rcases accounts.repackages t member with update | kept | absent | absent
    · exact .inl update
    · exact absurd kept changed
    · exact .inr (.inl absent)
    · exact .inr (.inr (InstallationState.absent_package _ absent))

section

variable {V : Type} (json : JsonText V) (codec : JournalRecordCodec V Transition)

/-- What a call does on a journal that replays to `r`; afterwards it replays to `next`. -/
structure Answers (content : List Char) (call : CommitCall) (r next : ReplayedLedger) : Prop where
  sound : (commit json codec content call).1 ≠ .error journalCorrupt
  repeated : ∀ t ∈ r.transitions, t.mutation = call.mutation →
    commit json codec content call = (.ok t, content)
  reused : ∀ t ∈ r.transitions, t.mutation ≠ call.mutation →
    (t.mutation.operationId = call.mutation.operationId ∨
      t.mutation.idempotencyKey = call.mutation.idempotencyKey) →
      commit json codec content call = (.error idempotencyConflict, content) ∨
        commit json codec content call = (.error operationConflict, content)
  committed : ∀ t, (commit json codec content call).1 = .ok t → t.mutation = call.mutation ∧
    (t ∈ r.transitions ∧ next = r ∨ next.transitions = r.transitions ++ [t] ∧
      ∀ key, next.state key = if key = t.key then t.committedState else r.state key)

variable {json codec} {content : List Char} {r : ReplayedLedger}

theorem loadLedger_ok (holds : HoldsRecords json codec content r.transitions)
    (replayed : replay r.transitions = .ok r) : loadLedger json codec content = .ok (r, content) := by
  unfold loadLedger
  rw [holds.load rfl]
  simp [replayed, Except.map]

/-- One call, from a journal that replays. -/
theorem commit_step (holds : HoldsRecords json codec content r.transitions)
    (replayed : replay r.transitions = .ok r) (call : CommitCall) :
    ∃ next, Answers json codec content call r next ∧ replay next.transitions = .ok next ∧
      HoldsRecords json codec (commit json codec content call).2 next.transitions := by
  have accounts := (replay_accounts replayed).2
  have loaded := loadLedger_ok holds replayed
  cases decision : decideCommit r call with
  | error code =>
    have outcome : commit json codec content call = (.error code, content) := by
      simp [commit, loaded, decision]
    refine ⟨r, ⟨?_, ?_, ?_, ?_⟩, replayed, by rw [outcome]; exact holds⟩
    · rw [outcome]
      intro same
      cases same
      exact decideCommit_sound r call decision
    · intro t member same
      rw [accounts.repeated member same] at decision
      cases decision
    · intro t member other shared
      rw [outcome]
      rcases accounts.reused member other shared with key | operation
      · rw [decision] at key
        cases key
        exact .inl rfl
      · rw [decision] at operation
        cases operation
        exact .inr rfl
    · intro t isOk
      rw [outcome] at isOk
      cases isOk
  | ok answer =>
    have notReused : ∀ t ∈ r.transitions, t.mutation ≠ call.mutation →
        ¬(t.mutation.operationId = call.mutation.operationId ∨
          t.mutation.idempotencyKey = call.mutation.idempotencyKey) := by
      intro t member other shared
      rcases accounts.reused member other shared with key | operation
      · rw [decision] at key
        cases key
      · rw [decision] at operation
        cases operation
    rcases accounts.decided decision with ⟨earlier, member, isAnswer, same⟩ |
      ⟨transition, next, isAnswer, same, replays⟩
    · have outcome : commit json codec content call = (.ok earlier, content) := by
        simp [commit, loaded, decision, isAnswer]
      refine ⟨r, ⟨?_, ?_, ?_, ?_⟩, replayed, by rw [outcome]; exact holds⟩
      · rw [outcome]
        exact nofun
      · intro t isMember isSame
        rw [accounts.repeated isMember isSame] at decision
        cases decision
        cases isAnswer
        exact outcome
      · intro t isMember other shared
        exact absurd shared (notReused t isMember other)
      · intro t isOk
        rw [outcome] at isOk
        cases isOk
        exact ⟨same, .inl ⟨member, rfl⟩⟩
    · have facts := replayTransition_ok replays
      have extended : replay next.transitions = .ok next := by
        rw [facts.transitions, replay_append, replayed]
        exact replays
      have grown : HoldsRecords json codec (appendJsonlRecord json codec .lf content transition)
          next.transitions := by
        rw [facts.transitions]
        exact holds.append .lf transition
      have notRepeated : ∀ t ∈ r.transitions, t.mutation ≠ call.mutation := by
        intro t isMember isSame
        rw [accounts.repeated isMember isSame, isAnswer] at decision
        cases decision
      cases ended : call.appended with
      | done =>
        have outcome : commit json codec content call =
            (.ok transition, appendJsonlRecord json codec .lf content transition) := by
          simp [commit, loaded, decision, isAnswer, ended]
        refine ⟨next, ⟨?_, ?_, ?_, ?_⟩, extended, by rw [outcome]; exact grown⟩
        · rw [outcome]
          exact nofun
        · exact fun t isMember isSame => absurd isSame (notRepeated t isMember)
        · exact fun t isMember other shared => absurd shared (notReused t isMember other)
        · intro t isOk
          rw [outcome] at isOk
          cases isOk
          exact ⟨same, .inr ⟨facts.transitions, facts.state⟩⟩
      | refused =>
        have outcome : commit json codec content call = (.error appendFailed, content) := by
          simp [commit, loaded, decision, isAnswer, ended]
        refine ⟨r, ⟨?_, ?_, ?_, ?_⟩, replayed, by rw [outcome]; exact holds⟩
        · rw [outcome]
          simp [appendFailed, journalCorrupt]
        · exact fun t isMember isSame => absurd isSame (notRepeated t isMember)
        · exact fun t isMember other shared => absurd shared (notReused t isMember other)
        · intro t isOk
          rw [outcome] at isOk
          cases isOk
      | unconfirmed =>
        have outcome : commit json codec content call =
            (.error appendFailed, appendJsonlRecord json codec .lf content transition) := by
          simp [commit, loaded, decision, isAnswer, ended]
        refine ⟨next, ⟨?_, ?_, ?_, ?_⟩, extended, by rw [outcome]; exact grown⟩
        · rw [outcome]
          simp [appendFailed, journalCorrupt]
        · exact fun t isMember isSame => absurd isSame (notRepeated t isMember)
        · exact fun t isMember other shared => absurd shared (notReused t isMember other)
        · intro t isOk
          rw [outcome] at isOk
          cases isOk

variable (json codec)

end

/-! A removal changes the package revision of an installation without an update. -/

def soleName : Name := ⟨"a", by decide⟩

def otherName : Name := ⟨"b", by decide⟩

def soleDigest : Digest :=
  ⟨"0000000000000000000000000000000000000000000000000000000000000000", by decide⟩

def solePackage : PackageRevisionRef := ⟨soleName, none, soleDigest, soleDigest, soleName⟩

def soleInstallation : InstallationKey := ⟨soleName, .process, soleName, soleName⟩

/-- An install that leaves the plugin disabled. -/
def installSole : DesiredStateMutation :=
  ⟨soleName, soleName, 0, soleInstallation, .installedDisabled, some solePackage, soleName, soleName, none,
    by decide⟩

/-- The removal after it. -/
def removeSole : DesiredStateMutation :=
  ⟨otherName, otherName, 1, soleInstallation, .absent, none, soleName, soleName, none, by decide⟩

def soleDisabled : InstallationState :=
  ⟨soleInstallation, ⟨.installedDisabled, some solePackage, none, rfl⟩, none, by decide⟩

def soleInstalled : Transition :=
  .desired ⟨1, .install, installSole, .initial soleInstallation, soleDisabled, by decide⟩

def soleRemoved : Transition :=
  .desired ⟨2, .remove, removeSole, soleDisabled, .initial soleInstallation, by decide⟩

def soleLedger : ReplayedLedger :=
  ⟨[soleInstalled], Dict.empty.set soleInstallation soleDisabled, Dict.empty.set soleName soleInstalled,
    Dict.empty.set soleName soleInstalled, Dict.empty⟩

end Loushang.Plugins
