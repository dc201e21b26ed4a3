import Loushang.Journal.RecordFiles
import Loushang.Lib.Dict
import Loushang.Lib.Run
import Loushang.Plugins.DesiredRecords

/-!
# The desired-state ledger

`plugin_management/ledger.py`: `commit`, `commit_update` and the replay of the journal, on the
text of the journal file. A failure is known by its code. The JSON text and the record codec are
those of the journal model. The revisions reserved for garbage collection, what the
instance-id factory returns and how the append ends are part of a call (a line half written is
not modelled); the writer-epoch seal, the locks and the sorted snapshot are left out.
-/
namespace Loushang.Plugins
open Loushang.Lib Loushang.Journal

def invalidTransition : String := "invalid_plugin_lifecycle_transition"
def inventoryConflict : String := "plugin_inventory_revision_conflict"
def operationConflict : String := "plugin_management_operation_conflict"
def idempotencyConflict : String := "plugin_management_idempotency_conflict"
def identityConflict : String := "plugin_instance_identity_conflict"
def gcReserved : String := "plugin_package_gc_reserved"
def journalCorrupt : String := "plugin_lifecycle_journal_corrupt"
/-- An operating system error of the append, which has no code of the ledger. -/
def appendFailed : String := "OSError"

/-! ## Transitions -/

def makeSelection (state : DesiredState) (package : Option PackageRevisionRef)
    (selected : Option InstanceRevisionRef) : Except String DesiredSelection :=
  if accepted : selectionAccepts state package selected = true then
    .ok ⟨state, package, selected, accepted⟩
  else .error invalidTransition

def makeState (key : InstallationKey) (selection : DesiredSelection)
    (latest : Option InstanceRevisionRef) : Except String InstallationState :=
  if accepted : stateAccepts key selection latest = true then .ok ⟨key, selection, latest, accepted⟩
  else .error invalidTransition

/-- A state with a new selection. -/
def select (key : InstallationKey) (state : DesiredState) (package : PackageRevisionRef)
    (selected latest : Option InstanceRevisionRef) : Except String InstallationState :=
  (makeSelection state (some package) selected).bind fun selection => makeState key selection latest

/-- `_requires_fresh_instance`. -/
def requiresFreshInstance (previous : InstallationState) (mutation : DesiredStateMutation) : Bool :=
  mutation.desiredState = .installedEnabled &&
    (previous.selection.desiredState = .absent || previous.latestInstanceRevisionRef.isNone)

/-- The package a mutation installs, under the checks of `_apply_mutation`. -/
def packageOf (previous : InstallationState) (mutation : DesiredStateMutation) :
    Except String PackageRevisionRef :=
  match mutation.packageRevision.or previous.selection.packageRevision with
  | none => .error invalidTransition
  | some package =>
    if package.pluginId ≠ mutation.installationKey.pluginId then
      .error "plugin_package_revision_mismatch"
    else if previous.selection.desiredState ≠ .absent ∧
        previous.selection.packageRevision.any (fun current => package ≠ current) then
      .error "plugin_update_requires_staging"
    else .ok package

/-- The instance an enabled selection gets, and the fresh id it was issued. -/
def nextInstance (previous : InstallationState) (key : InstallationKey) (fresh : Option Name) :
    Except String (InstanceRevisionRef × Option Name) :=
  match if previous.selection.desiredState = .absent then none
    else previous.latestInstanceRevisionRef, fresh with
  | some latest, _ => .ok (⟨latest.instanceId, key.pluginId, latest.revision + 1, by omega⟩, none)
  | none, some id => .ok (⟨id, key.pluginId, 1, Nat.one_pos⟩, some id)
  | none, none => .error invalidTransition

/-- `_apply_mutation`. -/
def applyMutation (previous : InstallationState) (mutation : DesiredStateMutation) (fresh : Option Name) :
    Except String (TransitionKind × InstallationState × Option Name) :=
  let key := mutation.installationKey
  let current := previous.selection.desiredState
  if previous.installationKey ≠ key then .error invalidTransition
  else
    match mutation.desiredState with
    | .absent =>
      (makeState key .absent previous.latestInstanceRevisionRef).map fun state =>
        (if current = .absent then .unchanged else .remove, state, none)
    | .installedDisabled =>
      (packageOf previous mutation).bind fun package =>
        (select key .installedDisabled package none
          (if current = .absent then none else previous.latestInstanceRevisionRef)).map fun state =>
            (match current with
              | .absent => .install
              | .installedEnabled => .disable
              | .installedDisabled => .unchanged, state, none)
    | .installedEnabled =>
      (packageOf previous mutation).bind fun package =>
        if current = .installedEnabled then
          if previous.selection.instanceRevisionRef.isNone then .error invalidTransition
          else .ok (.unchanged, previous, none)
        else
          (nextInstance previous key fresh).bind fun issued =>
            (select key .installedEnabled package (some issued.1) (some issued.1)).map fun state =>
              (if current = .absent then .install else .enable, state, issued.2)

/-- `_apply_update_mutation`. -/
def applyUpdateMutation (previous : InstallationState) (mutation : UpdateMutation) :
    Except String InstallationState :=
  let command := mutation.command
  let key := command.installationKey
  let current := previous.selection
  if previous.installationKey ≠ key then .error invalidTransition
  else if current.desiredState = .absent then .error "plugin_update_not_installed"
  else if current.desiredState ≠ mutation.desiredState then .error invalidTransition
  else if current.packageRevision ≠ some command.expectedPackageRevision then
    .error "plugin_update_expected_package_mismatch"
  else if command.stagedPackageRevision = command.expectedPackageRevision then
    .error "plugin_update_target_not_new"
  else if current.desiredState = .installedDisabled then
    select key .installedDisabled command.stagedPackageRevision none previous.latestInstanceRevisionRef
  else
    match current.instanceRevisionRef, previous.latestInstanceRevisionRef with
    | some selected, some latest =>
      if selected ≠ latest then .error invalidTransition
      else
        let next : InstanceRevisionRef := ⟨latest.instanceId, latest.pluginId, latest.revision + 1, by omega⟩
        select key .installedEnabled command.stagedPackageRevision (some next) (some next)
    | _, _ => .error invalidTransition

/-! ## Replay -/

/-- `_ReplayedLedger`. -/
structure ReplayedLedger where
  transitions : List Transition
  states : Dict InstallationKey InstallationState
  operations : Dict Name Transition
  idempotency : Dict Name Transition
  instanceOwners : Dict Name InstallationKey

namespace ReplayedLedger

def empty : ReplayedLedger := ⟨[], Dict.empty, Dict.empty, Dict.empty, Dict.empty⟩

def state (r : ReplayedLedger) (key : InstallationKey) : InstallationState :=
  (r.states.get? key).getD (.initial key)

end ReplayedLedger

/-- What `_replay` expects of a transition: that it is the mutation's outcome, with the id that
was issued for it. -/
def replayedOutcome (previous : InstallationState) : Transition → Except String (Bool × Option Name)
  | .desired transition =>
    let committed := transition.committedState.selection.instanceRevisionRef
    let fresh := if requiresFreshInstance previous transition.mutation then
      committed.map InstanceRevisionRef.instanceId else none
    (applyMutation previous transition.mutation fresh).map fun outcome =>
      (transition.transitionKind = outcome.1 && transition.committedState = outcome.2.1, outcome.2.2)
  | .update transition =>
    (applyUpdateMutation previous transition.mutation).map fun state =>
      (decide (transition.committedState = state), none)

/-- The `setdefault` of `_replay`. -/
def claimInstance (owners : Dict Name InstallationKey) (key : InstallationKey) :
    Option InstanceRevisionRef → Except String (Dict Name InstallationKey)
  | none => .ok owners
  | some reference =>
    match owners.get? reference.instanceId with
    | none => .ok (owners.set reference.instanceId key)
    | some owner => if owner = key then .ok owners else .error journalCorrupt

/-- The body of the loop of `_replay`. -/
def replayTransition (r : ReplayedLedger) (transition : Transition) : Except String ReplayedLedger :=
  let mutation := transition.mutation
  let key := transition.key
  let previous := r.state key
  let head := r.transitions.length
  if transition.inventoryRevision ≠ head + 1 ∨ mutation.expectedInventoryRevision ≠ head ∨
      transition.previousState ≠ previous then .error journalCorrupt
  else if (r.operations.get? mutation.operationId).isSome then .error journalCorrupt
  else if (r.idempotency.get? mutation.idempotencyKey).isSome then .error journalCorrupt
  else
    match replayedOutcome previous transition with
    | .error _ => .error journalCorrupt
    | .ok (same, fresh) =>
      if !same then .error journalCorrupt
      else if fresh.any fun id => (r.instanceOwners.get? id).isSome then .error journalCorrupt
      else
        (claimInstance r.instanceOwners key transition.previousState.latestInstanceRevisionRef).bind fun owners =>
          (claimInstance owners key transition.committedState.latestInstanceRevisionRef).map fun owners =>
            { transitions := r.transitions ++ [transition]
              states := r.states.set key transition.committedState
              operations := r.operations.set mutation.operationId transition
              idempotency := r.idempotency.set mutation.idempotencyKey transition
              instanceOwners := owners }

/-- `_replay`. -/
def replay (transitions : List Transition) : Except String ReplayedLedger :=
  transitions.foldlM replayTransition .empty

/-! ## Commits -/

/-- `_repeat_result`. -/
def repeatResult (r : ReplayedLedger) (mutation : Mutation) : Except String (Option Transition) :=
  match r.idempotency.get? mutation.idempotencyKey with
  | some earlier =>
    if earlier.mutation ≠ mutation then .error idempotencyConflict else .ok (some earlier)
  | none =>
    match r.operations.get? mutation.operationId with
    | some earlier =>
      if earlier.mutation ≠ mutation then .error operationConflict else .ok (some earlier)
    | none => .ok none

/-- `_issue_instance_id`, with what the factory returns. -/
def issueInstanceId (owners : Dict Name InstallationKey) (required : Bool) (drawn : PyStr) :
    Except String (Option Name) :=
  if !required then .ok none
  else if named : drawn.points ≠ [] then
    if (owners.get? ⟨drawn, named⟩).isSome then .error identityConflict else .ok (some ⟨drawn, named⟩)
  else .error identityConflict

/-- The new transition of a `commit`. -/
def nextTransition (r : ReplayedLedger) (mutation : DesiredStateMutation)
    (reserved : List PackageRevisionRef) (drawn : PyStr) : Except String Transition :=
  let previous := r.state mutation.installationKey
  (issueInstanceId r.instanceOwners (requiresFreshInstance previous mutation) drawn).bind fun fresh =>
    (applyMutation previous mutation fresh).bind fun (kind, committed, issued) =>
      if committed.selection.packageRevision.any (· ∈ reserved) then .error gcReserved
      else if issued.any fun id => (r.instanceOwners.get? id).isSome then .error identityConflict
      else if accepted : transitionAccepts (r.transitions.length + 1) mutation previous committed = true then
        .ok (.desired ⟨r.transitions.length + 1, kind, mutation, previous, committed, accepted⟩)
      else .error invalidTransition

/-- The new transition of a `commit_update`. -/
def nextUpdateTransition (r : ReplayedLedger) (mutation : UpdateMutation)
    (reserved : List PackageRevisionRef) : Except String Transition :=
  let previous := r.state mutation.command.installationKey
  (applyUpdateMutation previous mutation).bind fun committed =>
    if committed.selection.packageRevision.any (· ∈ reserved) then .error gcReserved
    else if accepted : updateTransitionAccepts (r.transitions.length + 1) mutation previous committed = true then
      .ok (.update ⟨r.transitions.length + 1, mutation, previous, committed, accepted⟩)
    else .error invalidTransition

/-- How an append ends: with the line kept, with an error before anything is written, or with an
error after the line is written (the `fsync`). -/
inductive Appended where
  | done
  | refused
  | unconfirmed

/-- One call of `commit` or `commit_update`. -/
structure CommitCall where
  mutation : Mutation
  reserved : List PackageRevisionRef
  drawn : PyStr
  appended : Appended

/-- What a call decides on the replayed ledger: an earlier transition, or a new one to append. -/
def decideCommit (r : ReplayedLedger) (call : CommitCall) : Except String (Transition ⊕ Transition) :=
  (repeatResult r call.mutation).bind fun
    | some earlier => .ok (.inl earlier)
    | none =>
      if call.mutation.expectedInventoryRevision ≠ r.transitions.length then .error inventoryConflict
      else
        (match call.mutation with
          | .desired mutation => nextTransition r mutation call.reserved call.drawn
          | .update mutation => nextUpdateTransition r mutation call.reserved).map .inr

section

variable {V : Type} (json : JsonText V) (codec : JournalRecordCodec V Transition)

/-- `JournalLoadPolicy(partial_tail="repair")`. -/
def ledgerPolicy : JournalLoadPolicy := ⟨.absent, .raise, .raise, .repair⟩

/-- `_load_and_replay_unlocked`, with the text it leaves in the file. -/
def loadLedger (content : List Char) : Except String (ReplayedLedger × List Char) :=
  match loadJsonl json (none : Option (JournalHeaderCodec V Unit)) codec ledgerPolicy .path (fun _ => none)
      content with
  | .ok (snapshot, content) => (replay snapshot.records).map fun r => (r, content)
  | .error (.file _ code _) =>
    .error (if code ∈ ["invalid_plugin_lifecycle_record", "unsupported_plugin_lifecycle_record_version"]
      then code else journalCorrupt)
  | .error (.value _) => .error journalCorrupt

/-- `commit` and `commit_update`. -/
def commit (content : List Char) (call : CommitCall) : Except String Transition × List Char :=
  match loadLedger json codec content with
  | .error code => (.error code, content)
  | .ok (r, content) =>
    match decideCommit r call with
    | .error code => (.error code, content)
    | .ok (.inl earlier) => (.ok earlier, content)
    | .ok (.inr transition) =>
      match call.appended with
      | .done => (.ok transition, appendJsonlRecord json codec .lf content transition)
      | .refused => (.error appendFailed, content)
      | .unconfirmed => (.error appendFailed, appendJsonlRecord json codec .lf content transition)

/-- The ledger over one journal file. -/
def desiredLedger : Machine (List Char) CommitCall (Except String Transition) := ⟨commit json codec⟩

end

end Loushang.Plugins
