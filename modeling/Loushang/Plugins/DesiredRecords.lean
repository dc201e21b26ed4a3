import Loushang.AppHost.Contracts

/-!
# Desired-state records of the plugin management

The values of `plugin_management/records.py`, the instance reference of
`resources/plugins/selection.py` and the update mutation of `plugin_management/updates.py`.
What a constructor rejects is excluded by a field of the structure; schema and record versions,
which have one value each, and the dictionary codecs are left out.
-/
namespace Loushang.Plugins
open Loushang.Lib

/-- A text that `_require_nonempty` accepts. -/
abbrev Name := { text : PyStr // text.points ≠ [] }

/-- `_require_sha256`. -/
abbrev Digest := { text : PyStr // AppHost.isHex 64 text = true }

inductive InstallationScope where
  | process
  | tenant
  | workspace
  deriving DecidableEq

inductive DesiredState where
  | absent
  | installedDisabled
  | installedEnabled
  deriving DecidableEq

inductive TransitionKind where
  | install
  | enable
  | disable
  | remove
  | unchanged
  deriving DecidableEq

/-- `PluginPackageRevisionRefV1`. -/
structure PackageRevisionRef where
  pluginId : Name
  pluginVersion : Option Name
  packageContentDigest : Digest
  dependencyLockDigest : Digest
  packageSourceIdentity : Name
  deriving DecidableEq

/-- `PluginInstallationKeyV1`. -/
structure InstallationKey where
  productId : Name
  installationScope : InstallationScope
  scopeId : Name
  pluginId : Name
  deriving DecidableEq

/-- `PluginInstanceRevisionRef`. -/
structure InstanceRevisionRef where
  instanceId : Name
  pluginId : Name
  revision : Nat
  positive : 1 ≤ revision

instance : DecidableEq InstanceRevisionRef := fun a b =>
  decidable_of_iff (a.instanceId = b.instanceId ∧ a.pluginId = b.pluginId ∧ a.revision = b.revision)
    (by cases a; cases b; simp)

/-- The checks of `PluginDesiredSelectionV1`. -/
def selectionAccepts (state : DesiredState) (package : Option PackageRevisionRef)
    (selected : Option InstanceRevisionRef) : Bool :=
  match state, package, selected with
  | .absent, none, none => true
  | .installedDisabled, some _, none => true
  | .installedEnabled, some package, some selected => selected.pluginId = package.pluginId
  | _, _, _ => false

/-- `PluginDesiredSelectionV1`. -/
structure DesiredSelection where
  desiredState : DesiredState
  packageRevision : Option PackageRevisionRef
  instanceRevisionRef : Option InstanceRevisionRef
  accepted : selectionAccepts desiredState packageRevision instanceRevisionRef = true
  deriving DecidableEq

/-- `PluginDesiredSelectionV1.absent`. -/
def DesiredSelection.absent : DesiredSelection := ⟨.absent, none, none, rfl⟩

/-- The checks of `PluginInstallationStateV1`. -/
def stateAccepts (key : InstallationKey) (selection : DesiredSelection)
    (latest : Option InstanceRevisionRef) : Bool :=
  selection.packageRevision.all (fun package => package.pluginId = key.pluginId) &&
    selection.instanceRevisionRef.all (fun selected => selected.pluginId = key.pluginId) &&
    latest.all (fun latest => latest.pluginId = key.pluginId) &&
    (selection.desiredState ≠ .installedEnabled || selection.instanceRevisionRef = latest)

/-- `PluginInstallationStateV1`. -/
structure InstallationState where
  installationKey : InstallationKey
  selection : DesiredSelection
  latestInstanceRevisionRef : Option InstanceRevisionRef
  accepted : stateAccepts installationKey selection latestInstanceRevisionRef = true
  deriving DecidableEq

/-- `PluginInstallationStateV1.initial`. -/
def InstallationState.initial (key : InstallationKey) : InstallationState :=
  ⟨key, .absent, none, rfl⟩

/-- The checks of `PluginDesiredStateMutationV1` that its fields do not make themselves. -/
def mutationAccepts (key : InstallationKey) (state : DesiredState) (package : Option PackageRevisionRef) :
    Bool :=
  package.all (fun package => package.pluginId = key.pluginId) && (state ≠ .absent || package.isNone)

/-- `PluginDesiredStateMutationV1`. -/
structure DesiredStateMutation where
  operationId : Name
  idempotencyKey : Name
  expectedInventoryRevision : Nat
  installationKey : InstallationKey
  desiredState : DesiredState
  packageRevision : Option PackageRevisionRef
  actorId : Name
  policyRevision : Name
  approvalReference : Option Name
  accepted : mutationAccepts installationKey desiredState packageRevision = true
  deriving DecidableEq

/-- `PluginManagementUpdateCommandV2`. -/
structure UpdateCommand where
  operationId : Name
  idempotencyKey : Name
  expectedInventoryRevision : Nat
  installationKey : InstallationKey
  expectedPackageRevision : PackageRevisionRef
  stagedPackageRevision : PackageRevisionRef
  actorId : Name
  policyRevision : Name
  approvalReference : Option Name
  accepted : expectedPackageRevision.pluginId = installationKey.pluginId ∧
    stagedPackageRevision.pluginId = installationKey.pluginId
  deriving DecidableEq

/-- `PluginDesiredStateUpdateMutationV1`. Its migration fence has to repeat the command's
operation id, key and package revisions, and is left out. -/
structure UpdateMutation where
  command : UpdateCommand
  desiredState : DesiredState
  accepted : desiredState ≠ .absent
  deriving DecidableEq

/-- A mutation of either record version. -/
inductive Mutation where
  | desired (mutation : DesiredStateMutation)
  | update (mutation : UpdateMutation)
  deriving DecidableEq

namespace Mutation

def operationId : Mutation → Name
  | .desired mutation => mutation.operationId
  | .update mutation => mutation.command.operationId

def idempotencyKey : Mutation → Name
  | .desired mutation => mutation.idempotencyKey
  | .update mutation => mutation.command.idempotencyKey

def expectedInventoryRevision : Mutation → Nat
  | .desired mutation => mutation.expectedInventoryRevision
  | .update mutation => mutation.command.expectedInventoryRevision

def installationKey : Mutation → InstallationKey
  | .desired mutation => mutation.installationKey
  | .update mutation => mutation.command.installationKey

end Mutation

/-- The checks of `PluginDesiredStateTransitionV1`. -/
def transitionAccepts (inventoryRevision : Nat) (mutation : DesiredStateMutation)
    (previous committed : InstallationState) : Bool :=
  inventoryRevision = mutation.expectedInventoryRevision + 1 &&
    previous.installationKey = mutation.installationKey &&
    committed.installationKey = mutation.installationKey

/-- `PluginDesiredStateTransitionV1`. -/
structure DesiredStateTransition where
  inventoryRevision : Nat
  transitionKind : TransitionKind
  mutation : DesiredStateMutation
  previousState : InstallationState
  committedState : InstallationState
  accepted : transitionAccepts inventoryRevision mutation previousState committedState = true
  deriving DecidableEq

/-- The checks of `PluginDesiredStateUpdateTransitionV2`. -/
def updateTransitionAccepts (inventoryRevision : Nat) (mutation : UpdateMutation)
    (previous committed : InstallationState) : Bool :=
  inventoryRevision = mutation.command.expectedInventoryRevision + 1 &&
    previous.installationKey = mutation.command.installationKey &&
    committed.installationKey = mutation.command.installationKey &&
    previous.selection.desiredState = mutation.desiredState &&
    committed.selection.desiredState = mutation.desiredState &&
    previous.selection.packageRevision = some mutation.command.expectedPackageRevision &&
    committed.selection.packageRevision = some mutation.command.stagedPackageRevision

/-- `PluginDesiredStateUpdateTransitionV2`. -/
structure UpdateTransition where
  inventoryRevision : Nat
  mutation : UpdateMutation
  previousState : InstallationState
  committedState : InstallationState
  accepted : updateTransitionAccepts inventoryRevision mutation previousState committedState = true
  deriving DecidableEq

/-- `PluginDesiredStateJournalTransition`. -/
inductive Transition where
  | desired (transition : DesiredStateTransition)
  | update (transition : UpdateTransition)
  deriving DecidableEq

namespace Transition

def inventoryRevision : Transition → Nat
  | .desired transition => transition.inventoryRevision
  | .update transition => transition.inventoryRevision

def mutation : Transition → Mutation
  | .desired transition => .desired transition.mutation
  | .update transition => .update transition.mutation

def previousState : Transition → InstallationState
  | .desired transition => transition.previousState
  | .update transition => transition.previousState

def committedState : Transition → InstallationState
  | .desired transition => transition.committedState
  | .update transition => transition.committedState

def key (transition : Transition) : InstallationKey := transition.mutation.installationKey

end Transition

end Loushang.Plugins
