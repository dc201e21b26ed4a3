import Loushang.Lib.Dict

/-!
# The registry of the agent tree

`multiagent/types.py` and `multiagent/registry.py`. A path is the list of its names below
`root`, so that every path is canonical. The clock and the timestamps, the lock, the order in which
`records` lists its result and the resolution of message targets are left out.
-/
namespace Loushang.Multiagent
open Loushang.Lib

/-- What a call raises: a `MultiAgentError` with its code, or a `ValueError`. -/
inductive ControlError where
  | rejected (code : String)
  | value
  deriving DecidableEq

def isNameStart (c : Char) : Bool := ('a' ≤ c && c ≤ 'z') || ('0' ≤ c && c ≤ '9')

/-- `_AGENT_NAME`. -/
def isAgentName (text : String) : Bool :=
  match text.toList with
  | [] => false
  | first :: rest => isNameStart first && rest.all fun c => isNameStart c || c = '_' || c = '-'

abbrev AgentName := { text : String // isAgentName text = true }

/-- `require_agent_name`. -/
def requireAgentName (text : String) : Except ControlError AgentName :=
  if named : isAgentName text = true then .ok ⟨text, named⟩ else .error .value

inductive AgentStatus where
  | idle
  | running
  | completed
  | failed
  | interrupted
  | closed
  deriving DecidableEq

inductive TerminalStatus where
  | completed
  | failed
  | interrupted

def TerminalStatus.status : TerminalStatus → AgentStatus
  | .completed => .completed
  | .failed => .failed
  | .interrupted => .interrupted

/-- `AgentPath`, without its first part. -/
structure AgentPath where
  names : List AgentName
  deriving DecidableEq

namespace AgentPath

def root : AgentPath := ⟨[]⟩

def depth (path : AgentPath) : Nat := path.names.length

def parent (path : AgentPath) : Option AgentPath :=
  if path.depth = 0 then none else some ⟨path.names.dropLast⟩

def child (path : AgentPath) (name : AgentName) : AgentPath := ⟨path.names ++ [name]⟩

/-- `is_descendant_of` with `include_self`. -/
def isWithin (path other : AgentPath) : Bool := other.names.isPrefixOf path.names

def text (path : AgentPath) : String := path.names.foldl (fun text name => text ++ "/" ++ name.val) "/root"

@[simp] theorem depth_child (path : AgentPath) (name : AgentName) : (path.child name).depth = path.depth + 1 := by
  simp [depth, child]

@[simp] theorem parent_child (path : AgentPath) (name : AgentName) : (path.child name).parent = some path := by
  simp [parent, depth, child]

end AgentPath

structure AgentRef where
  path : AgentPath
  incarnation : Nat
  positive : 1 ≤ incarnation
  deriving DecidableEq

def AgentRef.text (ref : AgentRef) : String := ref.path.text ++ "@" ++ toString ref.incarnation

inductive ControlCaller where
  | host
  | agent (ref : AgentRef)

/-- `AgentTypeSpec`, as far as the control plane reads it. -/
structure AgentTypeSpec where
  name : AgentName
  canSpawn : Bool
  maximumChildren : Nat
  positive : 1 ≤ maximumChildren

/-- `AgentTypeRegistry`. -/
structure AgentTypeRegistry where
  specs : List AgentTypeSpec
  distinct : (specs.map AgentTypeSpec.name).Nodup

def AgentTypeRegistry.resolve (types : AgentTypeRegistry) (name : String) : Option AgentTypeSpec :=
  types.specs.find? fun spec => spec.name.val = name

structure AgentUsage where
  latestInputTokens : Nat
  cumulativeOutputTokens : Nat
  deriving DecidableEq

structure AgentProgress where
  usage : AgentUsage
  toolUses : Nat
  recentActivity : Option String
  summary : Option String
  deriving DecidableEq

def AgentProgress.initial : AgentProgress := ⟨⟨0, 0⟩, 0, none, none⟩

structure AgentRecord where
  ref : AgentRef
  parentRef : Option AgentRef
  agentType : AgentName
  status : AgentStatus
  roundId : Nat
  progress : AgentProgress
  workspaceRef : Option String
  artifactRefs : List String
  changeSetRef : Option String
  deriving DecidableEq

namespace AgentRecord

def path (record : AgentRecord) : AgentPath := record.ref.path

def isOpen (record : AgentRecord) : Bool := record.status ≠ .closed

/-- A record as `_commit` makes it. -/
def fresh (ref : AgentRef) (parentRef : Option AgentRef) (agentType : AgentName) : AgentRecord :=
  ⟨ref, parentRef, agentType, .idle, 0, .initial, none, [], none⟩

end AgentRecord

structure ControlLimits where
  maxOpenAgents : Nat
  maxSpawnDepth : Nat
  positive : 1 ≤ maxOpenAgents

/-- `AgentReservation`, while it is active. -/
structure AgentReservation where
  token : Nat
  ref : AgentRef
  parentRef : AgentRef
  agentType : AgentName

structure AgentRegistry where
  records : Dict AgentPath AgentRecord
  incarnations : Dict AgentPath Nat
  reservations : Dict AgentPath Nat
  nextToken : Nat

namespace AgentRegistry

def rootRecord : AgentRecord :=
  .fresh ⟨.root, 1, Nat.one_pos⟩ none ⟨"root", by decide⟩

/-- `AgentRegistry.__init__`. -/
def initial : AgentRegistry :=
  ⟨Dict.empty.set .root rootRecord, Dict.empty.set .root 1, Dict.empty, 1⟩

def openCount (registry : AgentRegistry) : Nat := registry.records.values.countP AgentRecord.isOpen

def reservedCount (registry : AgentRegistry) : Nat := registry.reservations.entries.length

/-- `current` with `include_closed=False`. -/
def current (registry : AgentRegistry) (path : AgentPath) : Option AgentRecord :=
  (registry.records.get? path).filter AgentRecord.isOpen

/-- `get` with `include_closed=True`. -/
def get? (registry : AgentRegistry) (ref : AgentRef) : Option AgentRecord :=
  (registry.records.get? ref.path).filter fun record => record.ref = ref

/-- `get` with `include_closed=False`. -/
def getOpen? (registry : AgentRegistry) (ref : AgentRef) : Option AgentRecord :=
  (registry.get? ref).filter AgentRecord.isOpen

/-- `_require_current`. -/
def requireCurrent (registry : AgentRegistry) (ref : AgentRef) : Except ControlError AgentRecord :=
  match registry.get? ref with
  | some record => .ok record
  | none => .error (.rejected "stale_agent_ref")

/-- `records(prefix=...)`, unsorted. -/
def recordsWithin (registry : AgentRegistry) (path : AgentPath) : List AgentRecord :=
  registry.records.values.filter fun record => record.isOpen && record.path.isWithin path

/-- `children`, unsorted. -/
def children (registry : AgentRegistry) (parentRef : AgentRef) : Except ControlError (List AgentRecord) :=
  (registry.requireCurrent parentRef).map fun _ =>
    registry.records.values.filter fun record => record.isOpen && record.parentRef = some parentRef

/-- `subtree`, unsorted. -/
def subtree (registry : AgentRegistry) (ref : AgentRef) : List AgentRecord :=
  match registry.getOpen? ref with
  | none => []
  | some current => registry.recordsWithin current.path

def reserve (registry : AgentRegistry) (parentRef : AgentRef) (name agentType : String) :
    Except ControlError (AgentReservation × AgentRegistry) := do
  let name ← requireAgentName name
  let agentType ← requireAgentName agentType
  let parent ← registry.requireCurrent parentRef
  if !parent.isOpen then .error (.rejected "parent_not_open")
  else
    let path := parentRef.path.child name
    if (registry.reservations.get? path).isSome ∨ (registry.records.get? path).any AgentRecord.isOpen then
      .error (.rejected "agent_name_conflict")
    else
      let incarnation := (registry.incarnations.get? path).getD 0 + 1
      .ok (⟨registry.nextToken, ⟨path, incarnation, Nat.le_add_left 1 _⟩, parentRef, agentType⟩,
        { registry with
          incarnations := registry.incarnations.set path incarnation
          reservations := registry.reservations.set path registry.nextToken
          nextToken := registry.nextToken + 1 })

/-- `_commit`. -/
def commit (registry : AgentRegistry) (reservation : AgentReservation) :
    Except ControlError AgentRecord × AgentRegistry :=
  if registry.reservations.get? reservation.ref.path ≠ some reservation.token then
    (.error (.rejected "reservation_stale"), registry)
  else
    match registry.getOpen? reservation.parentRef with
    | none =>
      (.error (.rejected "parent_not_open"),
        { registry with reservations := registry.reservations.pop reservation.ref.path })
    | some _ =>
      let record := AgentRecord.fresh reservation.ref (some reservation.parentRef) reservation.agentType
      (.ok record,
        { registry with
          records := registry.records.set record.path record
          reservations := registry.reservations.pop record.path })

/-- The keyword arguments of `update`; `workspace` is there when `update_workspace` is set. -/
structure RecordUpdate where
  status : Option AgentStatus := none
  roundId : Option Nat := none
  progress : Option AgentProgress := none
  artifactRefs : Option (List String) := none
  workspace : Option (Option String × Option String) := none

def RecordUpdate.apply (update : RecordUpdate) (current : AgentRecord) : AgentRecord :=
  { current with
    status := update.status.getD current.status
    roundId := update.roundId.getD current.roundId
    progress := update.progress.getD current.progress
    artifactRefs := update.artifactRefs.getD current.artifactRefs
    workspaceRef := (update.workspace.map Prod.fst).getD current.workspaceRef
    changeSetRef := (update.workspace.map Prod.snd).getD current.changeSetRef }

def update (registry : AgentRegistry) (ref : AgentRef) (update : RecordUpdate) :
    Except ControlError (AgentRecord × AgentRegistry) := do
  let current ← registry.requireCurrent ref
  if !current.isOpen then .error (.rejected "agent_not_addressable")
  else
    let updated := update.apply current
    .ok (updated, { registry with records := registry.records.set ref.path updated })

def close (registry : AgentRegistry) (ref : AgentRef) : Except ControlError (AgentRecord × AgentRegistry) := do
  let current ← registry.requireCurrent ref
  if current.status = .closed then .ok (current, registry)
  else
    let closed := { current with status := .closed }
    .ok (closed, { registry with records := registry.records.set ref.path closed })

end AgentRegistry

end Loushang.Multiagent
