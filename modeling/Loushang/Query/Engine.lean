import Loushang.Lib.StableSort
import Loushang.Projection.PropertyFacts

/-!
# Query evaluation

`execute_query` of `query/engine.py` on a snapshot. A filter carries the predicate its
operator and its argument make; the lists and objects of a json property are not compared.
-/
namespace Loushang.Query
open Loushang.Lib Loushang.Facts Loushang.Projection Loushang.Schema

/-- A `datetime`: its local clock and, when aware, its distance from UTC, in microseconds. -/
structure Datetime where
  clock : Int
  utcoffset : Option Int
  deriving DecidableEq

def Datetime.aware (moment : Datetime) : Bool := moment.utcoffset.isSome

/-- What moments that are both aware or both naive are compared by. -/
def Datetime.instant (moment : Datetime) : Int := moment.clock - moment.utcoffset.getD 0

/-- `datetime.fromisoformat`, which takes the texts the constructors take. -/
structure Calendar (lib : Stdlib) where
  fromisoformat : String → Option Datetime
  takes : ∀ text, lib.fromisoformat text = (fromisoformat text).isSome

/-- What a finite float stands for. -/
def floatValue (bits : BitVec 64) : ℚ :=
  let fraction : Nat := bits.toNat % 2 ^ 52
  let exponent : Nat := bits.toNat / 2 ^ 52 % 2 ^ 11
  let scaled : Nat := if exponent = 0 then 2 * fraction else (2 ^ 52 + fraction) * 2 ^ exponent
  let magnitude : ℚ := scaled / 2 ^ 1075
  if bits.toNat / 2 ^ 63 = 1 then -magnitude else magnitude

/-- What `ProjectedObject.get` returns. -/
inductive Value where
  | null
  | bool (value : Bool)
  | int (value : Int)
  | float (bits : BitVec 64)
  | str (value : String)
  | datetime (moment : Datetime)
  | list (items : List Json)
  | dict (entries : List (String × Json))
  deriving DecidableEq

inductive QueryError where
  | assertion
  | value (message : String)
  | type
  | key
  deriving DecidableEq

/-- `json.loads` of the canonical text. -/
def rawValue : Json → Value
  | .null => .null
  | .bool value => .bool value
  | .int value => .int value
  | .float bits => .float bits
  | .str value => .str value
  | .arr items => .list items
  | .obj entries => .dict entries

/-- `type(value).__name__`. -/
def Value.typeName : Value → String
  | .null => "NoneType"
  | .bool _ => "bool"
  | .int _ => "int"
  | .float _ => "float"
  | .str _ => "str"
  | .datetime _ => "datetime"
  | .list _ => "list"
  | .dict _ => "dict"

/-- `left < right`. -/
def Value.less : Value → Value → Except QueryError Bool
  | .bool a, .bool b => .ok (!a && b)
  | .int a, .int b => .ok (a < b)
  | .float a, .float b => .ok (floatValue a < floatValue b)
  | .str a, .str b => .ok (a < b)
  | .datetime a, .datetime b => if a.aware = b.aware then .ok (a.instant < b.instant) else .error .type
  | _, _ => .error .type

abbrev SortKey := Bool × String × Value

/-- `_sort_key`. -/
def sortKey (value : Value) : SortKey :=
  (value = .null, value.typeName, if value = .null then .str "" else value)

/-- `left < right` of two keys: tuples are compared at the first place where they differ. -/
def SortKey.less (a b : SortKey) : Except QueryError Bool :=
  if a.1 ≠ b.1 then .ok (!a.1 && b.1)
  else if a.2.1 ≠ b.2.1 then .ok (a.2.1 < b.2.1)
  else a.2.2.less b.2.2

section
variable {lib : Stdlib} (calendar : Calendar lib)

/-- `ProjectedProperty.value`. -/
def propertyValue (prop : ProjectedProperty) : Except QueryError Value :=
  match prop.valueType, rawValue prop.value with
  | .datetime, .str text =>
    match calendar.fromisoformat text with
    | some moment => .ok (.datetime moment)
    | none => .error (.value "Invalid isoformat string")
  | .datetime, _ => .error .assertion
  | _, value => .ok value

/-- `ProjectedObject.property`. -/
def property (object : ProjectedObject) (name : String) : Option ProjectedProperty :=
  object.properties.find? fun item => item.name = name

/-- `ProjectedObject.get`. -/
def get (object : ProjectedObject) (name : String) : Except QueryError Value :=
  match property object name with
  | none => .ok .null
  | some prop => propertyValue calendar prop

inductive QueryStep where
  | startFromIds (objectIds : List Uuid)
  | startFromType (objectType : String)
  | startAll
  | traverse (linkType : String) (outgoing : Bool)
  /-- The predicate is missing for an operator that there is not. -/
  | propertyFilter (propertyName operator : String) (predicate : Option (Value → Except QueryError Bool))
  | objectTypeFilter (objectType : String)
  | limit (count : Nat)
  | offset (count : Nat)
  | sortBy (propertyName : String) (ascending : Bool)

structure QueryRequest where
  steps : List QueryStep
  schemaIdentity : Option SchemaIdentity

structure QueryDiagnostic where
  code : String
  message : PyStr

structure QueryResult where
  objectIds : List Uuid
  schemaIdentity : SchemaIdentity
  projection : ProjectionState
  diagnostics : List QueryDiagnostic

section
variable (snapshot : ProjectionSnapshot)

/-- `ProjectionSnapshot.get`. -/
def getObject (objectId : Uuid) : Option ProjectedObject :=
  snapshot.objects.find? fun item => item.id = objectId

/-- `ProjectionSnapshot.find_neighbors`. -/
def findNeighbors (objectId : Uuid) (linkType : String) (outgoing : Bool) :
    Except QueryError (List ProjectedObject) :=
  let neighborIds := snapshot.links.filterMap fun link =>
    if outgoing then
      if link.sourceId = objectId ∧ link.linkType = linkType then some link.targetId else none
    else if link.targetId = objectId ∧ link.linkType = linkType then some link.sourceId else none
  neighborIds.mapM fun id => (getObject snapshot id).elim (.error .key) .ok

/-- The inner loop of `_traverse` over the neighbors of one object. -/
def addNeighbors (result neighbors : List ProjectedObject) : List ProjectedObject :=
  neighbors.foldl (fun result neighbor =>
    if neighbor.id ∈ result.map ProjectedObject.id then result else result ++ [neighbor]) result

/-- `_traverse`; the seen ids are those of the result. -/
def traverse (objects : List ProjectedObject) (linkType : String) (outgoing : Bool) :
    Except QueryError (List ProjectedObject) :=
  objects.foldlM (fun result object =>
    addNeighbors result <$> findNeighbors snapshot object.id linkType outgoing) []

/-- `_filter_by_property`. -/
def filterByProperty (objects : List ProjectedObject) (name operator : String)
    (predicate : Option (Value → Except QueryError Bool)) : Except QueryError (List ProjectedObject) :=
  match predicate with
  | none => .error (.value s!"Unsupported operator: {operator}")
  | some holds => objects.foldlM (fun kept object => do
      if ← holds (← get calendar object name) then return kept ++ [object] else return kept) []

/-- `result.sort(key=..., reverse=not step.ascending)`: the keys are computed first. -/
def sortBy (objects : List ProjectedObject) (name : String) (ascending : Bool) :
    Except QueryError (List ProjectedObject) := do
  let keyed ← objects.mapM fun object => do return (sortKey (← get calendar object name), object)
  let sorted ← sortWith (fun a b => a.1.less b.1) (!ascending) keyed
  return sorted.map Prod.snd

/-- The loop body of `execute_query`. -/
def runStep (result : List ProjectedObject) : QueryStep → Except QueryError (List ProjectedObject)
  | .startFromIds objectIds => .ok (objectIds.filterMap (getObject snapshot))
  | .startFromType objectType => .ok (snapshot.objects.filter fun item => item.objectType = objectType)
  | .startAll => .ok snapshot.objects
  | .traverse linkType outgoing => traverse snapshot result linkType outgoing
  | .propertyFilter propertyName operator predicate =>
    filterByProperty calendar result propertyName operator predicate
  | .objectTypeFilter objectType => .ok (result.filter fun item => item.objectType = objectType)
  | .limit count => .ok (result.take count)
  | .offset count => .ok (result.drop count)
  | .sortBy propertyName ascending => sortBy calendar result propertyName ascending

/-- The loop of `execute_query`. -/
def runSteps (steps : List QueryStep) : Except QueryError (List ProjectedObject) :=
  steps.foldlM (runStep calendar snapshot) []

/-- `execute_query` on the snapshot that the store reads. -/
def executeQuery (request : QueryRequest) : Except QueryError QueryResult :=
  match request.schemaIdentity.filter fun identity => identity ≠ snapshot.state.schemaIdentity with
  | some identity => .ok ⟨[], snapshot.state.schemaIdentity, snapshot.state,
      [⟨"schema_identity_mismatch", .concat ["Query requires schema ", lib.identityText identity,
        "; store provides ", lib.identityText snapshot.state.schemaIdentity]⟩]⟩
  | none => do
    let result ← runSteps calendar snapshot request.steps
    return ⟨result.map ProjectedObject.id, snapshot.state.schemaIdentity, snapshot.state, []⟩

end

end

end Loushang.Query
