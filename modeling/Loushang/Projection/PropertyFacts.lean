import Loushang.Projection.Properties
import Loushang.Projection.Snapshots
import Loushang.Lib.Folds
import Mathlib.Data.List.MinMax

/-!
# Property facts of a materialization

`_resolve_property_facts` of `projection/materializer.py` with the checks of the constructors it calls, in their
order. What the standard library makes of a value is the `Stdlib`; an integer past the floats makes `float` raise
an `OverflowError`, and only a `ValueError` of a value check becomes a diagnostic. A property fact is grouped with
its value.
-/
namespace Loushang.Projection
open Loushang.Lib Loushang.Facts Loushang.Schema

/-- What is raised besides `ProjectionMaterializationError`. -/
inductive Raised where
  | value (message : PyStr)
  | overflow
  | jsonValue
  | key
  deriving DecidableEq

/-- A lowercase SHA-256 digest. -/
def isDigest (text : String) : Bool :=
  text.length = 64 && text.toList.all fun c => c ∈ "0123456789abcdef".toList

structure Stdlib where
  /-- `datetime.fromisoformat` takes the text. -/
  fromisoformat : String → Bool
  /-- A schema identity in an f-string. -/
  identityText : SchemaIdentity → PyStr
  /-- A float in an f-string. -/
  numberText : ℚ → PyStr
  /-- `hashlib.sha256(...).hexdigest()` of the digest document. -/
  contentDigest : MappedSourceSnapshot → { digest : String // isDigest digest = true }

section

variable (lib : Stdlib)

/-- The least magnitude that rounds past the largest float. -/
def floatLimit : Nat := 2 ^ 1024 - 2 ^ 970

def isFiniteFloat (bits : BitVec 64) : Bool := bits.toNat / 2 ^ 52 % 2 ^ 11 ≠ 0x7ff

/-- The checks `_validate_value_type` and `_validate_property_value` share. -/
def fits : ValueType → Json → Except Raised Bool
  | .string, .str _ => .ok true
  | .integer, .int _ => .ok true
  | .number, .int value => if floatLimit ≤ value.natAbs then .error .overflow else .ok true
  | .number, .float bits => .ok (isFiniteFloat bits)
  | .boolean, .bool _ => .ok true
  | .datetime, .str text => .ok (lib.fromisoformat text)
  | .json, _ => .ok true
  | _, _ => .ok false

/-- The `raise ValueError` of a check. -/
def require (condition : Bool) (message : PyStr) : Except Raised Unit :=
  if condition then .ok () else .error (.value message)

def nonEmptyText (name : String) (value : PyStr) : Except Raised Unit :=
  require (isText value) (.concat [name, " must be a non-empty string"])

/-- `_validate_value_type`. -/
def validateValueType (name : String) (valueType : ValueType) (value : Json) : Except Raised Unit := do
  let valid ← fits lib valueType value
  require valid (.concat ["projected property '", name, "' is not a ", valueType.value])

def createProjectedProperty (name : String) (valueType : ValueType) (value : Json) (validFrom : ℚ)
    (sourceRef : PyStr) (origin : ValueOrigin) (factId : Option Uuid) (authorRef : Option PyStr) :
    Except Raised ProjectedProperty := do
  nonEmptyText "name" name
  validateValueType lib name valueType value
  match origin with
  | .operational (.fact fact) =>
    require (factId = some fact.factId) "FactOrigin must match projected property fact_id"
  | _ => require factId.isNone "only FactOrigin may carry a projected property fact_id"
  match authorRef with
  | some text => nonEmptyText "author_ref" text
  | none => pure ()
  nonEmptyText "source_ref" sourceRef
  return ⟨name, valueType, value, validFrom, factId, authorRef, sourceRef, origin⟩

/-! ## Lookups -/

structure ProjectionDiagnostic where
  code : String
  path : PyStr
  message : PyStr

/-- `{definition.semantic_id: (name, definition)}` over the resolved properties of a type. -/
def declarationsById (schema : CompiledOntologySchema) (typeName : String) :
    Dict (Option String) (String × CompiledPropertyDefinition) :=
  Dict.empty.update ((resolvedProperties schema typeName).entries.map fun (name, _, definition) =>
    (definition.semanticId, name, definition))

def declarationOfText (schema : CompiledOntologySchema) (typeName : String) (semanticId : PyStr) :
    Option (String × CompiledPropertyDefinition) :=
  semanticId.toString?.bind fun id => (declarationsById schema typeName).get? (some id)

/-- `_authority_label`. -/
def authorityLabel : Option StateAuthority → String
  | none => "undeclared"
  | some authority => authority.value

/-- `_validate_property_value`. -/
def validatePropertyValue (definition : CompiledPropertyDefinition) (value : Json) :
    Except Raised Unit := do
  let valid ← fits lib definition.valueType value
  require valid (.concat ["property '", definition.name, "' requires a ", definition.valueType.value, " value"])

/-- `try: ... except ValueError as exc`: the text of the exception when there is one. -/
def caught : Except Raised Unit → Except Raised (Option PyStr)
  | .ok () => .ok none
  | .error (.value message) => .ok (some message)
  | .error error => .error error

/-- The values of a projection, with what has been reported. -/
structure PropertyState where
  resolved : Dict Uuid (Dict String ProjectedProperty)
  diagnostics : List ProjectionDiagnostic

def PropertyState.report (state : PropertyState) (code : String) (path : PyStr) (message : List PyStr) :
    PropertyState :=
  { state with diagnostics := state.diagnostics ++ [⟨code, path, .concat message⟩] }

/-- `resolved.setdefault(object_id, {})`. -/
def PropertyState.values (state : PropertyState) (objectId : Uuid) : Dict String ProjectedProperty :=
  (state.resolved.get? objectId).getD .empty

def PropertyState.put (state : PropertyState) (objectId : Uuid) (prop : ProjectedProperty) :
    PropertyState :=
  { state with resolved := state.resolved.set objectId ((state.values objectId).set prop.name prop) }

/-! ## Facts -/

variable (schema : CompiledOntologySchema)

/-- `min(values, key=lambda item: item.sequence)`. -/
def earliest (values : List StoredFact) : Except Raised StoredFact :=
  match values.argmin StoredFact.sequence with
  | some selected => .ok selected
  | none => .error (.value "min() iterable argument is empty")

def factPropertyPath (subjectId : Uuid) (property : PyStr) : PyStr :=
  .concat ["objects.", Uuid.text subjectId, ".properties.", property]

/-- The body of the loop of `_resolve_property_facts`. -/
def resolvePropertyFact (resolvedTypes : Dict Uuid String) (state : PropertyState)
    (candidate : (Uuid × PyStr) × List (StoredFact × Json)) : Except Raised PropertyState :=
  let subjectId := candidate.1.1
  let propertyId := candidate.1.2
  let path := factPropertyPath subjectId propertyId
  match resolvedTypes.get? subjectId with
  | none => .ok (state.report "property_subject_missing" path
      ["property fact '", propertyId, "' has no projected object subject ", Uuid.text subjectId])
  | some subjectType =>
    match declarationOfText schema subjectType propertyId with
    | none => .ok (state.report "unknown_property" path
        ["property semantic ID '", propertyId, "' is not declared for object type '", subjectType, "'"])
    | some (propertyName, definition) =>
      if definition.stateAuthority ≠ some .ontologyOwned then
        .ok (state.report "property_fact_authority_mismatch" path
          ["property '", subjectType, ".", propertyName, "' is ", authorityLabel definition.stateAuthority,
            ", not ontology-owned"])
      else
        match (candidate.2.map Prod.snd).dedup with
        | [value] => do
          match ← caught (validatePropertyValue lib definition value) with
          | some message => return state.report "property_fact_value_invalid" path [message]
          | none =>
            let selected ← earliest (candidate.2.map Prod.fst)
            let prop ← createProjectedProperty lib propertyName definition.valueType value
              selected.fact.validFrom selected.fact.sourceRef (.operational (.fact ⟨selected.fact.factId⟩))
              (some selected.fact.factId) selected.fact.authorRef
            return state.put subjectId prop
        | _ => .ok (state.report "property_fact_conflict" path
            ["conflicting property facts for ", Uuid.text subjectId, ".", propertyId])

/-- `_resolve_property_facts`. -/
def resolvePropertyFacts (candidates : Dict (Uuid × PyStr) (List (StoredFact × Json)))
    (resolvedTypes : Dict Uuid String) (initial : PropertyState) : Except Raised PropertyState :=
  (sortedOn (fun candidate => toLex (Uuid.text candidate.1.1, candidate.1.2)) candidates.entries).foldlM
    (resolvePropertyFact lib schema resolvedTypes) initial

end

end Loushang.Projection
