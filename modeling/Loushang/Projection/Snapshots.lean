import Loushang.Facts.Model
import Loushang.Schema.Definitions
import Loushang.Lib.Sorting
import Mathlib.Data.String.Basic

/-!
# Projection snapshots

The values of `projection/model.py` and the cuts of `source/model.py`. A value of a
property and the properties of a link stand for their canonical texts; source texts may
lack a UTF-8 encoding, since their constructors ask only that they are not blank.
-/
namespace Loushang.Projection
open Loushang.Lib Loushang.Facts Loushang.Schema

/-- `SourceCoverage`. -/
inductive SourceCoverage where
  | complete
  | incomplete
  | unknown
  deriving DecidableEq

def SourceCoverage.value : SourceCoverage → String
  | .complete => "complete"
  | .incomplete => "partial"
  | .unknown => "unknown"

structure SourceInputCut where
  bindingId : PyStr
  mappingVersion : PyStr
  sourceRevision : PyStr
  payloadDigest : String
  coverage : SourceCoverage
  deriving DecidableEq

structure MaterializationCut where
  schemaIdentity : SchemaIdentity
  sourceInputs : List SourceInputCut
  factWatermark : Nat
  validAt : ℚ
  recordedAt : ℚ
  factRevalidationDigest : Option String
  deriving DecidableEq

structure FactOrigin where
  factId : Uuid
  deriving DecidableEq

structure SourceOrigin where
  bindingId : PyStr
  mappingVersion : PyStr
  sourceRevision : PyStr
  sourceRecordRef : PyStr
  fieldRef : PyStr
  deriving DecidableEq

structure SchemaDefaultOrigin where
  schemaIdentity : SchemaIdentity
  deriving DecidableEq

inductive OperationalOrigin where
  | fact (origin : FactOrigin)
  | source (origin : SourceOrigin)
  deriving DecidableEq

inductive ValueOrigin where
  | operational (origin : OperationalOrigin)
  | schemaDefault (origin : SchemaDefaultOrigin)
  deriving DecidableEq

structure ProjectedProperty where
  name : String
  valueType : ValueType
  value : Json
  validFrom : ℚ
  factId : Option Uuid
  authorRef : Option PyStr
  sourceRef : PyStr
  origin : ValueOrigin
  deriving DecidableEq

structure ProjectedLink where
  sourceId : Uuid
  linkType : String
  targetId : Uuid
  properties : List (String × Json)
  validFrom : ℚ
  factId : Option Uuid
  sourceRef : PyStr
  origin : OperationalOrigin

structure ProjectedObject where
  id : Uuid
  objectType : String
  origin : OperationalOrigin
  properties : List ProjectedProperty
  deriving DecidableEq

structure ProjectionState where
  schemaIdentity : SchemaIdentity
  projectionVersion : Nat
  materializationCut : MaterializationCut
  builtAt : ℚ
  deriving DecidableEq

namespace ProjectionState
variable (state : ProjectionState)

def schemaVersion : PyStr := state.schemaIdentity.version

def factWatermark : Nat := state.materializationCut.factWatermark

def validAt : ℚ := state.materializationCut.validAt

def recordedAt : ℚ := state.materializationCut.recordedAt

end ProjectionState

structure ProjectionSnapshot where
  schema : CompiledOntologySchema
  state : ProjectionState
  factIds : List Uuid
  objects : List ProjectedObject
  links : List ProjectedLink

/-!
## Mapped source inputs

`source/model.py`. What a constructor checks or sorts is a field, so a value of the type
has passed it.
-/

/-- `_non_empty_text` of each. -/
def areTexts (values : List PyStr) : Bool := values.all isText

structure MappedSourceProperty where
  propertyId : PyStr
  fieldRef : PyStr
  validFrom : ℚ
  value : Json
  texts : areTexts [propertyId, fieldRef] = true

structure MappedSourceObject where
  objectId : Uuid
  objectTypeId : PyStr
  sourceRecordRef : PyStr
  identityFieldRef : PyStr
  properties : List MappedSourceProperty
  texts : areTexts [objectTypeId, sourceRecordRef, identityFieldRef] = true
  ascending : (properties.map MappedSourceProperty.propertyId).Pairwise (· < ·)

structure MappedSourceLink where
  sourceId : Uuid
  linkTypeId : PyStr
  targetId : Uuid
  sourceRecordRef : PyStr
  fieldRef : PyStr
  validFrom : ℚ
  properties : List (String × Json)
  texts : areTexts [linkTypeId, sourceRecordRef, fieldRef] = true

/-- The sort key of links: the texts of the ids around the type. -/
def linkKey (sourceId : Uuid) (linkType : PyStr) (targetId : Uuid) : String ×ₗ PyStr ×ₗ String :=
  toLex (Uuid.text sourceId, toLex (linkType, Uuid.text targetId))

structure MappedSourceSnapshot where
  objects : List MappedSourceObject
  links : List MappedSourceLink
  objectsAscending : (objects.map fun item => Uuid.text item.objectId).Pairwise (· < ·)
  linksAscending :
    (links.map fun item => linkKey item.sourceId item.linkTypeId item.targetId).Pairwise (· < ·)

end Loushang.Projection
