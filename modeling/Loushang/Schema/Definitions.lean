import Loushang.Lib.Dict
import Loushang.Lib.Json
import Loushang.Lib.Text

/-!
# Schema drafts and compiled schemas

`schema/definitions.py`, `schema/diagnostics.py` and the definitions of
`schema/compiler.py`. A default of a compiled property stands for its canonical text.
-/
namespace Loushang.Schema
open Loushang.Lib

inductive ValueType where
  | string
  | integer
  | number
  | boolean
  | datetime
  | json
  deriving DecidableEq

def ValueType.value : ValueType → String
  | .string => "string"
  | .integer => "integer"
  | .number => "number"
  | .boolean => "boolean"
  | .datetime => "datetime"
  | .json => "json"

inductive LinkCardinality where
  | oneToOne
  | oneToMany
  | manyToOne
  | manyToMany
  deriving DecidableEq

def LinkCardinality.value : LinkCardinality → String
  | .oneToOne => "one_to_one"
  | .oneToMany => "one_to_many"
  | .manyToOne => "many_to_one"
  | .manyToMany => "many_to_many"

inductive StateAuthority where
  | sourceBacked
  | ontologyOwned
  | derived
  deriving DecidableEq

def StateAuthority.value : StateAuthority → String
  | .sourceBacked => "source-backed"
  | .ontologyOwned => "ontology-owned"
  | .derived => "derived"

/-- A field annotated `E | object`: a member of the enumeration, a text, or any other
value, given by what `_value_label` prints. -/
inductive Draft (E : Type) where
  | member (value : E)
  | text (value : String)
  | other (label : String)

/-- A default that `require_json_value` accepts, or what it raises at a path. -/
inductive DraftDefault where
  | json (value : Json)
  | invalid (message : String → String)

structure PropertyDefinition where
  name : String
  valueType : Draft ValueType
  semanticId : Option String
  stateAuthority : Option (Draft StateAuthority)
  required : Bool
  unique : Bool
  indexed : Bool
  default : DraftDefault
  description : PyStr

structure InterfaceTypeDefinition where
  name : String
  properties : List PropertyDefinition
  description : PyStr

structure ObjectTypeDefinition where
  name : String
  semanticId : Option String
  stateAuthority : Option (Draft StateAuthority)
  properties : List PropertyDefinition
  parentTypes : List String
  abstract : Bool
  icon : Option PyStr
  description : PyStr
  displayNameProperty : Option PyStr
  interfaces : List String

structure LinkTypeDefinition where
  name : String
  sourceType : String
  targetType : String
  semanticId : Option String
  stateAuthority : Option (Draft StateAuthority)
  cardinality : Draft LinkCardinality
  required : Bool
  inverseName : Option PyStr
  temporal : Bool
  description : PyStr

structure ActionParameterDefinition where
  name : String
  valueType : Draft ValueType
  description : PyStr

structure SetPropertyEffectDefinition where
  propertyId : String
  valueParameter : String

/-- `none` is a parameter or an effect of another class. -/
structure ActionDefinition where
  name : String
  targetObjectTypeId : String
  parameters : List (Option ActionParameterDefinition)
  effect : Option SetPropertyEffectDefinition
  policyRequirementRef : PyStr
  semanticId : Option String
  description : PyStr

structure OntologyPackageDraft where
  packageId : String
  ns : PyStr
  version : String
  objectTypes : List ObjectTypeDefinition
  linkTypes : List LinkTypeDefinition
  interfaceTypes : List InterfaceTypeDefinition
  actions : List ActionDefinition

structure SchemaDiagnostic where
  code : String
  path : String
  message : String

structure CompiledPropertyDefinition where
  name : String
  semanticId : Option String
  stateAuthority : Option StateAuthority
  valueType : ValueType
  required : Bool
  unique : Bool
  indexed : Bool
  description : PyStr
  default : Json
  deriving DecidableEq

structure CompiledObjectTypeDefinition where
  name : String
  semanticId : String
  stateAuthority : StateAuthority
  properties : List CompiledPropertyDefinition
  parentTypes : List String
  interfaces : List String
  abstract : Bool
  icon : Option PyStr
  description : PyStr
  displayNameProperty : Option PyStr
  deriving DecidableEq

def CompiledObjectTypeDefinition.property (object : CompiledObjectTypeDefinition) (name : String) :
    Option CompiledPropertyDefinition :=
  object.properties.find? fun item => item.name = name

def CompiledObjectTypeDefinition.propertyById (object : CompiledObjectTypeDefinition)
    (semanticId : String) : Option CompiledPropertyDefinition :=
  object.properties.find? fun item => item.semanticId = some semanticId

structure CompiledLinkTypeDefinition where
  name : String
  semanticId : String
  stateAuthority : StateAuthority
  sourceType : String
  targetType : String
  cardinality : LinkCardinality
  required : Bool
  inverseName : Option PyStr
  temporal : Bool
  description : PyStr
  deriving DecidableEq

structure CompiledInterfaceTypeDefinition where
  name : String
  properties : List CompiledPropertyDefinition
  description : PyStr
  deriving DecidableEq

structure CompiledActionParameterDefinition where
  name : String
  valueType : ValueType
  description : PyStr
  deriving DecidableEq

structure CompiledSetPropertyEffectDefinition where
  propertyId : String
  valueParameter : String
  deriving DecidableEq

structure CompiledActionDefinition where
  name : String
  semanticId : String
  targetObjectTypeId : String
  parameters : List CompiledActionParameterDefinition
  effect : CompiledSetPropertyEffectDefinition
  policyRequirementRef : PyStr
  description : PyStr
  deriving DecidableEq

def CompiledActionDefinition.parameter (action : CompiledActionDefinition) (name : String) :
    Option CompiledActionParameterDefinition :=
  action.parameters.find? fun item => item.name = name

structure CompiledOntologySchema where
  packageId : String
  ns : PyStr
  version : String
  objectTypes : List CompiledObjectTypeDefinition
  linkTypes : List CompiledLinkTypeDefinition
  interfaceTypes : List CompiledInterfaceTypeDefinition
  actions : List CompiledActionDefinition
  deriving DecidableEq

namespace CompiledOntologySchema
variable (schema : CompiledOntologySchema)

def objectType (name : String) : Option CompiledObjectTypeDefinition :=
  schema.objectTypes.find? fun item => item.name = name

def objectTypeById (semanticId : String) : Option CompiledObjectTypeDefinition :=
  schema.objectTypes.find? fun item => item.semanticId = semanticId

def interfaceType (name : String) : Option CompiledInterfaceTypeDefinition :=
  schema.interfaceTypes.find? fun item => item.name = name

def linkType (name : String) : Option CompiledLinkTypeDefinition :=
  schema.linkTypes.find? fun item => item.name = name

def linkTypeById (semanticId : String) : Option CompiledLinkTypeDefinition :=
  schema.linkTypes.find? fun item => item.semanticId = semanticId

def actionById (semanticId : String) : Option CompiledActionDefinition :=
  schema.actions.find? fun item => item.semanticId = semanticId

end CompiledOntologySchema

end Loushang.Schema
