import Loushang.Schema.Definitions
import Mathlib.Data.Finset.Dedup
import Mathlib.Data.List.Sort

/-!
# The schema compiler

`OntologyCompiler` of `schema/compiler.py`. Diagnostics are returned in the order in
which the source appends them; `semantic_ids` is passed along. Python's recursion limit
is not modelled: only a recursion that never ends is a `RecursionError`.
-/
namespace Loushang.Schema
open Loushang.Lib

/-- `_IDENTIFIER.fullmatch`. -/
def isIdentifier (value : String) : Bool :=
  match value.toList with
  | [] => false
  | first :: rest =>
    first.isAlpha && rest.all fun c => c.isAlphanum || c == '_' || c == '.' || c == '-'

def versionSuffix : List Char → Bool
  | [] => true
  | c :: rest =>
    (c == '-' || c == '+') && !rest.isEmpty &&
      rest.all fun c => c.isAlphanum || c == '.' || c == '-'

/-- At most `count` more numeric components, and the suffix. -/
def versionTail : Nat → List Char → Bool
  | count + 1, '.' :: rest =>
    !(rest.takeWhile Char.isDigit).isEmpty && versionTail count (rest.dropWhile Char.isDigit)
  | _, text => versionSuffix text

/-- `_VERSION.fullmatch`. -/
def isVersion (value : String) : Bool :=
  !(value.toList.takeWhile Char.isDigit).isEmpty &&
    versionTail 2 (value.toList.dropWhile Char.isDigit)

/-- `_normalize_value_type`, `_normalize_state_authority` and `_normalize_cardinality`; what
is no member is returned as `_value_label` prints it. -/
def normalize {E : Type} (members : List E) (value : E → String) : Draft E → Except String E
  | .member known => .ok known
  | .text text =>
    match members.find? fun known => value known = text with
    | some known => .ok known
    | none => .error text
  | .other label => .error label

def normalizeValueType : Draft ValueType → Except String ValueType :=
  normalize [.string, .integer, .number, .boolean, .datetime, .json] ValueType.value

def normalizeStateAuthority : Draft StateAuthority → Except String StateAuthority :=
  normalize [.sourceBacked, .ontologyOwned, .derived] StateAuthority.value

def normalizeCardinality : Draft LinkCardinality → Except String LinkCardinality :=
  normalize [.oneToOne, .oneToMany, .manyToOne, .manyToMany] LinkCardinality.value

def validateIdentifier (value path : String) : List SchemaDiagnostic :=
  if isIdentifier value then []
  else [⟨"invalid_identifier", path,
    "identifier must start with a letter and contain only letters, digits, '.', '_' or '-'"⟩]

/-- `semantic_ids`: the path of every registered id. -/
abbrev SemanticIds := Dict String String

def registerSemanticId (value : Option String) (path : String) (semanticIds : SemanticIds) :
    String × SemanticIds × List SchemaDiagnostic :=
  match value.filter isIdentifier with
  | none => ("", semanticIds, [⟨"invalid_semantic_id", path,
      "semantic_id must be an explicit package-local identifier"⟩])
  | some value =>
    match semanticIds.get? value with
    | some previousPath => (value, semanticIds, [⟨"duplicate_semantic_id", path,
        s!"semantic_id '{value}' is already declared at {previousPath}"⟩])
    | none => (value, semanticIds.set value path, [])

def compileStateAuthority (value : Option (Draft StateAuthority)) (path : String) :
    StateAuthority × List SchemaDiagnostic :=
  match value.map normalizeStateAuthority with
  | some (.ok authority) => (authority, [])
  | _ => (.ontologyOwned, [⟨"invalid_state_authority", path,
      "state_authority must be 'source-backed', 'ontology-owned', or 'derived'"⟩])

/-- A diagnostic for a name that has been declared before. -/
def reportDuplicate (code what path name : String) (names : List String) : List SchemaDiagnostic :=
  if name ∈ names then [⟨code, path, s!"{what} '{name}' is declared more than once"⟩] else []

/-- The identity of a property: registered for an object type, refused for an interface. -/
def compilePropertyIdentity (prop : PropertyDefinition) (path : String) :
    Option SemanticIds →
      (Option String × Option StateAuthority) × Option SemanticIds × List SchemaDiagnostic
  | none =>
    ((none, none), none,
      (if prop.semanticId.isSome then
        [⟨"interface_property_semantic_id_unsupported", s!"{path}.semantic_id",
          "interface property identity is not part of schema v4"⟩] else []) ++
      if prop.stateAuthority.isSome then
        [⟨"interface_property_state_authority_unsupported", s!"{path}.state_authority",
          "interface property authority is not part of schema v4"⟩] else [])
  | some semanticIds =>
    let (semanticId, semanticIds, idErrors) :=
      registerSemanticId prop.semanticId s!"{path}.semantic_id" semanticIds
    let (authority, authorityErrors) :=
      compileStateAuthority prop.stateAuthority s!"{path}.state_authority"
    ((some semanticId, some authority), some semanticIds, idErrors ++ authorityErrors)

/-- The value type and the default of a property, and the property when both are valid. -/
def compilePropertyValue (prop : PropertyDefinition) (path : String)
    (identity : Option String × Option StateAuthority) :
    List CompiledPropertyDefinition × List SchemaDiagnostic :=
  match normalizeValueType prop.valueType, prop.default with
  | .ok valueType, .json default =>
    ([⟨prop.name, identity.1, identity.2, valueType, prop.required, prop.unique, prop.indexed,
      prop.description, default⟩], [])
  | valueType, default =>
    ([],
      (match valueType with
        | .ok _ => []
        | .error label => [⟨"unsupported_value_type", s!"{path}.value_type",
            s!"unsupported value type '{label}'"⟩]) ++
      match default with
        | .json _ => []
        | .invalid message => [⟨"invalid_default", s!"{path}.default", message s!"{path}.default"⟩])

/-- One property of `_compile_property_definitions`, after those called `names`. -/
def compileProperty (path : String) (names : List String) (semanticIds : Option SemanticIds)
    (prop : PropertyDefinition) :
    List CompiledPropertyDefinition × Option SemanticIds × List SchemaDiagnostic :=
  let identity := compilePropertyIdentity prop path semanticIds
  let compiled := compilePropertyValue prop path identity.1
  (compiled.1, identity.2.1,
    validateIdentifier prop.name s!"{path}.name" ++ identity.2.2 ++
      reportDuplicate "duplicate_property" "property" s!"{path}.name" prop.name names ++ compiled.2)

def compileProperties (path : String) :
    Nat → List String → Option SemanticIds → List PropertyDefinition →
      List CompiledPropertyDefinition × Option SemanticIds × List SchemaDiagnostic
  | _, _, semanticIds, [] => ([], semanticIds, [])
  | index, names, semanticIds, prop :: rest =>
    let here := compileProperty s!"{path}.properties[{index}]" names semanticIds prop
    let others := compileProperties path (index + 1) (prop.name :: names) here.2.1 rest
    (here.1 ++ others.1, others.2.1, here.2.2 ++ others.2.2)

/-- `sorted(items, key=...)`. -/
def sortBy {α : Type} (key : α → String) (items : List α) : List α :=
  items.insertionSort fun a b => key a ≤ key b

def compilePropertyDefinitions (properties : List PropertyDefinition) (path : String)
    (semanticIds : Option SemanticIds) :
    List CompiledPropertyDefinition × Option SemanticIds × List SchemaDiagnostic :=
  let compiled := compileProperties path 0 [] semanticIds properties
  (sortBy (fun item => item.semanticId.getD item.name) compiled.1, compiled.2)

def compileInterface (path : String) (names : List String) (interface : InterfaceTypeDefinition) :
    CompiledInterfaceTypeDefinition × List SchemaDiagnostic :=
  let properties := compilePropertyDefinitions interface.properties path none
  (⟨interface.name, properties.1, interface.description⟩,
    validateIdentifier interface.name s!"{path}.name" ++
      reportDuplicate "duplicate_interface_type" "interface type" s!"{path}.name"
        interface.name names ++ properties.2.2)

def compileInterfaces : Nat → List String → List InterfaceTypeDefinition →
    List CompiledInterfaceTypeDefinition × List SchemaDiagnostic
  | _, _, [] => ([], [])
  | index, names, interface :: rest =>
    let here := compileInterface s!"$.interface_types[{index}]" names interface
    let others := compileInterfaces (index + 1) (interface.name :: names) rest
    (here.1 :: others.1, here.2 ++ others.2)

def compileObject (path : String) (names : List String) (semanticIds : SemanticIds)
    (objectType : ObjectTypeDefinition) :
    CompiledObjectTypeDefinition × SemanticIds × List SchemaDiagnostic :=
  let identity := registerSemanticId objectType.semanticId s!"{path}.semantic_id" semanticIds
  let authority := compileStateAuthority objectType.stateAuthority s!"{path}.state_authority"
  let properties := compilePropertyDefinitions objectType.properties path (some identity.2.1)
  (⟨objectType.name, identity.1, authority.1, properties.1, objectType.parentTypes,
      sortBy id objectType.interfaces, objectType.abstract, objectType.icon,
      objectType.description, objectType.displayNameProperty⟩,
    properties.2.1.getD identity.2.1,
    validateIdentifier objectType.name s!"{path}.name" ++ identity.2.2 ++ authority.2 ++
      reportDuplicate "duplicate_object_type" "object type" s!"{path}.name"
        objectType.name names ++ properties.2.2)

def compileObjects : Nat → List String → SemanticIds → List ObjectTypeDefinition →
    List CompiledObjectTypeDefinition × SemanticIds × List SchemaDiagnostic
  | _, _, semanticIds, [] => ([], semanticIds, [])
  | index, names, semanticIds, objectType :: rest =>
    let here := compileObject s!"$.object_types[{index}]" names semanticIds objectType
    let others := compileObjects (index + 1) (objectType.name :: names) here.2.1 rest
    (here.1 :: others.1, others.2.1, here.2.2 ++ others.2.2)

def validateParents (objectTypes : List ObjectTypeDefinition) : List SchemaDiagnostic :=
  objectTypes.zipIdx.flatMap fun (objectType, objectIndex) =>
    objectType.parentTypes.zipIdx.flatMap fun (parentName, parentIndex) =>
      if parentName ∈ objectTypes.map ObjectTypeDefinition.name then []
      else [⟨"unknown_parent_type",
        s!"$.object_types[{objectIndex}].parent_types[{parentIndex}]",
        s!"parent object type '{parentName}' is not declared"⟩]

/-- The search of `_validate_parent_cycles`: `state` is 1 on the stack and 2 behind it. -/
structure CycleSearch where
  state : Dict String Nat
  stack : List String
  reportedCycles : List (Finset String)
  diagnostics : List SchemaDiagnostic

def CycleSearch.enter (search : CycleSearch) (name : String) : CycleSearch :=
  { search with state := search.state.set name 1, stack := search.stack ++ [name] }

def CycleSearch.leave (search : CycleSearch) (name : String) : CycleSearch :=
  { search with state := search.state.set name 2, stack := search.stack.dropLast }

def CycleSearch.report (search : CycleSearch) (objectIndex parentIndex : Nat) (parentName : String) :
    CycleSearch :=
  let cycle := search.stack.dropWhile (· ≠ parentName) ++ [parentName]
  if cycle.toFinset ∈ search.reportedCycles then search
  else { search with
    reportedCycles := cycle.toFinset :: search.reportedCycles
    diagnostics := search.diagnostics ++ [⟨"parent_type_cycle",
      s!"$.object_types[{objectIndex}].parent_types[{parentIndex}]",
      "parent type cycle detected: " ++ String.intercalate " -> " cycle⟩] }

/-- The loop body of `visit` for one parent of the type at `objectIndex`. -/
def CycleSearch.consider (byName : Dict String (ObjectTypeDefinition × Nat))
    (visit : CycleSearch → String → CycleSearch) (objectIndex : Nat) (search : CycleSearch)
    (parent : String × Nat) : CycleSearch :=
  if parent.1 ∉ byName.keys then search
  else if (search.state.get? parent.1).getD 0 = 0 then visit search parent.1
  else if search.state.get? parent.1 = some 1 then search.report objectIndex parent.2 parent.1
  else search

/-- `visit`; `byName` has the last declaration of each name with its index. -/
def visitParents (byName : Dict String (ObjectTypeDefinition × Nat)) :
    Nat → CycleSearch → String → CycleSearch
  | 0, search, _ => search
  | depth + 1, search, name =>
    match byName.get? name with
    | none => search
    | some (objectType, objectIndex) =>
      let above := objectType.parentTypes.zipIdx.foldl
        (CycleSearch.consider byName (visitParents byName depth) objectIndex) (search.enter name)
      above.leave name

def declarations (objectTypes : List ObjectTypeDefinition) :
    Dict String (ObjectTypeDefinition × Nat) :=
  Dict.empty.update (objectTypes.zipIdx.map fun (objectType, index) =>
    (objectType.name, objectType, index))

def searchRoot (byName : Dict String (ObjectTypeDefinition × Nat)) (search : CycleSearch)
    (objectType : ObjectTypeDefinition) : CycleSearch :=
  if (search.state.get? objectType.name).getD 0 = 0 then
    visitParents byName byName.keys.length search objectType.name
  else search

def validateParentCycles (objectTypes : List ObjectTypeDefinition) : List SchemaDiagnostic :=
  (objectTypes.foldl (searchRoot (declarations objectTypes)) ⟨.empty, [], [], []⟩).diagnostics

/-- `{item.name: item for item in compiled_objects}`. -/
def objectsByName (compiled : List CompiledObjectTypeDefinition) :
    Dict String CompiledObjectTypeDefinition :=
  Dict.empty.update (compiled.map fun item => (item.name, item))

/-- `{item.semantic_id: item for item in compiled_objects}`. -/
def objectsById (compiled : List CompiledObjectTypeDefinition) :
    Dict String CompiledObjectTypeDefinition :=
  Dict.empty.update (compiled.map fun item => (item.semanticId, item))

/-- `resolved_properties` of `_validate_interface_implementations`. -/
def resolvedProperties (objects : Dict String CompiledObjectTypeDefinition) :
    Nat → List String → String → Dict String CompiledPropertyDefinition
  | 0, _, _ => .empty
  | depth + 1, visiting, name =>
    if name ∈ visiting then .empty
    else
      match objects.get? name with
      | none => .empty
      | some objectType =>
        let inherited := objectType.parentTypes.foldl (fun resolved parentName =>
          Dict.update resolved
            (resolvedProperties objects depth (name :: visiting) parentName).entries) Dict.empty
        inherited.update (objectType.properties.map fun prop => (prop.name, prop))

/-- `resolved_properties(name, set())`; a path has each declared name once. -/
def interfaceProperties (compiled : List CompiledObjectTypeDefinition) (name : String) :
    Dict String CompiledPropertyDefinition :=
  resolvedProperties (objectsByName compiled) (objectsByName compiled).keys.length [] name

def checkInterfaceProperty (typeName path : String)
    (properties : Dict String CompiledPropertyDefinition)
    (interfaceProperty : CompiledPropertyDefinition) : List SchemaDiagnostic :=
  let propertyPath := s!"{path}.properties.{interfaceProperty.name}"
  match properties.get? interfaceProperty.name with
  | none => [⟨"interface_property_missing", propertyPath,
      s!"object type '{typeName}' does not implement property '{interfaceProperty.name}'"⟩]
  | some implementation =>
    if implementation.valueType ≠ interfaceProperty.valueType then
      [⟨"interface_property_type_mismatch", propertyPath,
        s!"property '{typeName}.{interfaceProperty.name}' has an incompatible value type"⟩]
    else if interfaceProperty.required && !implementation.required then
      [⟨"interface_property_requiredness_mismatch", propertyPath,
        s!"property '{typeName}.{interfaceProperty.name}' must be required"⟩]
    else []

/-- The interfaces of one object type, from `index` on with `seen` checked. -/
def checkInterfaces (typeName objectPath : String)
    (interfaces : Dict String CompiledInterfaceTypeDefinition)
    (properties : Dict String CompiledPropertyDefinition) :
    Nat → List String → List String → List SchemaDiagnostic
  | _, _, [] => []
  | index, seen, interfaceName :: rest =>
    let path := s!"{objectPath}.interfaces[{index}]"
    let here :=
      if interfaceName ∈ seen then
        [⟨"duplicate_interface_implementation", path,
          s!"interface '{interfaceName}' is implemented more than once"⟩]
      else
        match interfaces.get? interfaceName with
        | none => [⟨"unknown_interface", path, s!"interface '{interfaceName}' is not declared"⟩]
        | some interface =>
          interface.properties.flatMap (checkInterfaceProperty typeName path properties)
    here ++ checkInterfaces typeName objectPath interfaces properties (index + 1)
      (interfaceName :: seen) rest

def validateInterfaceImplementations (drafts : List ObjectTypeDefinition)
    (compiledObjects : List CompiledObjectTypeDefinition)
    (compiledInterfaces : List CompiledInterfaceTypeDefinition) : List SchemaDiagnostic :=
  let interfaces := Dict.empty.update (compiledInterfaces.map fun item => (item.name, item))
  drafts.zipIdx.flatMap fun (draft, index) =>
    checkInterfaces draft.name s!"$.object_types[{index}]" interfaces
      (interfaceProperties compiledObjects draft.name) 0 [] draft.interfaces

def checkEndpoint (names : List String) (path endpoint name : String) : List SchemaDiagnostic :=
  if name ∈ names then []
  else [⟨"unknown_link_endpoint", s!"{path}.{endpoint}",
    s!"object type '{name}' is not declared"⟩]

def compileLink (objectNames : List String) (path : String) (names : List String)
    (semanticIds : SemanticIds) (link : LinkTypeDefinition) :
    List CompiledLinkTypeDefinition × SemanticIds × List SchemaDiagnostic :=
  let identity := registerSemanticId link.semanticId s!"{path}.semantic_id" semanticIds
  let authority := compileStateAuthority link.stateAuthority s!"{path}.state_authority"
  let errors := validateIdentifier link.name s!"{path}.name" ++ identity.2.2 ++ authority.2 ++
    reportDuplicate "duplicate_link_type" "link type" s!"{path}.name" link.name names ++
    checkEndpoint objectNames path "source_type" link.sourceType ++
    checkEndpoint objectNames path "target_type" link.targetType
  match normalizeCardinality link.cardinality with
  | .error label => ([], identity.2.1, errors ++ [⟨"invalid_cardinality", s!"{path}.cardinality",
      s!"unsupported cardinality '{label}'"⟩])
  | .ok cardinality => ([⟨link.name, identity.1, authority.1, link.sourceType, link.targetType,
      cardinality, link.required, link.inverseName, link.temporal, link.description⟩],
      identity.2.1, errors)

def compileLinks (objectNames : List String) : Nat → List String → SemanticIds →
    List LinkTypeDefinition →
    List CompiledLinkTypeDefinition × SemanticIds × List SchemaDiagnostic
  | _, _, semanticIds, [] => ([], semanticIds, [])
  | index, names, semanticIds, link :: rest =>
    let here := compileLink objectNames s!"$.link_types[{index}]" names semanticIds link
    let others := compileLinks objectNames (index + 1) (link.name :: names) here.2.1 rest
    (here.1 ++ others.1, others.2.1, here.2.2 ++ others.2.2)

/-- The loop of `_resolved_property_by_id` over the parents. -/
def firstInherited (objects : Dict String CompiledObjectTypeDefinition)
    (lookUp : CompiledObjectTypeDefinition → Option (Option CompiledPropertyDefinition)) :
    List String → Option (Option CompiledPropertyDefinition)
  | [] => some none
  | parentName :: rest =>
    match objects.get? parentName with
    | none => firstInherited objects lookUp rest
    | some parent =>
      match lookUp parent with
      | some none => firstInherited objects lookUp rest
      | done => done

/-- `_resolved_property_by_id`; `none` when the recursion does not end. -/
def resolvedPropertyById (objects : Dict String CompiledObjectTypeDefinition) :
    Nat → CompiledObjectTypeDefinition → String → Option (Option CompiledPropertyDefinition)
  | 0, _, _ => none
  | depth + 1, objectType, propertyId =>
    match objectType.propertyById propertyId with
    | some direct => some (some direct)
    | none => firstInherited objects (fun parent => resolvedPropertyById objects depth parent propertyId)
        objectType.parentTypes

def compileParameter (path : String) (names : List String)
    (parameter : ActionParameterDefinition) :
    List CompiledActionParameterDefinition × List SchemaDiagnostic :=
  let errors := validateIdentifier parameter.name s!"{path}.name" ++
    reportDuplicate "duplicate_action_parameter" "action parameter" s!"{path}.name"
      parameter.name names
  match normalizeValueType parameter.valueType with
  | .error label => ([], errors ++ [⟨"unsupported_action_parameter_type", s!"{path}.value_type",
      s!"unsupported value type '{label}'"⟩])
  | .ok valueType => ([⟨parameter.name, valueType, parameter.description⟩], errors)

def compileParameters (actionPath : String) : Nat → List String →
    List (Option ActionParameterDefinition) →
    List CompiledActionParameterDefinition × List SchemaDiagnostic
  | _, _, [] => ([], [])
  | index, names, none :: rest =>
    let others := compileParameters actionPath (index + 1) names rest
    (others.1, ⟨"invalid_action_parameter", s!"{actionPath}.parameters[{index}]",
      "action parameters must be ActionParameterDefinition values"⟩ :: others.2)
  | index, names, some parameter :: rest =>
    let here := compileParameter s!"{actionPath}.parameters[{index}]" names parameter
    let others := compileParameters actionPath (index + 1) (parameter.name :: names) rest
    (here.1 ++ others.1, here.2 ++ others.2)

def checkActionTarget (actionPath : String) :
    Option CompiledObjectTypeDefinition → List SchemaDiagnostic
  | none => [⟨"unknown_action_target_type", s!"{actionPath}.target_object_type_id",
      "action target_object_type_id is not declared"⟩]
  | some target =>
    if target.abstract then
      [⟨"abstract_action_target_type", s!"{actionPath}.target_object_type_id",
        "the first Action format cannot target an abstract object type"⟩]
    else []

/-- The checks of a `SetProperty` effect against the property it resolves to. -/
def checkActionEffect (actionPath : String) (parameters : List CompiledActionParameterDefinition)
    (target : Option CompiledObjectTypeDefinition)
    (targetProperty : Option CompiledPropertyDefinition)
    (effect : SetPropertyEffectDefinition) : List SchemaDiagnostic :=
  (if target.isSome ∧ targetProperty = none then
    [⟨"unknown_action_property", s!"{actionPath}.effect.property_id",
      "SetProperty target is not declared on the Action object type"⟩] else []) ++
  match parameters.find? fun item => item.name = effect.valueParameter with
  | none => [⟨"unknown_action_value_parameter", s!"{actionPath}.effect.value_parameter",
      "SetProperty value_parameter is not declared"⟩]
  | some valueParameter =>
    if targetProperty.any fun prop => decide (valueParameter.valueType ≠ prop.valueType) then
      [⟨"action_parameter_type_mismatch", s!"{actionPath}.effect.value_parameter",
        "Action parameter type does not match the target property"⟩]
    else []

/-- The effect of an action; `none` when looking up its property does not end. -/
def compileEffect (actionPath : String) (byName : Dict String CompiledObjectTypeDefinition)
    (parameters : List CompiledActionParameterDefinition)
    (target : Option CompiledObjectTypeDefinition) :
    Option SetPropertyEffectDefinition →
      Option (CompiledSetPropertyEffectDefinition × List SchemaDiagnostic)
  | none => some (⟨"", ""⟩, [⟨"unsupported_action_effect", s!"{actionPath}.effect",
      "the first Action format supports only SetProperty"⟩])
  | some effect =>
    let resolved :=
      match target with
      | none => some none
      | some target => resolvedPropertyById byName (byName.keys.length + 1) target effect.propertyId
    resolved.map fun targetProperty =>
      (⟨effect.propertyId, effect.valueParameter⟩,
        checkActionEffect actionPath parameters target targetProperty effect)

/-- One action; its property is looked up in `byName` from the target in `byId`. -/
def compileAction (byId byName : Dict String CompiledObjectTypeDefinition) (path : String)
    (names : List String) (semanticIds : SemanticIds) (action : ActionDefinition) :
    Option (CompiledActionDefinition × SemanticIds × List SchemaDiagnostic) :=
  let identity := registerSemanticId action.semanticId s!"{path}.semantic_id" semanticIds
  let parameters := compileParameters path 0 [] action.parameters
  let target := byId.get? action.targetObjectTypeId
  (compileEffect path byName parameters.1 target action.effect).map fun effect =>
    (⟨action.name, identity.1, action.targetObjectTypeId,
        sortBy CompiledActionParameterDefinition.name parameters.1, effect.1,
        action.policyRequirementRef, action.description⟩,
      identity.2.1,
      validateIdentifier action.name s!"{path}.name" ++ identity.2.2 ++
        reportDuplicate "duplicate_action" "action" s!"{path}.name" action.name names ++
        parameters.2 ++
        (if action.parameters.length ≠ 1 then
          [⟨"unsupported_action_parameter_shape", s!"{path}.parameters",
            "the first Action format requires exactly one value parameter"⟩] else []) ++
        checkActionTarget path target ++ effect.2 ++
        if action.policyRequirementRef.isBlank then
          [⟨"invalid_action_policy_requirement", s!"{path}.policy_requirement_ref",
            "policy_requirement_ref must be a non-empty opaque reference"⟩] else [])

def compileActions (byId byName : Dict String CompiledObjectTypeDefinition) : Nat → List String →
    SemanticIds → List ActionDefinition →
    Option (List CompiledActionDefinition × List SchemaDiagnostic)
  | _, _, _, [] => some ([], [])
  | index, names, semanticIds, action :: rest =>
    match compileAction byId byName s!"$.actions[{index}]" names semanticIds action with
    | none => none
    | some here =>
      (compileActions byId byName (index + 1) (action.name :: names) here.2.1 rest).map fun others =>
        (here.1 :: others.1, here.2.2 ++ others.2)

/-- The checks of `_compile` that come before the type definitions. -/
def validateHeader (draft : OntologyPackageDraft) : List SchemaDiagnostic :=
  validateIdentifier draft.packageId "$.package_id" ++
  (if draft.ns.isBlank then
    [⟨"invalid_namespace", "$.namespace", "namespace must be a non-empty string"⟩] else []) ++
  if isVersion draft.version then []
  else [⟨"invalid_schema_version", "$.version",
    "version must contain one to three numeric components"⟩]

/-- What `compile` raises. -/
inductive CompilationFailure where
  | schemaCompilation (diagnostics : List SchemaDiagnostic)
  | recursion

section Passes
variable (draft : OntologyPackageDraft)

/-- The loops of `_compile`, in order. -/
def interfacePass : List CompiledInterfaceTypeDefinition × List SchemaDiagnostic :=
  compileInterfaces 0 [] draft.interfaceTypes

def objectPass : List CompiledObjectTypeDefinition × SemanticIds × List SchemaDiagnostic :=
  compileObjects 0 [] .empty draft.objectTypes

def linkPass : List CompiledLinkTypeDefinition × SemanticIds × List SchemaDiagnostic :=
  compileLinks (draft.objectTypes.map ObjectTypeDefinition.name) 0 [] (objectPass draft).2.1
    draft.linkTypes

def actionPass : Option (List CompiledActionDefinition × List SchemaDiagnostic) :=
  compileActions (objectsById (objectPass draft).1) (objectsByName (objectPass draft).1) 0 []
    (linkPass draft).2.1 draft.actions

/-- What the passes before the actions report. -/
def typeDiagnostics : List SchemaDiagnostic :=
  validateHeader draft ++ (interfacePass draft).2 ++ (objectPass draft).2.2 ++
    validateParents draft.objectTypes ++ validateParentCycles draft.objectTypes ++
    validateInterfaceImplementations draft.objectTypes (objectPass draft).1 (interfacePass draft).1 ++
    (linkPass draft).2.2

/-- `OntologyCompiler.compile`. -/
def compile : Except CompilationFailure CompiledOntologySchema :=
  match actionPass draft with
  | none => .error .recursion
  | some actions =>
    if typeDiagnostics draft ++ actions.2 = [] then
      .ok
        { packageId := draft.packageId
          ns := draft.ns
          version := draft.version
          objectTypes := sortBy CompiledObjectTypeDefinition.semanticId (objectPass draft).1
          linkTypes := sortBy CompiledLinkTypeDefinition.semanticId (linkPass draft).1
          interfaceTypes := sortBy CompiledInterfaceTypeDefinition.name (interfacePass draft).1
          actions := sortBy CompiledActionDefinition.semanticId actions.1 }
    else .error (.schemaCompilation (typeDiagnostics draft ++ actions.2))

end Passes

/-- `OntologyCompiler.validate`; `none` is a `RecursionError`. -/
def validate (draft : OntologyPackageDraft) : Option (List SchemaDiagnostic) :=
  match compile draft with
  | .ok _ => some []
  | .error (.schemaCompilation diagnostics) => some diagnostics
  | .error .recursion => none

end Loushang.Schema
