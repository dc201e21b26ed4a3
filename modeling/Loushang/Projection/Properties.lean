import Loushang.Lib.Hierarchy
import Loushang.Schema.Definitions

/-!
# Inherited properties at run time

`_resolved_properties` of `projection/materializer.py` and `_schema_properties` of
`projection/model.py`: a depth-first visit of the parents, into each type once.
-/
namespace Loushang.Projection
open Loushang.Lib Loushang.Lib.Hierarchy Loushang.Schema

/-- The variables of both functions: a property with the name of the type that declares it. -/
structure PropertyVisit where
  resolved : Dict String (String × CompiledPropertyDefinition)
  visited : List String

def ownProperties (objectType : CompiledObjectTypeDefinition) :
    List (String × String × CompiledPropertyDefinition) :=
  objectType.properties.map fun definition => (definition.name, objectType.name, definition)

/-- The loop body of `visit` for one parent. -/
def visitParent (schema : CompiledOntologySchema)
    (visit : PropertyVisit → CompiledObjectTypeDefinition → PropertyVisit) (state : PropertyVisit)
    (parentName : String) : PropertyVisit :=
  match schema.objectType parentName with
  | none => state
  | some parent => visit state parent

/-- `visit`. -/
def visit (schema : CompiledOntologySchema) :
    Nat → PropertyVisit → CompiledObjectTypeDefinition → PropertyVisit
  | 0, state, _ => state
  | depth + 1, state, objectType =>
    if objectType.name ∈ state.visited then state
    else
      let above := objectType.parentTypes.foldl (visitParent schema (visit schema depth))
        { state with visited := objectType.name :: state.visited }
      { above with resolved := above.resolved.update (ownProperties objectType) }

/-- `_schema_properties`; a nested visit enters a declared type, so the depth suffices. -/
def schemaProperties (schema : CompiledOntologySchema) (objectType : CompiledObjectTypeDefinition) :
    Dict String (String × CompiledPropertyDefinition) :=
  (visit schema (schema.objectTypes.length + 1) ⟨.empty, []⟩ objectType).resolved

/-- `_resolved_properties`. -/
def resolvedProperties (schema : CompiledOntologySchema) (objectTypeName : String) :
    Dict String (String × CompiledPropertyDefinition) :=
  match schema.objectType objectTypeName with
  | none => .empty
  | some objectType => schemaProperties schema objectType

def schemaParents (schema : CompiledOntologySchema) (name : String) : List String :=
  ((schema.objectType name).map CompiledObjectTypeDefinition.parentTypes).getD []

/-- The declaration of `property` in the type called `name`. -/
def ownProperty (schema : CompiledOntologySchema) (property name : String) :
    Option (String × CompiledPropertyDefinition) :=
  (schema.objectType name).bind fun objectType =>
    (objectType.property property).map fun definition => (objectType.name, definition)

/-- What the visit of the types `order` has resolved. -/
def declareAll (schema : CompiledOntologySchema) (order : List String) :
    Dict String (String × CompiledPropertyDefinition) :=
  order.foldl (fun resolved name =>
    resolved.update (((schema.objectType name).map ownProperties).getD [])) .empty

variable {schema : CompiledOntologySchema}

theorem objectType_name {name : String} {objectType : CompiledObjectTypeDefinition}
    (found : schema.objectType name = some objectType) :
    objectType.name = name ∧ objectType ∈ schema.objectTypes := by
  have named := List.find?_some found
  rw [decide_eq_true_eq] at named
  exact ⟨named, List.mem_of_find?_eq_some found⟩

/-- The visit of a declared type is the generic one, with what the left types declare. -/
theorem visit_eq {schema : CompiledOntologySchema}
    (declared : ∀ objectType ∈ schema.objectTypes, ∀ parent ∈ objectType.parentTypes,
      (schema.objectType parent).isSome)
    {depth : Nat} {state : List String × List String} {objectType : CompiledObjectTypeDefinition}
    (found : schema.objectType objectType.name = some objectType) :
    visit schema depth ⟨declareAll schema state.2, state.1⟩ objectType =
      ⟨declareAll schema (visitOnce (schemaParents schema) depth state objectType.name).2,
        (visitOnce (schemaParents schema) depth state objectType.name).1⟩ := by
  induction depth generalizing state objectType with
  | zero => rfl
  | succ depth ih =>
    rw [visit, visitOnce]
    split
    · rfl
    · have parents : schemaParents schema objectType.name = objectType.parentTypes := by
        rw [schemaParents, found]
        rfl
      have rise : ∀ (above : List String) (state : List String × List String),
          (∀ parent ∈ above, parent ∈ objectType.parentTypes) →
          above.foldl (visitParent schema (visit schema depth)) ⟨declareAll schema state.2, state.1⟩ =
            ⟨declareAll schema (above.foldl (visitOnce (schemaParents schema) depth) state).2,
              (above.foldl (visitOnce (schemaParents schema) depth) state).1⟩ := by
        intro above
        induction above with
        | nil => exact fun state _ => rfl
        | cons parentName rest more =>
          intro state inside
          rw [List.foldl_cons, List.foldl_cons, visitParent]
          have present := declared objectType (objectType_name found).2 parentName
            (inside parentName List.mem_cons_self)
          obtain ⟨parent, located⟩ := Option.isSome_iff_exists.mp present
          have named := (objectType_name located).1
          rw [located]
          simp only
          rw [← named] at located
          rw [ih located, named, more _ fun other member => inside other (List.mem_cons_of_mem _ member)]
      rw [rise objectType.parentTypes (objectType.name :: state.1, state.2) fun _ member => member,
        parents]
      simp only [declareAll, List.foldl_append, List.foldl_cons, List.foldl_nil, found,
        Option.map_some, Option.getD_some]

/-- A type resolves to what its first visits inherit. -/
theorem get?_declareAll (distinct : ∀ objectType ∈ schema.objectTypes,
      (objectType.properties.map CompiledPropertyDefinition.name).Nodup) (order : List String)
    (property : String) :
    (declareAll schema order).get? property = inherited (ownProperty schema property) order := by
  induction order using List.reverseRecOn with
  | nil => rfl
  | append_singleton order last ih =>
    rw [inherited_concat, ← ih, declareAll, List.foldl_append]
    change (Dict.update (declareAll schema order) _).get? property = _
    cases found : schema.objectType last with
    | none => simp [ownProperty, found]
    | some objectType =>
      have nodup : ((ownProperties objectType).map Prod.fst).Nodup := by
        rw [ownProperties, List.map_map]
        exact distinct objectType (objectType_name found).2
      rw [Option.map_some, Option.getD_some, Dict.get?_update _ ⟨ownProperties objectType, nodup⟩,
        ownProperty, found, Option.bind_some]
      congr 1
      simp only [Dict.get?, ownProperties, List.find?_map, Option.map_map,
        CompiledObjectTypeDefinition.property]
      rfl

end Loushang.Projection
