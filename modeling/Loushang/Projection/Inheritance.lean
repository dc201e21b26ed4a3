import Loushang.Projection.Properties
import Loushang.Schema.Acceptance
import Mathlib.Data.List.Pairwise

/-!
# The compiler and the runtime on inherited properties

The compiler merges the parents' properties along every path, the runtime visits each type
once. They agree on a type exactly when, for every name, the declaring type that the walk
along all paths visits last is also the one it first visits last.
-/
namespace Loushang.Projection
open Loushang.Lib Loushang.Lib.Hierarchy Loushang.Schema

/-- The declaration of `property` in the type called `name`, as the compiler looks it up. -/
def compiledProperty (objects : Dict String CompiledObjectTypeDefinition) (property name : String) :
    Option CompiledPropertyDefinition :=
  (objects.get? name).bind fun objectType => objectType.property property

def compiledParents (objects : Dict String CompiledObjectTypeDefinition) (name : String) :
    List String :=
  ((objects.get? name).map CompiledObjectTypeDefinition.parentTypes).getD []

/-- The compiler's map holds what the walk along paths inherits. -/
theorem get?_resolvedProperties {objects : Dict String CompiledObjectTypeDefinition}
    (distinct : ∀ name objectType, objects.get? name = some objectType →
      (objectType.properties.map CompiledPropertyDefinition.name).Nodup)
    (depth : Nat) (visiting : List String) (name property : String) :
    (Schema.resolvedProperties objects depth visiting name).get? property =
      inherited (compiledProperty objects property)
        (pathWalk (compiledParents objects) depth visiting name) := by
  induction depth generalizing visiting name with
  | zero => rfl
  | succ depth ih =>
    rw [Schema.resolvedProperties, pathWalk]
    split
    · rfl
    · cases found : objects.get? name with
      | none => simp [compiledParents, found, compiledProperty, inherited]
      | some objectType =>
        have parents : compiledParents objects name = objectType.parentTypes := by
          rw [compiledParents, found]
          rfl
        have merged : ∀ (above : List String) (resolved : Dict String CompiledPropertyDefinition),
            (above.foldl (fun resolved parentName => Dict.update resolved
              (Schema.resolvedProperties objects depth (name :: visiting) parentName).entries)
              resolved).get? property =
            (inherited (compiledProperty objects property) (above.flatMap
              (pathWalk (compiledParents objects) depth (name :: visiting)))).or
              (resolved.get? property) := by
          intro above
          induction above with
          | nil => exact fun _ => rfl
          | cons parentName rest more =>
            intro resolved
            rw [List.foldl_cons, more, Dict.get?_update, ih, List.flatMap_cons, inherited_append,
              Option.or_assoc]
        have nodup : ((objectType.properties.map fun prop => (prop.name, prop)).map Prod.fst).Nodup := by
          rw [List.map_map]
          exact distinct name objectType found
        have own : compiledProperty objects property name = objectType.property property := by
          rw [compiledProperty, found, Option.bind_some]
        rw [Dict.get?_update _ ⟨_, nodup⟩, merged, parents, inherited_concat, own, Dict.get?_empty,
          Option.or_none]
        simp only [Dict.get?, List.find?_map, Option.map_map, CompiledObjectTypeDefinition.property]
        congr 1
        exact congrFun Option.map_id _

theorem exists_compilesTo {objectTypes : List ObjectTypeDefinition}
    {objects : List CompiledObjectTypeDefinition} (all : List.Forall₂ CompilesTo objectTypes objects)
    {objectType : ObjectTypeDefinition} (member : objectType ∈ objectTypes) :
    ∃ object ∈ objects, CompilesTo objectType object := by
  induction all with
  | nil => exact absurd member List.not_mem_nil
  | cons compiled _ ih =>
    rcases List.mem_cons.mp member with rfl | member
    · exact ⟨_, List.mem_cons_self, compiled⟩
    · obtain ⟨object, there, compiled⟩ := ih member
      exact ⟨object, List.mem_cons_of_mem _ there, compiled⟩

section Accepted
variable {draft : OntologyPackageDraft} {schema : CompiledOntologySchema}
  (accepted : Accepted draft schema)
include accepted

theorem compilesTo : List.Forall₂ CompilesTo draft.objectTypes (compiledObjects draft) :=
  (compileObjects_quiet accepted.objects).1

variable {object : CompiledObjectTypeDefinition}

theorem exists_draft (member : object ∈ compiledObjects draft) :
    ∃ objectType ∈ draft.objectTypes, CompilesTo objectType object := by
  have all := compilesTo accepted
  obtain ⟨index, inside, rfl⟩ := List.mem_iff_getElem.mp member
  have inDraft : index < draft.objectTypes.length := by
    rw [all.length_eq]
    exact inside
  exact ⟨_, List.getElem_mem inDraft, all.get inDraft inside⟩

theorem objectNames_nodup : ((compiledObjects draft).map CompiledObjectTypeDefinition.name).Nodup := by
  rw [map_name_of_compilesTo (compilesTo accepted)]
  exact (compileObjects_quiet accepted.objects).2.1.1

/-- The compiler and the schema find the same type under a name. -/
theorem objectType_eq_get? (name : String) :
    schema.objectType name = (objectsByName (compiledObjects draft)).get? name := by
  have nodup := objectNames_nodup accepted
  rw [objectsByName, Dict.get?_index nodup, CompiledOntologySchema.objectType, accepted.objectTypes]
  apply Option.ext
  intro object
  rw [Dict.find?_key_iff nodup, Dict.find?_key_iff ((nodup_map_sortBy _ _).mpr nodup), mem_sortBy]

variable {name : String}

theorem objectType_iff :
    schema.objectType name = some object ↔ object ∈ compiledObjects draft ∧ object.name = name := by
  rw [objectType_eq_get? accepted, objectsByName, Dict.get?_index (objectNames_nodup accepted),
    Dict.find?_key_iff (objectNames_nodup accepted)]

theorem exists_objectType (declared : name ∈ draft.objectTypes.map ObjectTypeDefinition.name) :
    ∃ object, schema.objectType name = some object := by
  obtain ⟨objectType, there, rfl⟩ := List.mem_map.mp declared
  obtain ⟨object, present, compiled⟩ := exists_compilesTo (compilesTo accepted) there
  exact ⟨object, (objectType_iff accepted).mpr ⟨present, compiled.name⟩⟩

theorem mem_objectTypes : object ∈ schema.objectTypes ↔ object ∈ compiledObjects draft := by
  rw [accepted.objectTypes, mem_sortBy]

theorem objectType_parents (member : object ∈ schema.objectTypes) :
    ∀ parent ∈ object.parentTypes, (schema.objectType parent).isSome := by
  intro parent above
  obtain ⟨objectType, present, compiled⟩ := exists_draft accepted ((mem_objectTypes accepted).mp member)
  rw [compiled.parentTypes] at above
  obtain ⟨found, located⟩ := exists_objectType accepted (parents_declared accepted.parents present parent above)
  rw [located]
  rfl

theorem objectType_properties (member : object ∈ schema.objectTypes) :
    (object.properties.map CompiledPropertyDefinition.name).Nodup := by
  obtain ⟨_, _, compiled⟩ := exists_draft accepted ((mem_objectTypes accepted).mp member)
  exact compiled.distinct

/-- A name is declared by a draft type and what that is compiled to, or by neither. -/
theorem objectType_cases (name : String) :
    (∃ objectType index object, (declarations draft.objectTypes).get? name = some (objectType, index) ∧
      schema.objectType name = some object ∧ CompilesTo objectType object) ∨
    ((declarations draft.objectTypes).get? name = none ∧ schema.objectType name = none) := by
  cases found : (declarations draft.objectTypes).get? name with
  | none =>
    right
    refine ⟨rfl, ?_⟩
    rw [Dict.get?_eq_none, mem_keys_declarations] at found
    cases located : schema.objectType name with
    | none => rfl
    | some object =>
      obtain ⟨member, named⟩ := (objectType_iff accepted).mp located
      have listed : object.name ∈ (compiledObjects draft).map CompiledObjectTypeDefinition.name :=
        List.mem_map_of_mem member
      rw [map_name_of_compilesTo (compilesTo accepted), named] at listed
      exact absurd listed found
  | some declaration =>
    left
    obtain ⟨objectType, index⟩ := declaration
    obtain ⟨member, named⟩ := mem_of_declarations found
    obtain ⟨object, there, compiled⟩ := exists_compilesTo (compilesTo accepted) member
    refine ⟨objectType, index, object, rfl, ?_, compiled⟩
    exact (objectType_iff accepted).mpr ⟨there, compiled.name.trans named⟩

theorem parents_eq :
    compiledParents (objectsByName (compiledObjects draft)) = draftParents (declarations draft.objectTypes) ∧
      schemaParents schema = draftParents (declarations draft.objectTypes) := by
  have each : ∀ name, schemaParents schema name = draftParents (declarations draft.objectTypes) name := by
    intro name
    unfold schemaParents draftParents
    rcases objectType_cases accepted name with ⟨objectType, index, object, found, located, compiled⟩ | ⟨found, located⟩
    · rw [found, located]
      simp only [Option.map_some, Option.getD_some]
      rw [compiled.parentTypes, List.filter_eq_self.mpr]
      intro parent above
      rw [decide_eq_true_eq, mem_keys_declarations]
      exact parents_declared accepted.parents (mem_of_declarations found).1 parent above
    · rw [found, located]
      rfl
  refine ⟨funext fun name => ?_, funext each⟩
  rw [← each name, compiledParents, schemaParents, objectType_eq_get? accepted]

theorem compiledProperty_eq (property name : String) :
    compiledProperty (objectsByName (compiledObjects draft)) property name =
      (ownProperty schema property name).map Prod.snd := by
  unfold compiledProperty ownProperty
  rw [objectType_eq_get? accepted]
  cases (objectsByName (compiledObjects draft)).get? name with
  | none => rfl
  | some object =>
    simp only [Option.bind_some, Option.map_map]
    exact (congrFun Option.map_id _).symm

/-- Every id is registered once: an object type has its own, and so has every property. -/
theorem declaredIds_nodup :
    (∀ object ∈ compiledObjects draft, object.declaredIds.Nodup) ∧
      ((compiledObjects draft).map CompiledObjectTypeDefinition.semanticId).Nodup ∧
      ∀ a ∈ compiledObjects draft, ∀ b ∈ compiledObjects draft, ∀ id,
        id ∈ a.declaredIds → id ∈ b.declaredIds → a = b := by
  have registered := (compileObjects_quiet accepted.objects).2.2.nodup_iff.mp (Dict.nodup _)
  rw [Dict.keys_empty, List.nil_append, List.nodup_flatMap] at registered
  obtain ⟨each, apart⟩ := registered
  have symmetric : Std.Symm (Function.onFun List.Disjoint CompiledObjectTypeDefinition.declaredIds) :=
    ⟨fun _ _ apart => apart.symm⟩
  refine ⟨each, ?_, fun a here b there id first second => ?_⟩
  · rw [List.Nodup, List.pairwise_map]
    refine apart.imp fun disjoint same => ?_
    exact disjoint List.mem_cons_self (same ▸ List.mem_cons_self)
  · by_contra different
    exact apart.forall here there different first second

/-- The id of a property tells the type that declares it, and the property. -/
theorem property_unique {a b : CompiledObjectTypeDefinition} {p q : CompiledPropertyDefinition}
    {id : String} (here : a ∈ compiledObjects draft) (there : b ∈ compiledObjects draft)
    (declares : p ∈ a.properties) (declaresToo : q ∈ b.properties)
    (identified : p.semanticId = some id) (identifiedToo : q.semanticId = some id) : a = b ∧ p = q := by
  obtain ⟨each, _, apart⟩ := declaredIds_nodup accepted
  have same := apart a here b there id
    (List.mem_cons_of_mem _ (List.mem_filterMap.mpr ⟨p, declares, identified⟩))
    (List.mem_cons_of_mem _ (List.mem_filterMap.mpr ⟨q, declaresToo, identifiedToo⟩))
  subst same
  have distinct := (List.nodup_cons.mp (each a here)).2
  rw [List.Nodup, List.pairwise_filterMap] at distinct
  refine ⟨rfl, ?_⟩
  by_contra different
  have symmetric : Std.Symm fun x y : CompiledPropertyDefinition =>
      ∀ i, x.semanticId = some i → ∀ j, y.semanticId = some j → i ≠ j :=
    ⟨fun _ _ apart i first j second equal => apart j second i first equal.symm⟩
  exact distinct.forall declares declaresToo different id identified id identifiedToo rfl

/-- Ids are registered once, so a definition tells its type. -/
theorem compiledProperty_injective {property a b : String}
    (declared : (compiledProperty (objectsByName (compiledObjects draft)) property a).isSome)
    (same : compiledProperty (objectsByName (compiledObjects draft)) property a =
      compiledProperty (objectsByName (compiledObjects draft)) property b) : a = b := by
  obtain ⟨definition, found⟩ := Option.isSome_iff_exists.mp declared
  have owner : ∀ name, compiledProperty (objectsByName (compiledObjects draft)) property name =
      some definition → ∃ object ∈ compiledObjects draft, object.name = name ∧
        definition ∈ object.properties := by
    intro name located
    obtain ⟨object, known, member⟩ := Option.bind_eq_some_iff.mp located
    rw [← objectType_eq_get? accepted, objectType_iff accepted] at known
    exact ⟨object, known.1, known.2, List.mem_of_find?_eq_some member⟩
  obtain ⟨first, member, rfl, listed⟩ := owner a found
  obtain ⟨second, there, rfl, listedToo⟩ := owner b (same ▸ found)
  obtain ⟨objectType, _, compiled⟩ := exists_draft accepted member
  obtain ⟨id, identified⟩ := Option.isSome_iff_exists.mp (compiled.complete definition listed).1
  rw [(property_unique accepted member there listed listedToo identified identified).1]

omit accepted in
theorem inherited_map {V P Q : Type} (f : P → Q) (own : V → Option P) (visits : List V) :
    inherited (fun node => (own node).map f) visits = (inherited own visits).map f := by
  induction visits using List.reverseRecOn with
  | nil => rfl
  | append_singleton visits last ih => rw [inherited_concat, inherited_concat, ih, Option.map_or]

/-- The declared types with every parent before its children. -/
theorem exists_order : ∃ order, ParentsFirst (draftParents (declarations draft.objectTypes)) order ∧
    order.length = draft.objectTypes.length ∧
    ∀ name, name ∈ order ↔ name ∈ draft.objectTypes.map ObjectTypeDefinition.name := by
  obtain ⟨order, sorted, listed⟩ := acyclic_of_quiet accepted.cycles
  have distinctNames := (compileObjects_quiet accepted.objects).2.1.1
  have same : order.Perm (draft.objectTypes.map ObjectTypeDefinition.name) :=
    (List.perm_ext_iff_of_nodup sorted.nodup distinctNames).mpr listed
  refine ⟨order, sorted, ?_, listed⟩
  rw [same.length_eq, List.length_map]

theorem length_objectTypes : schema.objectTypes.length = draft.objectTypes.length := by
  rw [accepted.objectTypes, (perm_sortBy _ _).length_eq]
  exact (compilesTo accepted).length_eq.symm

theorem length_keys : (objectsByName (compiledObjects draft)).keys.length = draft.objectTypes.length := by
  have distinctNames := (compileObjects_quiet accepted.objects).2.1.1
  have names : ((compiledObjects draft).map fun item => (item.name, item)).map Prod.fst =
      draft.objectTypes.map ObjectTypeDefinition.name := by
    rw [List.map_map, ← map_name_of_compilesTo (compilesTo accepted)]
    rfl
  have listing : ((objectsByName (compiledObjects draft)).keys).length =
      ((compiledObjects draft).map fun item => (item.name, item)).length := by
    rw [Dict.keys, objectsByName, Dict.entries_update_of_disjoint (names ▸ distinctNames)
      (fun _ _ => List.not_mem_nil), List.length_map]
    rfl
  rw [listing, List.length_map]
  exact (compilesTo accepted).length_eq.symm

/-- The runtime resolves a name to the last of its first visits that declares it. -/
theorem get?_runtime (declared : name ∈ draft.objectTypes.map ObjectTypeDefinition.name) (property : String) :
    (resolvedProperties schema name).get? property =
      inherited (ownProperty schema property)
        (firstVisits [] (walk (draftParents (declarations draft.objectTypes))
          draft.objectTypes.length name)) := by
  obtain ⟨order, sorted, total, listed⟩ := exists_order accepted
  have runtimeParents := (parents_eq accepted).2
  have member := (listed name).mpr declared
  have room : order.idxOf name < draft.objectTypes.length :=
    total ▸ List.idxOf_lt_length_of_mem member
  obtain ⟨object, located⟩ := exists_objectType accepted declared
  have named := (objectType_name located).1
  rw [← named] at located
  have start : Entered (schemaParents schema) (fun _ => False) ([], []) :=
    ⟨fun _ => by simp, fun _ present => absurd present List.not_mem_nil⟩
  rw [← runtimeParents] at sorted
  have once := (visitOnce_eq sorted member (Nat.lt_succ_of_lt room)
    (fun _ opened => opened.elim) start).1
  have visited := @visit_eq schema (fun _ there => objectType_parents accepted there)
    (draft.objectTypes.length + 1) ([], []) object located
  rw [named] at visited located
  rw [once] at visited
  rw [resolvedProperties, located]
  simp only
  rw [schemaProperties, length_objectTypes accepted]
  change (visit schema (draft.objectTypes.length + 1) ⟨declareAll schema [], []⟩ object).resolved.get?
    property = _
  rw [visited, get?_declareAll (fun _ there => objectType_properties accepted there), ← runtimeParents,
    walk_stable sorted member (Nat.lt_succ_of_lt room) room]

/-- Both resolvers on one walk: all its visits, and the first ones. -/
theorem resolvers_eq (declared : name ∈ draft.objectTypes.map ObjectTypeDefinition.name) (property : String) :
    (interfaceProperties (compiledObjects draft) name).get? property =
        inherited (compiledProperty (objectsByName (compiledObjects draft)) property)
          (walk (draftParents (declarations draft.objectTypes)) draft.objectTypes.length name) ∧
      ((resolvedProperties schema name).get? property).map Prod.snd =
        inherited (compiledProperty (objectsByName (compiledObjects draft)) property)
          (firstVisits [] (walk (draftParents (declarations draft.objectTypes))
            draft.objectTypes.length name)) := by
  obtain ⟨order, sorted, total, listed⟩ := exists_order accepted
  have member := (listed name).mpr declared
  have room : order.idxOf name < draft.objectTypes.length :=
    total ▸ List.idxOf_lt_length_of_mem member
  constructor
  · rw [interfaceProperties, get?_resolvedProperties, (parents_eq accepted).1, length_keys accepted,
      pathWalk_eq sorted member room (fun _ present => absurd present List.not_mem_nil)]
    intro other object found
    rw [← objectType_eq_get? accepted] at found
    exact objectType_properties accepted (objectType_name found).2
  · rw [get?_runtime accepted declared, ← inherited_map]
    congr 1
    funext other
    exact (compiledProperty_eq accepted property other).symm

/-- Every visit of a type that declares `property`, along every path of the hierarchy. -/
def declarers (draft : OntologyPackageDraft) (typeName property : String) : List String :=
  (walk (draftParents (declarations draft.objectTypes)) draft.objectTypes.length typeName).filter
    fun name => ((declarations draft.objectTypes).get? name).any fun declaration =>
      declaration.1.properties.any fun prop => decide (prop.name = property)

theorem declares_eq (property name : String) :
    (((declarations draft.objectTypes).get? name).any fun declaration =>
        declaration.1.properties.any fun prop => decide (prop.name = property)) =
      (compiledProperty (objectsByName (compiledObjects draft)) property name).isSome := by
  rw [compiledProperty, ← objectType_eq_get? accepted]
  rcases objectType_cases accepted name with
    ⟨objectType, index, object, found, located, compiled⟩ | ⟨found, located⟩
  · rw [found, located, Option.any_some, Option.bind_some, CompiledObjectTypeDefinition.property,
      List.isSome_find?]
    have names := @List.Perm.mem_iff _ property _ _ compiled.propertyNames
    simp only [List.mem_map] at names
    rw [Bool.eq_iff_iff, List.any_eq_true, List.any_eq_true]
    simpa only [decide_eq_true_eq] using names.symm
  · rw [found, located]
    rfl

/-- What a compiled type implements, read off the compiler's map. -/
theorem implements {objectType : ObjectTypeDefinition} (member : objectType ∈ draft.objectTypes) :
    ∀ name ∈ objectType.interfaces, ∃ interface, schema.interfaceType name = some interface ∧
      ∀ prop ∈ interface.properties, ∃ implementation,
        (interfaceProperties (compiledObjects draft) objectType.name).get? prop.name =
          some implementation ∧
        implementation.valueType = prop.valueType ∧ (prop.required → implementation.required) := by
  have quiet := accepted.implementations
  unfold validateInterfaceImplementations at quiet
  rw [List.flatMap_eq_nil_iff] at quiet
  obtain ⟨index, inside, rfl⟩ := List.mem_iff_getElem.mp member
  have here := quiet (_, index)
    (List.mem_zipIdx_iff_getElem?.mpr (List.getElem?_eq_getElem inside))
  intro name listed
  obtain ⟨interface, found, implemented⟩ := checkInterfaces_quiet here name listed
  have nodup : ((compiledInterfaces draft).map CompiledInterfaceTypeDefinition.name).Nodup :=
    (compileInterfaces_quiet accepted.interfaces).1
  refine ⟨interface, ?_, implemented⟩
  rw [Dict.get?_index nodup, Dict.find?_key_iff nodup] at found
  rw [CompiledOntologySchema.interfaceType, accepted.interfaceTypes,
    Dict.find?_key_iff ((nodup_map_sortBy _ _).mpr nodup), mem_sortBy]
  exact found

end Accepted

/-- The compiler's map of a type is the one of both runtime resolvers, so that the type
really has the properties of the interfaces it was accepted for. -/
structure ResolvesAlike (draft : OntologyPackageDraft) (schema : CompiledOntologySchema)
    (objectType : ObjectTypeDefinition) : Prop where
  materializer : ∀ name, (interfaceProperties (compiledObjects draft) objectType.name).get? name =
    ((resolvedProperties schema objectType.name).get? name).map Prod.snd
  snapshot : ∃ compiled, schema.objectType objectType.name = some compiled ∧
    ∀ name, (interfaceProperties (compiledObjects draft) objectType.name).get? name =
      ((schemaProperties schema compiled).get? name).map Prod.snd
  implements : ∀ name ∈ objectType.interfaces, ∃ interface,
    schema.interfaceType name = some interface ∧ ∀ prop ∈ interface.properties,
      ∃ owner definition, (resolvedProperties schema objectType.name).get? prop.name =
          some (owner, definition) ∧
        definition.valueType = prop.valueType ∧ (prop.required → definition.required)

/-- Accepted types are resolved alike exactly when every name is settled in the hierarchy. -/
theorem resolvesAlike_iff {draft : OntologyPackageDraft} {schema : CompiledOntologySchema}
    {objectType : ObjectTypeDefinition} (success : compile draft = .ok schema)
    (member : objectType ∈ draft.objectTypes) :
    ResolvesAlike draft schema objectType ↔
      ∀ name, Settled (declarers draft objectType.name name) := by
  have accepted := compile_accepted success
  have declared : objectType.name ∈ draft.objectTypes.map ObjectTypeDefinition.name :=
    List.mem_map_of_mem member
  have settled : ∀ name, (interfaceProperties (compiledObjects draft) objectType.name).get? name =
      ((resolvedProperties schema objectType.name).get? name).map Prod.snd ↔
      Settled (declarers draft objectType.name name) := by
    intro name
    obtain ⟨compiler, runtime⟩ := resolvers_eq accepted declared name
    rw [compiler, runtime, inherited_firstVisits_iff]
    · rw [declarers]
      simp only [declares_eq accepted]
    · exact fun a _ b _ found same => compiledProperty_injective accepted found same
  constructor
  · exact fun alike name => (settled name).mp (alike.materializer name)
  · intro all
    have equal := fun name => (settled name).mpr (all name)
    refine ⟨equal, ?_, fun name listed => ?_⟩
    · obtain ⟨compiled, located⟩ := exists_objectType accepted declared
      refine ⟨compiled, located, fun name => ?_⟩
      rw [equal name, resolvedProperties, located]
    · obtain ⟨interface, found, implemented⟩ := implements accepted member name listed
      refine ⟨interface, found, fun prop there => ?_⟩
      obtain ⟨implementation, has, typed, needed⟩ := implemented prop there
      rw [equal, Option.map_eq_some_iff] at has
      obtain ⟨⟨owner, definition⟩, resolved, rfl⟩ := has
      exact ⟨owner, definition, resolved, typed, needed⟩

/-- `Leaf` inherits `code` from `Root` through `Other`, and overridden through `Middle`. -/
def diamond : OntologyPackageDraft :=
  let code (id : String) (valueType : ValueType) : PropertyDefinition :=
    ⟨"code", .member valueType, some id, some (.member .ontologyOwned), false, false, false,
      .json .null, ""⟩
  let object (name id : String) (properties : List PropertyDefinition) (parents interfaces : List String) :
      ObjectTypeDefinition :=
    ⟨name, some id, some (.member .ontologyOwned), properties, parents, false, none, "", none,
      interfaces⟩
  { packageId := "test.diamond"
    ns := "urn:test:diamond"
    version := "1.0.0"
    objectTypes := [object "Root" "root" [code "root.code" .string] [] [],
      object "Middle" "middle" [code "middle.code" .integer] ["Root"] [],
      object "Other" "other" [] ["Root"] [],
      object "Leaf" "leaf" [] ["Middle", "Other"] ["Coded"]]
    linkTypes := []
    interfaceTypes := [⟨"Coded", [⟨"code", .member .string, none, none, false, false, false,
      .json .null, ""⟩], ""⟩]
    actions := [] }

theorem diamond_compiles : ∃ schema, compile diamond = .ok schema := by
  cases result : compile diamond with
  | ok schema => exact ⟨schema, rfl⟩
  | error failure =>
    have accepted : (compile diamond).isOk = true := by decide +kernel
    rw [result] at accepted
    cases accepted

theorem resolvesAlike_iff_other : ∃ schema, compile diamond = .ok schema ∧
    ∃ objectType ∈ diamond.objectTypes, objectType.name = "Other" ∧
      ResolvesAlike diamond schema objectType := by
  obtain ⟨schema, success⟩ := diamond_compiles
  have member : diamond.objectTypes[2] ∈ diamond.objectTypes := List.getElem_mem _
  refine ⟨schema, success, _, member, rfl, (resolvesAlike_iff success member).mpr fun name => ?_⟩
  -- one path to each type
  exact Settled.of_nodup (List.Nodup.filter _ (by decide))

/-- `Leaf` is accepted as having a text `code`; at run time its `code` is an integer. -/
theorem diamond_resolves_apart : ∃ schema, compile diamond = .ok schema ∧
    ∃ objectType ∈ diamond.objectTypes, objectType.interfaces = ["Coded"] ∧
      ((interfaceProperties (compiledObjects diamond) objectType.name).get? "code").map
        CompiledPropertyDefinition.valueType = some .string ∧
      ((resolvedProperties schema objectType.name).get? "code").map
        (fun found => found.2.valueType) = some .integer ∧
      ¬ ResolvesAlike diamond schema objectType := by
  obtain ⟨schema, success⟩ := diamond_compiles
  have member : diamond.objectTypes[3] ∈ diamond.objectTypes := List.getElem_mem _
  have compiler : ((interfaceProperties (compiledObjects diamond) "Leaf").get? "code").map
      CompiledPropertyDefinition.valueType = some .string := by decide
  have everySchema : (match compile diamond with
      | .ok schema => ((resolvedProperties schema "Leaf").get? "code").map fun found => found.2.valueType
      | .error _ => none) = some .integer := by decide
  rw [success] at everySchema
  refine ⟨schema, success, _, member, rfl, compiler, everySchema, fun alike => ?_⟩
  have same := alike.materializer "code"
  change (interfaceProperties (compiledObjects diamond) "Leaf").get? "code" =
    ((resolvedProperties schema "Leaf").get? "code").map Prod.snd at same
  rw [same, Option.map_map] at compiler
  exact absurd (compiler.symm.trans everySchema) (by decide)

end Loushang.Projection
