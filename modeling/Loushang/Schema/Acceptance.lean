import Loushang.Schema.Acyclic

/-!
# What a compiled draft guarantees

Names and ids that are distinct, and what the compiler copies from the draft.
-/
namespace Loushang.Schema
open Loushang.Lib

variable {path : String} {names : List String}

theorem reportDuplicate_eq_nil {code what name : String} :
    reportDuplicate code what path name names = [] ↔ name ∉ names := by
  unfold reportDuplicate
  split <;> simp_all

variable {semanticIds : SemanticIds}

/-- A quiet registration adds a new id. -/
theorem registerSemanticId_quiet {value : Option String}
    (quiet : (registerSemanticId value path semanticIds).2.2 = []) :
    (registerSemanticId value path semanticIds).2.1.keys =
      semanticIds.keys ++ [(registerSemanticId value path semanticIds).1] := by
  unfold registerSemanticId at quiet ⊢
  split at quiet
  · exact absurd quiet (List.cons_ne_nil _ _)
  · next id _ =>
    split at quiet
    · exact absurd quiet (List.cons_ne_nil _ _)
    · next absent =>
      rw [Dict.keys_set, if_neg (Dict.get?_eq_none.mp absent)]

variable {α : Type}

theorem perm_sortBy (key : α → String) (items : List α) : (sortBy key items).Perm items :=
  List.perm_insertionSort _ items

variable {items : List α}

@[simp] theorem mem_sortBy {key : α → String} {item : α} : item ∈ sortBy key items ↔ item ∈ items :=
  (perm_sortBy key items).mem_iff

theorem nodup_map_sortBy {β : Type} (key : α → String) (f : α → β) :
    ((sortBy key items).map f).Nodup ↔ (items.map f).Nodup :=
  ((perm_sortBy key items).map f).nodup_iff

/-- A quiet property is compiled under its name; an object type's has a new id. -/
theorem compileProperty_quiet {semanticIds : Option SemanticIds} {prop : PropertyDefinition}
    (quiet : (compileProperty path names semanticIds prop).2.2 = []) :
    prop.name ∉ names ∧ ∃ compiled, (compileProperty path names semanticIds prop).1 = [compiled] ∧
      compiled.name = prop.name ∧
      ∀ known, semanticIds = some known → ∃ later : SemanticIds,
        (compileProperty path names semanticIds prop).2.1 = some later ∧
        later.keys = known.keys ++ compiled.semanticId.toList ∧
        compiled.semanticId.isSome ∧ compiled.stateAuthority.isSome := by
  unfold compileProperty at quiet ⊢
  simp only [List.append_eq_nil_iff, reportDuplicate_eq_nil] at quiet ⊢
  obtain ⟨⟨⟨_, identified⟩, new⟩, valid⟩ := quiet
  refine ⟨new, ?_⟩
  unfold compilePropertyValue at valid ⊢
  cases typed : normalizeValueType prop.valueType with
  | error label =>
    rw [typed] at valid
    exact absurd (List.append_eq_nil_iff.mp valid).1 (List.cons_ne_nil _ _)
  | ok valueType =>
    cases given : prop.default with
    | invalid message =>
      rw [typed, given] at valid
      exact absurd (List.append_eq_nil_iff.mp valid).2 (List.cons_ne_nil _ _)
    | json default =>
      refine ⟨_, rfl, rfl, fun known present => ?_⟩
      subst present
      simp only [compilePropertyIdentity, List.append_eq_nil_iff] at identified ⊢
      exact ⟨_, rfl, registerSemanticId_quiet identified.1, rfl, rfl⟩

variable {index : Nat} {properties : List PropertyDefinition}

/-- Quiet properties keep their names, which are distinct. -/
theorem compileProperties_names {semanticIds : Option SemanticIds}
    (quiet : (compileProperties path index names semanticIds properties).2.2 = []) :
    (compileProperties path index names semanticIds properties).1.map
        CompiledPropertyDefinition.name = properties.map PropertyDefinition.name ∧
      (properties.map PropertyDefinition.name).Nodup ∧
      ∀ prop ∈ properties, prop.name ∉ names := by
  induction properties generalizing index names semanticIds with
  | nil => exact ⟨rfl, List.nodup_nil, fun _ member => absurd member List.not_mem_nil⟩
  | cons prop rest ih =>
    rw [compileProperties] at quiet ⊢
    obtain ⟨here, others⟩ := List.append_eq_nil_iff.mp quiet
    obtain ⟨new, compiled, single, named, _⟩ := compileProperty_quiet here
    obtain ⟨kept, distinct, fresh⟩ := ih others
    refine ⟨?_, ?_, fun other member => ?_⟩
    · rw [List.map_append, kept, single, List.map_singleton, named]
      rfl
    · rw [List.map_cons, List.nodup_cons]
      refine ⟨fun again => ?_, distinct⟩
      obtain ⟨other, member, same⟩ := List.mem_map.mp again
      exact fresh other member (same ▸ List.mem_cons_self)
    · rcases List.mem_cons.mp member with rfl | member
      · exact new
      · exact fun there => fresh other member (List.mem_cons_of_mem _ there)

/-- Quiet properties of an object type have new ids and authorities. -/
theorem compileProperties_ids
    (quiet : (compileProperties path index names (some semanticIds) properties).2.2 = []) :
    (∃ later : SemanticIds,
      (compileProperties path index names (some semanticIds) properties).2.1 = some later ∧
      later.keys = semanticIds.keys ++
        (compileProperties path index names (some semanticIds) properties).1.filterMap
          CompiledPropertyDefinition.semanticId) ∧
    ∀ prop ∈ (compileProperties path index names (some semanticIds) properties).1,
      prop.semanticId.isSome ∧ prop.stateAuthority.isSome := by
  induction properties generalizing index names semanticIds with
  | nil => exact ⟨⟨semanticIds, rfl, (List.append_nil _).symm⟩, fun _ member => absurd member List.not_mem_nil⟩
  | cons prop rest ih =>
    rw [compileProperties] at quiet ⊢
    obtain ⟨here, others⟩ := List.append_eq_nil_iff.mp quiet
    obtain ⟨_, compiled, single, _, identified⟩ := compileProperty_quiet here
    obtain ⟨middle, known, added, complete⟩ := identified semanticIds rfl
    rw [known] at others ⊢
    obtain ⟨⟨later, listed, keys⟩, all⟩ := ih others
    refine ⟨⟨later, listed, ?_⟩, fun other member => ?_⟩
    · rw [keys, added, single, List.append_assoc, List.filterMap_append, List.filterMap_cons]
      cases compiled.semanticId <;> rfl
    · rw [single, List.mem_append, List.mem_singleton] at member
      rcases member with rfl | member
      · exact complete
      · exact all other member

/-- The ids an object type declares. -/
def CompiledObjectTypeDefinition.declaredIds (object : CompiledObjectTypeDefinition) : List String :=
  object.semanticId :: object.properties.filterMap CompiledPropertyDefinition.semanticId

/-- An object type and what it is compiled to. -/
structure CompilesTo (objectType : ObjectTypeDefinition) (compiled : CompiledObjectTypeDefinition) :
    Prop where
  name : compiled.name = objectType.name
  parentTypes : compiled.parentTypes = objectType.parentTypes
  propertyNames : (compiled.properties.map CompiledPropertyDefinition.name).Perm
    (objectType.properties.map PropertyDefinition.name)
  distinct : (compiled.properties.map CompiledPropertyDefinition.name).Nodup
  complete : ∀ prop ∈ compiled.properties, prop.semanticId.isSome ∧ prop.stateAuthority.isSome

theorem compileObject_quiet {objectType : ObjectTypeDefinition}
    (quiet : (compileObject path names semanticIds objectType).2.2 = []) :
    objectType.name ∉ names ∧
      (compileObject path names semanticIds objectType).2.1.keys.Perm
        (semanticIds.keys ++ (compileObject path names semanticIds objectType).1.declaredIds) ∧
      CompilesTo objectType (compileObject path names semanticIds objectType).1 := by
  unfold compileObject at quiet ⊢
  simp only [List.append_eq_nil_iff, reportDuplicate_eq_nil] at quiet ⊢
  obtain ⟨⟨⟨⟨_, identified⟩, _⟩, new⟩, properties⟩ := quiet
  unfold compilePropertyDefinitions at properties ⊢
  obtain ⟨sameNames, distinctNames, _⟩ := compileProperties_names properties
  obtain ⟨⟨later, known, added⟩, complete⟩ := compileProperties_ids properties
  have sorted : ((sortBy (fun item => item.semanticId.getD item.name) (compileProperties path 0 []
      (some (registerSemanticId objectType.semanticId (toString path ++ toString ".semantic_id")
        semanticIds).2.1) objectType.properties).1).map CompiledPropertyDefinition.name).Perm
      (objectType.properties.map PropertyDefinition.name) := by
    rw [← sameNames]
    exact (perm_sortBy _ _).map _
  refine ⟨new, ?_, rfl, rfl, sorted, sorted.nodup_iff.mpr distinctNames,
    fun prop there => complete prop (mem_sortBy.mp there)⟩
  rw [known, Option.getD_some, added, registerSemanticId_quiet identified,
    CompiledObjectTypeDefinition.declaredIds, List.append_assoc]
  refine List.Perm.append_left _ (List.Perm.cons _ ?_)
  exact ((perm_sortBy _ _).filterMap _).symm

variable {objectTypes : List ObjectTypeDefinition}

/-- Quiet object types are compiled one by one; their names and ids are new. -/
theorem compileObjects_quiet (quiet : (compileObjects index names semanticIds objectTypes).2.2 = []) :
    List.Forall₂ CompilesTo objectTypes (compileObjects index names semanticIds objectTypes).1 ∧
      ((objectTypes.map ObjectTypeDefinition.name).Nodup ∧
        ∀ objectType ∈ objectTypes, objectType.name ∉ names) ∧
      (compileObjects index names semanticIds objectTypes).2.1.keys.Perm (semanticIds.keys ++
        (compileObjects index names semanticIds objectTypes).1.flatMap
          CompiledObjectTypeDefinition.declaredIds) := by
  induction objectTypes generalizing index names semanticIds with
  | nil =>
    exact ⟨.nil, ⟨List.nodup_nil, fun _ member => absurd member List.not_mem_nil⟩,
      by simp [compileObjects]⟩
  | cons objectType rest ih =>
    rw [compileObjects] at quiet ⊢
    obtain ⟨here, others⟩ := List.append_eq_nil_iff.mp quiet
    obtain ⟨new, added, compiled⟩ := compileObject_quiet here
    obtain ⟨all, ⟨distinct, fresh⟩, listed⟩ := ih others
    refine ⟨.cons compiled all, ⟨?_, fun other member => ?_⟩, ?_⟩
    · rw [List.map_cons, List.nodup_cons]
      refine ⟨fun again => ?_, distinct⟩
      obtain ⟨other, member, same⟩ := List.mem_map.mp again
      exact fresh other member (same ▸ List.mem_cons_self)
    · rcases List.mem_cons.mp member with rfl | member
      · exact new
      · exact fun there => fresh other member (List.mem_cons_of_mem _ there)
    · rw [List.flatMap_cons, ← List.append_assoc]
      exact listed.trans (List.Perm.append_right _ added)

variable {objects : List CompiledObjectTypeDefinition}

theorem map_name_of_compilesTo (all : List.Forall₂ CompilesTo objectTypes objects) :
    objects.map CompiledObjectTypeDefinition.name = objectTypes.map ObjectTypeDefinition.name := by
  induction all with
  | nil => rfl
  | cons compiled _ ih => rw [List.map_cons, List.map_cons, compiled.name, ih]

theorem compileInterfaces_quiet {interfaceTypes : List InterfaceTypeDefinition}
    (quiet : (compileInterfaces index names interfaceTypes).2 = []) :
    ((compileInterfaces index names interfaceTypes).1.map CompiledInterfaceTypeDefinition.name).Nodup ∧
      ∀ interface ∈ (compileInterfaces index names interfaceTypes).1, interface.name ∉ names := by
  induction interfaceTypes generalizing index names with
  | nil => exact ⟨List.nodup_nil, fun _ member => absurd member List.not_mem_nil⟩
  | cons interface rest ih =>
    rw [compileInterfaces] at quiet ⊢
    obtain ⟨here, others⟩ := List.append_eq_nil_iff.mp quiet
    unfold compileInterface at here
    simp only [List.append_eq_nil_iff, reportDuplicate_eq_nil] at here
    obtain ⟨distinct, fresh⟩ := ih others
    refine ⟨?_, fun other member => ?_⟩
    · rw [List.map_cons, List.nodup_cons]
      refine ⟨fun again => ?_, distinct⟩
      obtain ⟨other, member, same⟩ := List.mem_map.mp again
      exact fresh other member (same ▸ List.mem_cons_self)
    · rcases List.mem_cons.mp member with rfl | member
      · exact here.1.2
      · exact fun there => fresh other member (List.mem_cons_of_mem _ there)

variable {typeName : String}

/-- A quiet check of one interface property: it is implemented with its type. -/
theorem checkInterfaceProperty_quiet {properties : Dict String CompiledPropertyDefinition}
    {interfaceProperty : CompiledPropertyDefinition}
    (quiet : checkInterfaceProperty typeName path properties interfaceProperty = []) :
    ∃ implementation, properties.get? interfaceProperty.name = some implementation ∧
      implementation.valueType = interfaceProperty.valueType ∧
      (interfaceProperty.required → implementation.required) := by
  unfold checkInterfaceProperty at quiet
  split at quiet
  · exact absurd quiet (List.cons_ne_nil _ _)
  · next implementation found =>
    split at quiet
    · exact absurd quiet (List.cons_ne_nil _ _)
    · next typed =>
      split at quiet
      · exact absurd quiet (List.cons_ne_nil _ _)
      · next needed =>
        refine ⟨implementation, found, not_not.mp typed, fun required => ?_⟩
        simpa [required] using needed

/-- Quiet checks of the interfaces of an object type: all are declared and implemented. -/
theorem checkInterfaces_quiet {objectPath : String} {interfaces : Dict String CompiledInterfaceTypeDefinition}
    {properties : Dict String CompiledPropertyDefinition} {seen : List String}
    (quiet : checkInterfaces typeName objectPath interfaces properties index seen names = []) :
    ∀ name ∈ names, ∃ interface, interfaces.get? name = some interface ∧
      ∀ prop ∈ interface.properties, ∃ implementation,
        properties.get? prop.name = some implementation ∧
        implementation.valueType = prop.valueType ∧ (prop.required → implementation.required) := by
  induction names generalizing index seen with
  | nil => exact fun _ member => absurd member List.not_mem_nil
  | cons first rest ih =>
    rw [checkInterfaces] at quiet
    obtain ⟨here, others⟩ := List.append_eq_nil_iff.mp quiet
    intro name member
    rcases List.mem_cons.mp member with rfl | member
    · split at here
      · exact absurd here (List.cons_ne_nil _ _)
      · split at here
        · exact absurd here (List.cons_ne_nil _ _)
        · next interface found =>
          refine ⟨interface, found, fun prop declared => ?_⟩
          exact checkInterfaceProperty_quiet (List.flatMap_eq_nil_iff.mp here prop declared)
    · exact ih others name member

def compiledObjects (draft : OntologyPackageDraft) : List CompiledObjectTypeDefinition :=
  (objectPass draft).1

def compiledInterfaces (draft : OntologyPackageDraft) : List CompiledInterfaceTypeDefinition :=
  (interfacePass draft).1

/-- What a draft has to be for `compile` to return a schema, as far as object types go. -/
structure Accepted (draft : OntologyPackageDraft) (schema : CompiledOntologySchema) : Prop where
  objectTypes : schema.objectTypes =
    sortBy CompiledObjectTypeDefinition.semanticId (compiledObjects draft)
  interfaceTypes : schema.interfaceTypes =
    sortBy CompiledInterfaceTypeDefinition.name (compiledInterfaces draft)
  interfaces : (interfacePass draft).2 = []
  objects : (objectPass draft).2.2 = []
  parents : validateParents draft.objectTypes = []
  cycles : validateParentCycles draft.objectTypes = []
  implementations : validateInterfaceImplementations draft.objectTypes (compiledObjects draft)
    (compiledInterfaces draft) = []

variable {draft : OntologyPackageDraft} {schema : CompiledOntologySchema}

theorem compile_accepted (success : compile draft = .ok schema) : Accepted draft schema := by
  unfold compile at success
  split at success
  · cases success
  · next actions _ =>
    split at success
    · next quiet =>
      unfold typeDiagnostics at quiet
      simp only [List.append_eq_nil_iff] at quiet
      obtain ⟨⟨⟨⟨⟨⟨⟨_, interfaces⟩, objects⟩, parents⟩, cycles⟩, implementations⟩, _⟩, _⟩ := quiet
      rw [Except.ok.injEq] at success
      subst success
      exact ⟨rfl, rfl, interfaces, objects, parents, cycles, implementations⟩
    · cases success

/-!
## What a published action was checked for

A compiled action names a concrete object type by its id, and the compiler has found the
property of its effect by its id, on the type itself or on an ancestor.
-/

/-- The target and the property that the compiler found for an action. -/
structure Targets (objects : List CompiledObjectTypeDefinition) (action : CompiledActionDefinition)
    (target : CompiledObjectTypeDefinition) (prop : CompiledPropertyDefinition) : Prop where
  found : (objectsById objects).get? action.targetObjectTypeId = some target
  concrete : target.abstract = false
  declared : resolvedPropertyById (objectsByName objects) ((objectsByName objects).keys.length + 1)
    target action.effect.propertyId = some (some prop)

theorem checkActionTarget_quiet {found : Option CompiledObjectTypeDefinition}
    (quiet : checkActionTarget path found = []) :
    ∃ target, found = some target ∧ target.abstract = false := by
  cases found with
  | none => exact absurd quiet (List.cons_ne_nil _ _)
  | some target =>
    simp only [checkActionTarget] at quiet
    split at quiet
    · exact absurd quiet (List.cons_ne_nil _ _)
    · next concrete => exact ⟨target, rfl, Bool.eq_false_iff.mpr concrete⟩

theorem checkActionEffect_quiet {parameters : List CompiledActionParameterDefinition}
    {target : CompiledObjectTypeDefinition} {found : Option CompiledPropertyDefinition}
    {effect : SetPropertyEffectDefinition}
    (quiet : checkActionEffect path parameters (some target) found effect = []) :
    ∃ prop, found = some prop := by
  unfold checkActionEffect at quiet
  have here := (List.append_eq_nil_iff.mp quiet).1
  cases found with
  | none => simp at here
  | some prop => exact ⟨prop, rfl⟩

/-- An action compiled without a report has a target with the property of its effect. -/
theorem compileAction_quiet {later : SemanticIds} {action : ActionDefinition}
    {compiled : CompiledActionDefinition}
    (ran : compileAction (objectsById objects) (objectsByName objects) path names semanticIds action =
      some (compiled, later, [])) : ∃ target prop, Targets objects compiled target prop := by
  unfold compileAction at ran
  obtain ⟨effect, looked, result⟩ := Option.map_eq_some_iff.mp ran
  simp only [Prod.mk.injEq, List.append_eq_nil_iff] at result
  obtain ⟨rfl, _, ⟨⟨⟨_, targeted⟩, effective⟩, _⟩⟩ := result
  obtain ⟨target, found, concrete⟩ := checkActionTarget_quiet targeted
  rw [found] at looked
  cases given : action.effect with
  | none =>
    rw [given, compileEffect, Option.some.injEq] at looked
    subst looked
    exact absurd effective (List.cons_ne_nil _ _)
  | some wanted =>
    rw [given, compileEffect] at looked
    obtain ⟨resolved, declared, rfl⟩ := Option.map_eq_some_iff.mp looked
    obtain ⟨prop, rfl⟩ := checkActionEffect_quiet effective
    exact ⟨target, prop, found, concrete, declared⟩

theorem compileActions_quiet {actions : List ActionDefinition} {compiled : List CompiledActionDefinition}
    (ran : compileActions (objectsById objects) (objectsByName objects) index names semanticIds actions =
      some (compiled, [])) : ∀ action ∈ compiled, ∃ target prop, Targets objects action target prop := by
  induction actions generalizing index names semanticIds compiled with
  | nil =>
    rw [compileActions, Option.some.injEq, Prod.mk.injEq] at ran
    obtain ⟨rfl, _⟩ := ran
    exact fun _ member => absurd member List.not_mem_nil
  | cons action rest ih =>
    rw [compileActions] at ran
    split at ran
    · cases ran
    · next here first =>
      obtain ⟨others, after, result⟩ := Option.map_eq_some_iff.mp ran
      rw [Prod.mk.injEq, List.append_eq_nil_iff] at result
      obtain ⟨rfl, quiet, quietToo⟩ := result
      obtain ⟨first', ids, reported⟩ := here
      obtain ⟨others', reportedToo⟩ := others
      subst quiet quietToo
      exact List.forall_mem_cons.mpr ⟨compileAction_quiet first, (ih after)⟩

/-- Every action of a compiled schema has its target and its property. -/
theorem compile_targets (success : compile draft = .ok schema) {action : CompiledActionDefinition}
    (published : action ∈ schema.actions) :
    ∃ target prop, Targets (compiledObjects draft) action target prop := by
  unfold compile at success
  split at success
  · cases success
  · next actions ran =>
    split at success
    · next quiet =>
      rw [Except.ok.injEq] at success
      subst success
      obtain ⟨compiled, reported⟩ := actions
      have silent : reported = [] := (List.append_eq_nil_iff.mp quiet).2
      subst silent
      exact compileActions_quiet ran action (mem_sortBy.mp published)
    · cases success

end Loushang.Schema
