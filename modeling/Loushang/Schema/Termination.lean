import Loushang.Lib.ClimbingSearch
import Loushang.Schema.Acceptance
import Loushang.Schema.Cycles

/-!
# When validation ends, and what it says about cycles

The search for parent cycles and the check of interfaces end at a depth bounded by the
declared names. The lookup of an action's property has no such bound: over a cycle it may
climb forever.
-/
namespace Loushang.Schema
open Loushang.Lib Loushang.Lib.ClimbingSearch

section Bounds

theorem length_filter_lt {names : List String} {p q : String → Bool} {name : String}
    (weaker : ∀ other, q other = (p other && other ≠ name)) (member : name ∈ names) (was : p name) :
    (names.filter q).length < (names.filter p).length := by
  have twice : names.filter q = (names.filter p).filter (· ≠ name) := by
    rw [List.filter_filter]
    exact List.filter_congr fun other _ => (weaker other).trans (Bool.and_comm _ _)
  rw [twice]
  exact List.length_filter_lt_length_iff_exists.mpr ⟨name, List.mem_filter.mpr ⟨member, was⟩, by simp⟩

/-- Deeper than there are declared names off the path, the compiler's map does not change. -/
theorem resolvedProperties_depth {objects : Dict String CompiledObjectTypeDefinition} {depth : Nat}
    {visiting : List String} {name : String}
    (enough : (objects.keys.filter (· ∉ visiting)).length ≤ depth) :
    resolvedProperties objects (depth + 1) visiting name = resolvedProperties objects depth visiting name := by
  have fewer : ∀ {visiting name objectType}, objects.get? name = some objectType → name ∉ visiting →
      (objects.keys.filter (· ∉ name :: visiting)).length < (objects.keys.filter (· ∉ visiting)).length := by
    intro visiting name objectType found fresh
    have declared : name ∈ objects.keys := Dict.get?_isSome.mp (found ▸ rfl)
    exact length_filter_lt (fun other => by simp [Bool.and_comm]) declared (by simpa using fresh)
  induction depth generalizing visiting name with
  | zero =>
    rw [resolvedProperties, resolvedProperties]
    split
    · rfl
    · next fresh =>
      cases found : objects.get? name with
      | none => rfl
      | some objectType => exact absurd (fewer found fresh) (by omega)
  | succ depth ih =>
    rw [resolvedProperties, resolvedProperties]
    split
    · rfl
    · next fresh =>
      cases found : objects.get? name with
      | none => rfl
      | some objectType =>
        have less := fewer found fresh
        have same : ∀ parentName,
            resolvedProperties objects (depth + 1) (name :: visiting) parentName =
              resolvedProperties objects depth (name :: visiting) parentName := fun _ =>
          ih (by omega)
        simp only [same]

variable {byName : Dict String (ObjectTypeDefinition × Nat)}

/-- The declared types that a search would enter. -/
def CycleSearch.toEnter (byName : Dict String (ObjectTypeDefinition × Nat)) (search : CycleSearch) :
    List String :=
  byName.keys.filter fun name => (search.state.get? name).getD 0 = 0

/-- What one search leaves behind: no type that was entered is new again. -/
def CycleSearch.Ages (search later : CycleSearch) : Prop :=
  ∀ name, (later.state.get? name).getD 0 = 0 → (search.state.get? name).getD 0 = 0

theorem CycleSearch.Ages.toEnter_le {search later : CycleSearch} (ages : search.Ages later) :
    (later.toEnter byName).length ≤ (search.toEnter byName).length := by
  apply List.Sublist.length_le
  apply List.monotone_filter_right
  intro name new
  rw [decide_eq_true_eq] at new ⊢
  exact ages name new

theorem CycleSearch.ages_set (search : CycleSearch) (name : String) {state : Nat} (positive : state ≠ 0)
    {later : CycleSearch} (same : later.state = search.state.set name state) : search.Ages later := by
  intro other new
  rw [same, Dict.get?_set] at new
  split at new
  · exact absurd new positive
  · exact new

theorem CycleSearch.toEnter_enter {search : CycleSearch} {name : String} {declaration}
    (found : byName.get? name = some declaration) (fresh : (search.state.get? name).getD 0 = 0) :
    ((search.enter name).toEnter byName).length < (search.toEnter byName).length := by
  have declared : name ∈ byName.keys := Dict.get?_isSome.mp (by rw [found]; rfl)
  refine length_filter_lt (fun other => ?_) declared (by simpa using fresh)
  rw [CycleSearch.enter, Dict.get?_set]
  by_cases same : other = name <;> simp [same]

variable (byName) in
theorem CycleSearch.ages_consider {visit : CycleSearch → String → CycleSearch}
    (ages : ∀ search name, CycleSearch.Ages search (visit search name)) (objectIndex : Nat)
    (search : CycleSearch) (parent : String × Nat) :
    search.Ages (search.consider byName visit objectIndex parent) := by
  unfold CycleSearch.consider
  split
  · exact fun _ => id
  · split
    · exact ages search parent.1
    · split
      · unfold CycleSearch.report
        dsimp only
        split <;> exact fun _ => id
      · exact fun _ => id

variable (byName) in
theorem ages_visitParents (depth : Nat) (search : CycleSearch) (name : String) :
    search.Ages (visitParents byName depth search name) := by
  induction depth generalizing search name with
  | zero => exact fun _ => id
  | succ depth ih =>
    rw [visitParents]
    split
    · exact fun _ => id
    · next objectType objectIndex _ =>
      have above : ∀ (parents : List (String × Nat)) (search : CycleSearch), search.Ages
          (parents.foldl (CycleSearch.consider byName (visitParents byName depth) objectIndex) search) := by
        intro parents
        induction parents with
        | nil => exact fun _ _ => id
        | cons parent rest more =>
          exact fun search name new => search.ages_consider byName ih objectIndex parent name (more _ name new)
      have entered : search.Ages (search.enter name) := search.ages_set name Nat.one_ne_zero rfl
      exact fun other new => entered other (above _ _ other (CycleSearch.ages_set _ name (by decide) rfl other new))

/-- Deeper than there are types to enter, the search for cycles does not change. -/
theorem visitParents_depth {depth : Nat} {search : CycleSearch} {name : String}
    (fresh : (search.state.get? name).getD 0 = 0) (enough : (search.toEnter byName).length ≤ depth) :
    visitParents byName (depth + 1) search name = visitParents byName depth search name := by
  induction depth generalizing search name with
  | zero =>
    rw [visitParents, visitParents]
    cases found : byName.get? name with
    | none => rfl
    | some declaration =>
      have fewer := CycleSearch.toEnter_enter found fresh
      omega
  | succ depth ih =>
    rw [visitParents, visitParents]
    cases found : byName.get? name with
    | none => rfl
    | some declaration =>
      obtain ⟨objectType, objectIndex⟩ := declaration
      have fewer := CycleSearch.toEnter_enter found fresh
      have same : ∀ (parents : List (String × Nat)) (search : CycleSearch),
          (search.toEnter byName).length ≤ depth →
          parents.foldl (CycleSearch.consider byName (visitParents byName (depth + 1)) objectIndex) search =
            parents.foldl (CycleSearch.consider byName (visitParents byName depth) objectIndex) search := by
        intro parents
        induction parents with
        | nil => exact fun _ _ => rfl
        | cons parent rest more =>
          intro search enough
          have step : search.consider byName (visitParents byName (depth + 1)) objectIndex parent =
              search.consider byName (visitParents byName depth) objectIndex parent := by
            unfold CycleSearch.consider
            split
            · rfl
            · split
              · next new => exact ih new enough
              · rfl
          have ages := search.ages_consider byName (ages_visitParents byName depth) objectIndex parent
          rw [List.foldl_cons, List.foldl_cons, step]
          exact more _ (ages.toEnter_le.trans enough)
      simp only [same _ (search.enter name) (by omega)]

end Bounds

section Lookup

def parentObjects (objects : Dict String CompiledObjectTypeDefinition)
    (objectType : CompiledObjectTypeDefinition) : List CompiledObjectTypeDefinition :=
  objectType.parentTypes.filterMap objects.get?

theorem firstInherited_eq (objects : Dict String CompiledObjectTypeDefinition)
    (lookUp : CompiledObjectTypeDefinition → Option (Option CompiledPropertyDefinition))
    (names : List String) :
    firstInherited objects lookUp names = firstOf lookUp (names.filterMap objects.get?) := by
  induction names with
  | nil => rfl
  | cons parentName rest ih =>
    rw [firstInherited]
    cases found : objects.get? parentName with
    | none => rw [List.filterMap_cons_none found, ← ih]
    | some parent =>
      rw [List.filterMap_cons_some found, firstOf, ← ih]
      simp only
      rcases lookUp parent with _ | _ | _ <;> rfl

/-- The lookup of an action's property is the search that remembers nothing. -/
theorem resolvedPropertyById_eq (objects : Dict String CompiledObjectTypeDefinition) (depth : Nat)
    (objectType : CompiledObjectTypeDefinition) (propertyId : String) :
    resolvedPropertyById objects depth objectType propertyId =
      climb (fun object => object.propertyById propertyId) (parentObjects objects) depth objectType := by
  induction depth generalizing objectType with
  | zero => rfl
  | succ depth ih =>
    have same : (fun parent => resolvedPropertyById objects depth parent propertyId) =
        climb (fun object => object.propertyById propertyId) (parentObjects objects) depth :=
      funext ih
    rw [resolvedPropertyById, climb, same, firstInherited_eq, parentObjects]
    cases objectType.propertyById propertyId <;> rfl

/-- The lookup of the action's property climbs a cycle forever. -/
def EndlessLookup (objects : List CompiledObjectTypeDefinition) (action : ActionDefinition) : Prop :=
  ∃ effect target, action.effect = some effect ∧
    (objectsById objects).get? action.targetObjectTypeId = some target ∧
    Endless (fun object : CompiledObjectTypeDefinition => object.propertyById effect.propertyId)
      (parentObjects (objectsByName objects)) target

variable {objects : List CompiledObjectTypeDefinition} {names : List String}
  {semanticIds : SemanticIds}

theorem compileAction_eq_none {path : String} {action : ActionDefinition} :
    compileAction (objectsById objects) (objectsByName objects) path names semanticIds action = none ↔
      EndlessLookup objects action := by
  unfold compileAction EndlessLookup
  cases given : action.effect with
  | none => simp [compileEffect]
  | some effect =>
    cases declared : (objectsById objects).get? action.targetObjectTypeId with
    | none => simp [compileEffect]
    | some target =>
      have inside : ∀ object : CompiledObjectTypeDefinition,
          ∀ parent ∈ parentObjects (objectsByName objects) object,
            parent ∈ (objectsByName objects).values := by
        intro object parent member
        obtain ⟨name, _, found⟩ := List.mem_filterMap.mp member
        exact List.mem_map.mpr ⟨_, Dict.mem_of_get? found, rfl⟩
      have enough : (objectsByName objects).values.length < (objectsByName objects).keys.length + 1 := by
        rw [Dict.values, Dict.keys, List.length_map, List.length_map]
        exact Nat.lt_succ_self _
      simp only [compileEffect, Option.map_eq_none_iff, Option.some.injEq, resolvedPropertyById_eq]
      rw [climb_eq_none_iff inside enough]
      constructor
      · exact fun endless => ⟨effect, target, rfl, rfl, endless⟩
      · rintro ⟨_, _, rfl, rfl, endless⟩
        exact endless

theorem compileActions_eq_none {index : Nat} {actions : List ActionDefinition} :
    compileActions (objectsById objects) (objectsByName objects) index names semanticIds actions = none ↔
      ∃ action ∈ actions, EndlessLookup objects action := by
  induction actions generalizing index names semanticIds with
  | nil => simp [compileActions]
  | cons action rest ih =>
    rw [compileActions, List.exists_mem_cons_iff]
    cases here : compileAction (objectsById objects) (objectsByName objects) s!"$.actions[{index}]"
        names semanticIds action with
    | none => simp [compileAction_eq_none.mp here]
    | some compiled =>
      have ends : ¬ EndlessLookup objects action := by
        intro endless
        rw [← compileAction_eq_none, here] at endless
        cases endless
      simp only [Option.map_eq_none_iff, ih, ends, false_or]

end Lookup

section Codes

/-- None of these diagnostics is about a cycle. -/
def NoCycle (diagnostics : List SchemaDiagnostic) : Prop :=
  ∀ diagnostic ∈ diagnostics, diagnostic.code ≠ "parent_type_cycle"

@[simp] theorem noCycle_nil : NoCycle [] := fun _ member => absurd member List.not_mem_nil

@[simp] theorem noCycle_append {front back : List SchemaDiagnostic} :
    NoCycle (front ++ back) ↔ NoCycle front ∧ NoCycle back := by
  unfold NoCycle
  simp only [List.mem_append, or_imp, forall_and]

@[simp] theorem noCycle_cons {diagnostic : SchemaDiagnostic} {rest : List SchemaDiagnostic} :
    NoCycle (diagnostic :: rest) ↔ diagnostic.code ≠ "parent_type_cycle" ∧ NoCycle rest := by
  simp [NoCycle]

@[simp] theorem noCycle_validateIdentifier (value path : String) :
    NoCycle (validateIdentifier value path) := by
  unfold validateIdentifier
  split <;> simp

@[simp] theorem noCycle_registerSemanticId (value : Option String) (path : String)
    (semanticIds : SemanticIds) : NoCycle (registerSemanticId value path semanticIds).2.2 := by
  unfold registerSemanticId
  split
  · simp
  · split <;> simp

@[simp] theorem noCycle_compileStateAuthority (value : Option (Draft StateAuthority)) (path : String) :
    NoCycle (compileStateAuthority value path).2 := by
  unfold compileStateAuthority
  split <;> simp

theorem noCycle_reportDuplicate {code : String} (other : code ≠ "parent_type_cycle")
    (what path name : String) (names : List String) : NoCycle (reportDuplicate code what path name names) := by
  unfold reportDuplicate
  split <;> simp [other]

theorem noCycle_compileProperty (path : String) (names : List String)
    (semanticIds : Option SemanticIds) (prop : PropertyDefinition) :
    NoCycle (compileProperty path names semanticIds prop).2.2 := by
  have identity : NoCycle (compilePropertyIdentity prop path semanticIds).2.2 := by
    unfold compilePropertyIdentity
    cases semanticIds with
    | none =>
      simp only [noCycle_append]
      constructor <;> split <;> simp
    | some known => simp
  have value : ∀ identity, NoCycle (compilePropertyValue prop path identity).2 := by
    intro identity
    unfold compilePropertyValue
    cases normalizeValueType prop.valueType <;> cases prop.default <;> simp
  simp [compileProperty, identity, value, noCycle_reportDuplicate]

theorem noCycle_compileProperties (path : String) (index : Nat) (names : List String)
    (semanticIds : Option SemanticIds) (properties : List PropertyDefinition) :
    NoCycle (compileProperties path index names semanticIds properties).2.2 := by
  induction properties generalizing index names semanticIds with
  | nil => exact noCycle_nil
  | cons prop rest ih =>
    exact noCycle_append.mpr ⟨noCycle_compileProperty _ names semanticIds prop, ih _ _ _⟩

theorem noCycle_compileInterfaces (index : Nat) (names : List String)
    (interfaceTypes : List InterfaceTypeDefinition) :
    NoCycle (compileInterfaces index names interfaceTypes).2 := by
  induction interfaceTypes generalizing index names with
  | nil => exact noCycle_nil
  | cons interface rest ih =>
    refine noCycle_append.mpr ⟨?_, ih _ _⟩
    simp [compileInterface, compilePropertyDefinitions, noCycle_compileProperties, noCycle_reportDuplicate]

theorem noCycle_compileObjects (index : Nat) (names : List String) (semanticIds : SemanticIds)
    (objectTypes : List ObjectTypeDefinition) :
    NoCycle (compileObjects index names semanticIds objectTypes).2.2 := by
  induction objectTypes generalizing index names semanticIds with
  | nil => exact noCycle_nil
  | cons objectType rest ih =>
    refine noCycle_append.mpr ⟨?_, ih _ _ _⟩
    simp [compileObject, compilePropertyDefinitions, noCycle_compileProperties, noCycle_reportDuplicate]

theorem noCycle_validateParents (objectTypes : List ObjectTypeDefinition) :
    NoCycle (validateParents objectTypes) := by
  intro diagnostic member
  obtain ⟨entry, _, inside⟩ := List.mem_flatMap.mp member
  obtain ⟨parent, _, here⟩ := List.mem_flatMap.mp inside
  dsimp only at here
  split at here
  · exact absurd here List.not_mem_nil
  · rw [List.mem_singleton.mp here]
    simp

theorem noCycle_checkInterfaces (typeName objectPath : String)
    (interfaces : Dict String CompiledInterfaceTypeDefinition)
    (properties : Dict String CompiledPropertyDefinition) (index : Nat) (seen names : List String) :
    NoCycle (checkInterfaces typeName objectPath interfaces properties index seen names) := by
  induction names generalizing index seen with
  | nil => exact noCycle_nil
  | cons name rest ih =>
    refine noCycle_append.mpr ⟨?_, ih _ _⟩
    split
    · simp
    · split
      · simp
      · intro diagnostic member
        obtain ⟨prop, _, here⟩ := List.mem_flatMap.mp member
        unfold checkInterfaceProperty at here
        split at here
        · rw [List.mem_singleton.mp here]
          simp
        · split at here
          · rw [List.mem_singleton.mp here]
            simp
          · split at here
            · rw [List.mem_singleton.mp here]
              simp
            · exact absurd here List.not_mem_nil

theorem noCycle_validateInterfaceImplementations (drafts : List ObjectTypeDefinition)
    (objects : List CompiledObjectTypeDefinition) (interfaces : List CompiledInterfaceTypeDefinition) :
    NoCycle (validateInterfaceImplementations drafts objects interfaces) := by
  intro diagnostic member
  obtain ⟨entry, _, here⟩ := List.mem_flatMap.mp member
  exact noCycle_checkInterfaces _ _ _ _ _ _ _ diagnostic here

theorem noCycle_compileLinks (objectNames : List String) (index : Nat) (names : List String)
    (semanticIds : SemanticIds) (links : List LinkTypeDefinition) :
    NoCycle (compileLinks objectNames index names semanticIds links).2.2 := by
  induction links generalizing index names semanticIds with
  | nil => exact noCycle_nil
  | cons link rest ih =>
    refine noCycle_append.mpr ⟨?_, ih _ _ _⟩
    have endpoint : ∀ path role name, NoCycle (checkEndpoint objectNames path role name) := by
      intro path role name
      unfold checkEndpoint
      split <;> simp
    unfold compileLink
    split <;> simp [endpoint, noCycle_reportDuplicate]

theorem noCycle_compileParameters (actionPath : String) (index : Nat) (names : List String)
    (parameters : List (Option ActionParameterDefinition)) :
    NoCycle (compileParameters actionPath index names parameters).2 := by
  induction parameters generalizing index names with
  | nil => exact noCycle_nil
  | cons parameter rest ih =>
    cases parameter with
    | none => exact noCycle_cons.mpr ⟨by simp, ih _ _⟩
    | some parameter =>
      refine noCycle_append.mpr ⟨?_, ih _ _⟩
      unfold compileParameter
      split <;> simp [noCycle_reportDuplicate]

variable {byName : Dict String CompiledObjectTypeDefinition}

theorem noCycle_compileEffect {actionPath : String} {parameters : List CompiledActionParameterDefinition}
    {target : Option CompiledObjectTypeDefinition} {effect : Option SetPropertyEffectDefinition}
    {compiled : CompiledSetPropertyEffectDefinition × List SchemaDiagnostic}
    (success : compileEffect actionPath byName parameters target effect = some compiled) :
    NoCycle compiled.2 := by
  cases effect with
  | none =>
    rw [compileEffect, Option.some.injEq] at success
    subst success
    simp
  | some effect =>
    obtain ⟨targetProperty, _, rfl⟩ := Option.map_eq_some_iff.mp success
    simp only [checkActionEffect, noCycle_append]
    constructor
    · split <;> simp
    · split
      · simp
      · split <;> simp

theorem noCycle_compileActions {byId : Dict String CompiledObjectTypeDefinition} {index : Nat}
    {names : List String} {semanticIds : SemanticIds} {actions : List ActionDefinition}
    {compiled : List CompiledActionDefinition × List SchemaDiagnostic}
    (success : compileActions byId byName index names semanticIds actions = some compiled) :
    NoCycle compiled.2 := by
  induction actions generalizing index names semanticIds compiled with
  | nil =>
    rw [compileActions, Option.some.injEq] at success
    subst success
    exact noCycle_nil
  | cons action rest ih =>
    rw [compileActions] at success
    split at success
    · cases success
    · next here found =>
      obtain ⟨others, compiledRest, rfl⟩ := Option.map_eq_some_iff.mp success
      refine noCycle_append.mpr ⟨?_, ih compiledRest⟩
      unfold compileAction at found
      obtain ⟨effect, compiledEffect, rfl⟩ := Option.map_eq_some_iff.mp found
      have target : ∀ target, NoCycle (checkActionTarget s!"$.actions[{index}]" target) := by
        intro target
        unfold checkActionTarget
        split
        · simp
        · split <;> simp
      simp only [noCycle_append, noCycle_validateIdentifier, noCycle_registerSemanticId,
        noCycle_compileParameters, noCycle_compileEffect compiledEffect, target, true_and, and_true,
        noCycle_reportDuplicate (show "duplicate_action" ≠ "parent_type_cycle" by simp)]
      constructor <;> split <;> simp

theorem noCycle_validateHeader (draft : OntologyPackageDraft) : NoCycle (validateHeader draft) := by
  unfold validateHeader
  simp only [noCycle_append, noCycle_validateIdentifier, true_and]
  constructor <;> split <;> simp

end Codes

/-- A parent relation among the declared names, whichever declaration of a name has it. -/
def DeclaredParent (draft : OntologyPackageDraft) (child parent : String) : Prop :=
  ∃ objectType ∈ draft.objectTypes, objectType.name = child ∧ parent ∈ objectType.parentTypes ∧
    parent ∈ draft.objectTypes.map ObjectTypeDefinition.name

variable {draft : OntologyPackageDraft} {child parent : String}

/-- Validation ends exactly when every lookup of an action's property does. -/
theorem actionPass_eq_none :
    actionPass draft = none ↔ ∃ action ∈ draft.actions, EndlessLookup (compiledObjects draft) action :=
  compileActions_eq_none

theorem validate_eq (draft : OntologyPackageDraft) :
    validate draft = (actionPass draft).map fun actions => typeDiagnostics draft ++ actions.2 := by
  unfold validate compile
  cases actionPass draft with
  | none => rfl
  | some actions =>
    rw [Option.map_some]
    simp only
    by_cases quiet : typeDiagnostics draft ++ actions.2 = []
    · rw [if_pos quiet, quiet]
    · rw [if_neg quiet]

/-- The diagnostics about cycles are those of the search. -/
theorem cycleDiagnostic_iff {diagnostics : List SchemaDiagnostic}
    (returned : validate draft = some diagnostics) :
    (∃ diagnostic ∈ diagnostics, diagnostic.code = "parent_type_cycle") ↔
      Cyclic (ParentOf (declarations draft.objectTypes)) := by
  rw [validate_eq] at returned
  obtain ⟨actions, compiled, rfl⟩ := Option.map_eq_some_iff.mp returned
  have silent : ∀ {diagnostics : List SchemaDiagnostic}, NoCycle diagnostics →
      ¬ ∃ diagnostic ∈ diagnostics, diagnostic.code = "parent_type_cycle" := by
    rintro diagnostics none_ ⟨diagnostic, member, code⟩
    exact none_ diagnostic member code
  have elsewhere : (∃ diagnostic ∈ typeDiagnostics draft ++ actions.2,
      diagnostic.code = "parent_type_cycle") ↔
      ∃ diagnostic ∈ validateParentCycles draft.objectTypes, diagnostic.code = "parent_type_cycle" := by
    unfold typeDiagnostics
    simp only [List.mem_append, or_and_right, exists_or]
    have interfaces : NoCycle (interfacePass draft).2 := noCycle_compileInterfaces _ _ _
    have objects : NoCycle (objectPass draft).2.2 := noCycle_compileObjects _ _ _ _
    have links : NoCycle (linkPass draft).2.2 := noCycle_compileLinks _ _ _ _ _
    simp only [silent (noCycle_validateHeader draft), silent interfaces, silent objects,
      silent (noCycle_validateParents _), silent (noCycle_validateInterfaceImplementations _ _ _),
      silent links, silent (noCycle_compileActions compiled), false_or, or_false]
  rw [elsewhere, ← validateParentCycles_iff]
  constructor
  · rintro ⟨diagnostic, member, _⟩ quiet
    rw [quiet] at member
    exact List.not_mem_nil member
  · intro loud
    obtain ⟨diagnostic, member⟩ := List.exists_mem_of_ne_nil _ loud
    exact ⟨diagnostic, member, cycle_code member⟩

/-- Validation ends with diagnostics that report every cycle, and only acyclic drafts compile. -/
structure Validates (draft : OntologyPackageDraft) : Prop where
  returns : ∃ diagnostics, validate draft = some diagnostics ∧
    (Cyclic (DeclaredParent draft) → ∃ diagnostic ∈ diagnostics, diagnostic.code = "parent_type_cycle")
  acyclic : ∀ schema, compile draft = .ok schema → ¬ Cyclic (DeclaredParent draft)

/-- Two types that are each other's parent, and an action on a property neither declares. -/
def mutualDraft : OntologyPackageDraft :=
  let object (name id : String) (parents : List String) : ObjectTypeDefinition :=
    ⟨name, some id, some (.member .ontologyOwned), [], parents, false, none, "", none, []⟩
  { packageId := "test.mutual"
    ns := "urn:test:mutual"
    version := "1.0.0"
    objectTypes := [object "A" "a" ["B"], object "B" "b" ["A"]]
    linkTypes := []
    interfaceTypes := []
    actions := [⟨"Set", "a", [some ⟨"value", .member .string, ""⟩], some ⟨"missing", "value"⟩,
      "policy", some "set", ""⟩] }

end Loushang.Schema
