import Loushang.Projection.Inheritance
import Loushang.Projection.PropertyFacts
import Loushang.Lib.Folds
import Loushang.Schema.Acceptance

/-!
# Published actions on their targets

The compiler looks up the property of an action by its id, through all ancestors of the
target. The runtime map of the target is by name: a type that redeclares an inherited name
hides the ancestor's property, and with it the id.
-/
namespace Loushang.Projection
open Loushang.Lib Loushang.Lib.Hierarchy Loushang.Facts Loushang.Schema

/-! ## Reports of unknown properties -/

section Reports
variable (schema : CompiledOntologySchema) (types : Dict Uuid String)

/-- What the loop over the property facts reports of a property that the subject's type has not. -/
def UnknownReport (candidate : (Uuid × PyStr) × List (StoredFact × Json)) (report : ProjectionDiagnostic) :
    Prop :=
  ∃ subjectType, types.get? candidate.1.1 = some subjectType ∧
    declarationOfText schema subjectType candidate.1.2 = none ∧
    report = ⟨"unknown_property", factPropertyPath candidate.1.1 candidate.1.2,
      .concat ["property semantic ID '", candidate.1.2, "' is not declared for object type '",
        subjectType, "'"]⟩

variable {schema types}

theorem resolvePropertyFact_unknown {lib : Stdlib} {state next : PropertyState}
    {candidate : (Uuid × PyStr) × List (StoredFact × Json)}
    (ran : resolvePropertyFact lib schema types state candidate = .ok next)
    (report : ProjectionDiagnostic) :
    (report ∈ next.diagnostics ∧ report.code = "unknown_property") ↔
      (report ∈ state.diagnostics ∧ report.code = "unknown_property") ∨
        UnknownReport schema types candidate report := by
  -- a report with another code adds nothing, and neither does a resolved property
  have other : ∀ {code : String} {path : PyStr} {message : List PyStr}, code ≠ "unknown_property" →
      ((report ∈ (state.report code path message).diagnostics ∧ report.code = "unknown_property") ↔
        (report ∈ state.diagnostics ∧ report.code = "unknown_property")) := by
    intro code path message different
    rw [PropertyState.report, List.mem_append, List.mem_singleton]
    constructor
    · rintro ⟨old | rfl, coded⟩
      · exact ⟨old, coded⟩
      · exact absurd coded different
    · exact fun ⟨old, coded⟩ => ⟨Or.inl old, coded⟩
  unfold resolvePropertyFact at ran
  dsimp only at ran
  split at ran
  · next missing =>
    cases ran
    rw [other (by decide)]
    simp [UnknownReport, missing]
  · next subjectType typed =>
    split at ran
    · next undeclared =>
      cases ran
      simp only [PropertyState.report, UnknownReport, typed, undeclared, List.mem_append,
        List.mem_singleton, Option.some.injEq, exists_eq_left', true_and]
      constructor
      · rintro ⟨old | new, coded⟩
        · exact Or.inl ⟨old, coded⟩
        · exact Or.inr new
      · rintro (⟨old, coded⟩ | new)
        · exact ⟨Or.inl old, coded⟩
        · exact ⟨Or.inr new, new ▸ rfl⟩
    · next name definition found =>
      have declared : ¬ UnknownReport schema types candidate report := by
        rintro ⟨subjectType', typed', undeclared, _⟩
        rw [typed, Option.some.injEq] at typed'
        subst typed'
        rw [found] at undeclared
        cases undeclared
      rw [or_iff_left declared]
      split at ran
      · cases ran
        exact other (by decide)
      · split at ran
        · obtain ⟨caughtValue, _, more⟩ := Except.bind_ok_iff.mp ran
          split at more
          · cases more
            exact other (by decide)
          · obtain ⟨selected, _, more⟩ := Except.bind_ok_iff.mp more
            obtain ⟨prop, _, more⟩ := Except.bind_ok_iff.mp more
            cases more
            exact Iff.rfl
        · cases ran
          exact other (by decide)

/-- The loop reports as unknown exactly the facts about properties their subjects have not. -/
theorem resolvePropertyFacts_unknown {lib : Stdlib} {initial final : PropertyState}
    {candidates : Dict (Uuid × PyStr) (List (StoredFact × Json))}
    (ran : resolvePropertyFacts lib schema candidates types initial = .ok final)
    (report : ProjectionDiagnostic) :
    (report ∈ final.diagnostics ∧ report.code = "unknown_property") ↔
      (report ∈ initial.diagnostics ∧ report.code = "unknown_property") ∨
        ∃ candidate ∈ candidates.entries, UnknownReport schema types candidate report := by
  have all := @foldlM_adds _ _ _ _ _ _ _ _
    (fun (state : PropertyState) report => report ∈ state.diagnostics ∧ report.code = "unknown_property")
    (UnknownReport schema types) (fun _ _ _ _ step => resolvePropertyFact_unknown step) ran report
  simpa only [mem_sortedOn] using all

theorem declarationOfText_isSome {typeName propertyId : String} :
    (declarationOfText schema typeName propertyId).isSome ↔
      ∃ name owner definition, (resolvedProperties schema typeName).get? name = some (owner, definition) ∧
        definition.semanticId = some propertyId := by
  rw [declarationOfText, PyStr.toString?_ofString, Option.bind_some, Dict.get?_isSome, declarationsById,
    Dict.mem_keys_update]
  simp only [Dict.keys_empty, List.not_mem_nil, false_or, List.map_map, List.mem_map]
  constructor
  · rintro ⟨⟨name, owner, definition⟩, listed, same⟩
    exact ⟨name, owner, definition, Dict.get?_of_mem listed, same⟩
  · rintro ⟨name, owner, definition, found, same⟩
    exact ⟨(name, owner, definition), Dict.mem_of_get? found, same⟩

end Reports

/-! ## The lookup of the compiler -/

/-- What the compiler finds belongs to a type on the walk up from where it looks. -/
theorem resolvedPropertyById_sound {objects : Dict String CompiledObjectTypeDefinition}
    (named : ∀ name object, objects.get? name = some object → object.name = name) {depth : Nat}
    {objectType : CompiledObjectTypeDefinition} {propertyId : String} {prop : CompiledPropertyDefinition}
    (known : objects.get? objectType.name = some objectType)
    (found : Schema.resolvedPropertyById objects depth objectType propertyId = some (some prop)) :
    ∃ owner, owner.name ∈ walk (compiledParents objects) depth objectType.name ∧
      objects.get? owner.name = some owner ∧ prop ∈ owner.properties ∧
      prop.semanticId = some propertyId := by
  induction depth generalizing objectType with
  | zero => cases found
  | succ depth ih =>
    rw [Schema.resolvedPropertyById] at found
    split at found
    · next direct here =>
      cases found
      have identified := List.find?_some here
      rw [decide_eq_true_eq] at identified
      exact ⟨objectType, self_mem_walk _ (Nat.succ_pos _), known, List.mem_of_find?_eq_some here,
        identified⟩
    · have parents : compiledParents objects objectType.name = objectType.parentTypes := by
        rw [compiledParents, known]
        rfl
      have climbs : ∀ names : List String,
          firstInherited objects
            (fun parent => Schema.resolvedPropertyById objects depth parent propertyId) names =
              some (some prop) →
          ∃ parentName ∈ names, ∃ parent, objects.get? parentName = some parent ∧
            Schema.resolvedPropertyById objects depth parent propertyId = some (some prop) := by
        intro names
        induction names with
        | nil => simp [firstInherited]
        | cons parentName rest more =>
          intro looked
          rw [firstInherited] at looked
          have later : firstInherited objects
              (fun parent => Schema.resolvedPropertyById objects depth parent propertyId) rest =
                some (some prop) →
              ∃ other ∈ parentName :: rest, ∃ parent, objects.get? other = some parent ∧
                Schema.resolvedPropertyById objects depth parent propertyId = some (some prop) := by
            intro looked
            obtain ⟨other, listed, parent⟩ := more looked
            exact ⟨other, List.mem_cons_of_mem _ listed, parent⟩
          split at looked
          · exact later looked
          · next parent located =>
            split at looked
            · exact later looked
            · exact ⟨parentName, List.mem_cons_self, parent, located, looked⟩
      obtain ⟨parentName, above, parent, located, there⟩ := climbs _ found
      have same := named parentName parent located
      subst same
      obtain ⟨owner, visited, rest⟩ := ih located there
      refine ⟨owner, ?_, rest⟩
      rw [Hierarchy.walk, parents, List.mem_append, List.mem_flatMap]
      exact Or.inl ⟨parent.name, above, visited⟩

/-! ## Visible declarations -/

section Visible
variable (schema : CompiledOntologySchema)

/-- The types that declare `property`, in the order in which the runtime leaves them. -/
def declaringTypes (typeName property : String) : List String :=
  (firstVisits [] (walk (schemaParents schema) schema.objectTypes.length typeName)).filter
    fun name => (ownProperty schema property name).isSome

/-- No type left after the owner of the id declares the name of its property again. -/
def Visible (typeName propertyId : String) : Prop :=
  ∀ owner ∈ schema.objectTypes,
    owner.name ∈ walk (schemaParents schema) schema.objectTypes.length typeName →
    ∀ prop ∈ owner.properties, prop.semanticId = some propertyId →
      (declaringTypes schema typeName prop.name).getLast? = some owner.name

instance (typeName propertyId : String) : Decidable (Visible schema typeName propertyId) :=
  inferInstanceAs (Decidable (∀ owner ∈ schema.objectTypes,
    owner.name ∈ walk (schemaParents schema) schema.objectTypes.length typeName →
    ∀ prop ∈ owner.properties, prop.semanticId = some propertyId →
      (declaringTypes schema typeName prop.name).getLast? = some owner.name))

/-- The action's property is one of the target at run time, and facts that assert it on an
object of the target's type are not among those reported as unknown. -/
structure Executable (action : CompiledActionDefinition) (target : CompiledObjectTypeDefinition) :
    Prop where
  resolved : ∃ name owner definition,
    (resolvedProperties schema target.name).get? name = some (owner, definition) ∧
      definition.semanticId = some action.effect.propertyId
  known : ∀ lib candidates types initial final,
    resolvePropertyFacts lib schema candidates types initial = .ok final →
    ∀ report ∈ final.diagnostics, report.code = "unknown_property" →
      report ∈ initial.diagnostics ∨ ∃ candidate ∈ candidates.entries,
        UnknownReport schema types candidate report ∧
          ¬ (types.get? candidate.1.1 = some target.name ∧
            candidate.1.2 = (action.effect.propertyId : PyStr))

end Visible

variable {schema : CompiledOntologySchema}

theorem executable_of_resolved {action : CompiledActionDefinition} {target : CompiledObjectTypeDefinition}
    (resolved : ∃ name owner definition,
      (resolvedProperties schema target.name).get? name = some (owner, definition) ∧
        definition.semanticId = some action.effect.propertyId) : Executable schema action target := by
  refine ⟨resolved, fun lib candidates types initial final ran report listed coded => ?_⟩
  rcases (resolvePropertyFacts_unknown ran report).mp ⟨listed, coded⟩ with
    ⟨old, _⟩ | ⟨candidate, there, unknown⟩
  · exact Or.inl old
  · refine Or.inr ⟨candidate, there, unknown, ?_⟩
    rintro ⟨typed, asserted⟩
    obtain ⟨subjectType, typed', undeclared, _⟩ := unknown
    rw [typed, Option.some.injEq] at typed'
    subst typed'
    have declared := declarationOfText_isSome.mpr resolved
    rw [asserted] at undeclared
    rw [undeclared] at declared
    cases declared

section Accepted
variable {draft : OntologyPackageDraft} {schema : CompiledOntologySchema}
  (accepted : Accepted draft schema)
include accepted

theorem objectTypeById_iff {id : String} {object : CompiledObjectTypeDefinition} :
    schema.objectTypeById id = some object ↔ object ∈ compiledObjects draft ∧ object.semanticId = id := by
  have nodup := (declaredIds_nodup accepted).2.1
  rw [CompiledOntologySchema.objectTypeById, accepted.objectTypes,
    Dict.find?_key_iff ((nodup_map_sortBy _ _).mpr nodup), mem_sortBy]

/-- The property of an action belongs to a type on the walk up from its target. -/
theorem exists_owner {action : CompiledActionDefinition} {target : CompiledObjectTypeDefinition}
    {prop : CompiledPropertyDefinition} (targets : Targets (compiledObjects draft) action target prop) :
    schema.objectTypeById action.targetObjectTypeId = some target ∧ target ∈ compiledObjects draft ∧
      ∃ owner ∈ compiledObjects draft,
        owner.name ∈ walk (schemaParents schema) schema.objectTypes.length target.name ∧
        prop ∈ owner.properties ∧ prop.semanticId = some action.effect.propertyId := by
  have byId := targets.found
  rw [objectsById, Dict.get?_index (declaredIds_nodup accepted).2.1,
    Dict.find?_key_iff (declaredIds_nodup accepted).2.1] at byId
  have found : ∀ name object, (objectsByName (compiledObjects draft)).get? name = some object ↔
      object ∈ compiledObjects draft ∧ object.name = name := by
    intro name object
    rw [← objectType_eq_get? accepted, objectType_iff accepted]
  obtain ⟨owner, visited, known, declares, identified⟩ := resolvedPropertyById_sound
    (fun name object located => ((found name object).mp located).2)
    ((found _ _).mpr ⟨byId.1, rfl⟩) targets.declared
  refine ⟨(objectTypeById_iff accepted).mpr byId, byId.1, owner, ((found _ _).mp known).1, ?_, declares,
    identified⟩
  obtain ⟨order, sorted, total, listed⟩ := exists_order accepted
  have member : target.name ∈ order := by
    rw [listed, ← map_name_of_compilesTo (compilesTo accepted)]
    exact List.mem_map_of_mem byId.1
  have place := List.idxOf_lt_length_of_mem member
  obtain ⟨compilerParents, runtimeParents⟩ := parents_eq accepted
  rw [compilerParents, length_keys accepted] at visited
  rw [runtimeParents, length_objectTypes accepted,
    walk_stable sorted member (by omega) (show order.idxOf target.name < draft.objectTypes.length + 1 by omega)]
  exact visited

variable {owner : String} {definition : CompiledPropertyDefinition}

/-- What the runtime resolves a name to: the last declaring type's own property. -/
theorem resolved_iff {typeName name : String}
    (declared : typeName ∈ draft.objectTypes.map ObjectTypeDefinition.name) :
    (resolvedProperties schema typeName).get? name = some (owner, definition) ↔
      ∃ last, (declaringTypes schema typeName name).getLast? = some last ∧
        ownProperty schema name last = some (owner, definition) := by
  rw [get?_runtime accepted declared, inherited, ← (parents_eq accepted).2, ← length_objectTypes accepted,
    Option.bind_eq_some_iff]
  rfl

theorem ownProperty_iff {name last : String} :
    ownProperty schema name last = some (owner, definition) ↔
      owner = last ∧ ∃ object ∈ compiledObjects draft, object.name = last ∧
        definition ∈ object.properties ∧ definition.name = name := by
  unfold ownProperty
  rw [Option.bind_eq_some_iff]
  constructor
  · rintro ⟨object, located, found⟩
    obtain ⟨property, own, same⟩ := Option.map_eq_some_iff.mp found
    rw [Prod.mk.injEq] at same
    obtain ⟨rfl, rfl⟩ := same
    obtain ⟨member, named⟩ := (objectType_iff accepted).mp located
    have called := List.find?_some own
    rw [decide_eq_true_eq] at called
    exact ⟨named, object, member, named, List.mem_of_find?_eq_some own, called⟩
  · rintro ⟨rfl, object, member, named, declares, called⟩
    have present := (objectType_iff accepted).mpr ⟨member, named⟩
    have distinct := objectType_properties accepted ((mem_objectTypes accepted).mpr member)
    refine ⟨object, present, Option.map_eq_some_iff.mpr ⟨definition, ?_, by rw [named]⟩⟩
    exact (Dict.find?_key_iff distinct).mpr ⟨declares, called⟩

end Accepted

/-- A published action is executable on its target exactly when no later type hides its property. -/
theorem executable_iff {draft : OntologyPackageDraft} {schema : CompiledOntologySchema}
    {action : CompiledActionDefinition} (success : compile draft = .ok schema)
    (published : action ∈ schema.actions) :
    ∃ target, schema.objectTypeById action.targetObjectTypeId = some target ∧
      (Executable schema action target ↔ Visible schema target.name action.effect.propertyId) := by
  have accepted := compile_accepted success
  obtain ⟨target, prop, targets⟩ := compile_targets success published
  obtain ⟨found, member, owner, there, visited, declares, identified⟩ := exists_owner accepted targets
  have declared : target.name ∈ draft.objectTypes.map ObjectTypeDefinition.name := by
    rw [← map_name_of_compilesTo (compilesTo accepted)]
    exact List.mem_map_of_mem member
  refine ⟨target, found, ?_, ?_⟩
  · rintro ⟨⟨name, from?, definition, resolved, same⟩, _⟩ other present _ twin declaresToo identifiedToo
    obtain ⟨last, final, own⟩ := (resolved_iff accepted declared).mp resolved
    obtain ⟨_, object, known, rfl, listed, rfl⟩ := (ownProperty_iff accepted).mp own
    obtain ⟨rfl, rfl⟩ := property_unique accepted known ((mem_objectTypes accepted).mp present) listed
      declaresToo same identifiedToo
    exact final
  · intro visible
    have final := visible owner ((mem_objectTypes accepted).mpr there) visited prop declares identified
    have own : ownProperty schema prop.name owner.name = some (owner.name, prop) :=
      (ownProperty_iff accepted).mpr ⟨rfl, owner, there, rfl, declares, rfl⟩
    exact executable_of_resolved ⟨prop.name, owner.name, prop,
      (resolved_iff accepted declared).mpr ⟨owner.name, final, own⟩, identified⟩

/-- `Review` redeclares the `status` of `Task`; both actions set the one `Task` declares. -/
def redeclared : OntologyPackageDraft :=
  let status (id : String) : PropertyDefinition :=
    ⟨"status", .member .string, some id, some (.member .ontologyOwned), false, false, false,
      .json .null, ""⟩
  let object (name id : String) (properties : List PropertyDefinition) (parents : List String) :
      ObjectTypeDefinition :=
    ⟨name, some id, some (.member .ontologyOwned), properties, parents, false, none, "", none, []⟩
  let action (name id target : String) : ActionDefinition :=
    ⟨name, target, [some ⟨"value", .member .string, ""⟩], some ⟨"task.status", "value"⟩, "policy:set",
      some id, ""⟩
  { packageId := "test.redeclared"
    ns := "urn:test:redeclared"
    version := "1.0.0"
    objectTypes := [object "Task" "task" [status "task.status"] [],
      object "Review" "review" [status "review.status"] ["Task"]]
    linkTypes := []
    interfaceTypes := []
    actions := [action "SetTask" "set.task" "task", action "SetReview" "set.review" "review"] }

theorem redeclared_compiles : ∃ schema, compile redeclared = .ok schema := by
  cases result : compile redeclared with
  | ok schema => exact ⟨schema, rfl⟩
  | error failure =>
    have accepted : (compile redeclared).isOk = true := by decide
    rw [result] at accepted
    cases accepted

/-- What holds of the compiled `redeclared`, by evaluation. -/
theorem of_redeclared (success : compile redeclared = .ok schema) (check : CompiledOntologySchema → Bool)
    (evaluated : (match compile redeclared with
      | .ok schema => check schema
      | .error _ => false) = true) : check schema = true := by
  rw [success] at evaluated
  exact evaluated

theorem executable_iff_task : ∃ schema, compile redeclared = .ok schema ∧
    ∃ action ∈ schema.actions, action.name = "SetTask" ∧
      ∃ target, schema.objectTypeById action.targetObjectTypeId = some target ∧
        Executable schema action target := by
  obtain ⟨schema, success⟩ := redeclared_compiles
  have all := of_redeclared success
    (fun schema => schema.actions.any fun action => action.name = "SetTask" &&
      (schema.objectTypeById action.targetObjectTypeId).all fun target =>
        Visible schema target.name action.effect.propertyId)
    (by decide)
  obtain ⟨action, published, checked⟩ := List.any_eq_true.mp all
  simp only [Bool.and_eq_true, decide_eq_true_eq] at checked
  obtain ⟨target, found, executable⟩ := executable_iff success published
  rw [found, Option.all_some, decide_eq_true_eq] at checked
  exact ⟨schema, success, action, published, checked.1, target, found, executable.mpr checked.2⟩

/-- The type `Review` has no property with the id that `SetReview` sets. -/
theorem redeclared_not_executable : ∃ schema, compile redeclared = .ok schema ∧
    ∃ action ∈ schema.actions, ∃ target,
      schema.objectTypeById action.targetObjectTypeId = some target ∧
      declarationOfText schema target.name action.effect.propertyId = none ∧
      ¬ Executable schema action target := by
  obtain ⟨schema, success⟩ := redeclared_compiles
  have all := of_redeclared success
    (fun schema => schema.actions.any fun action =>
      (schema.objectTypeById action.targetObjectTypeId).any fun target =>
        declarationOfText schema target.name action.effect.propertyId = none)
    (by decide)
  obtain ⟨action, published, checked⟩ := List.any_eq_true.mp all
  obtain ⟨target, found, undeclared⟩ := (Option.any_eq_true _ _).mp checked
  rw [decide_eq_true_eq] at undeclared
  refine ⟨schema, success, action, published, target, found, undeclared, fun executable => ?_⟩
  have declared := declarationOfText_isSome.mpr executable.resolved
  rw [undeclared] at declared
  cases declared

end Loushang.Projection
