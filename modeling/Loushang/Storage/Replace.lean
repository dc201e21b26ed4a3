import Loushang.Storage.Sqlite

/-!
# Failed replacements

`SQLiteProjectionStore.replace` reloads the schema between its `BEGIN IMMEDIATE` and the
guarded block. A reload that raises leaves the transaction open, and a reload that
finds the schema leaves it cached when the block is rolled back. Everywhere else a
failure leaves the adapter as it was.
-/
namespace Loushang.Storage
open Loushang.Lib Loushang.Facts Loushang.Schema Loushang.Projection

/-! ## Calls -/

inductive Call where
  | boundSchema
  | bindSchema (schema : CompiledOntologySchema)
  | snapshot
  | replace (snapshot : ProjectionSnapshot)
  | close

inductive Reply where
  | schema (bound : Option CompiledOntologySchema)
  | snapshot (current : Option ProjectionSnapshot)
  | state (state : ProjectionState)
  | done

def Outcome.map {α β : Type} (f : α → β) (outcome : Outcome α) : Outcome β :=
  ⟨f <$> outcome.reply, outcome.file, outcome.adapter⟩

section

variable (codec : Codec) (env : Environment)

def perform (file : Database) (adapter : Adapter) : Call → Outcome Reply
  | .boundSchema => ⟨.ok (.schema adapter.schema), file, adapter⟩
  | .bindSchema schema => (bindSchema codec env schema file adapter).map fun _ => .done
  | .snapshot => (snapshot codec env file adapter).map .snapshot
  | .replace snapshot => (replace codec env snapshot file adapter).map .state
  | .close => (close file adapter).map fun _ => .done

/-- No call tells the adapters apart, by its answer or by what it writes, whatever was
committed before it and whatever SQLite refuses during it. -/
def Indistinct (one other : Adapter) : Prop :=
  ∀ (env : Environment) (file : Database) (call : Call),
    (perform codec env file one call).reply = (perform codec env file other call).reply ∧
      (perform codec env file one call).file = (perform codec env file other call).file

/-- A `replace` that raises ends its transaction, leaves the file, and the next call does
not notice it. -/
def AtomicOnError (snapshot : ProjectionSnapshot) (file : Database) (adapter : Adapter) : Prop :=
  ∀ error, (replace codec env snapshot file adapter).reply = .error error →
    (replace codec env snapshot file adapter).adapter.transaction = none ∧
      (replace codec env snapshot file adapter).file = file ∧
      Indistinct codec (replace codec env snapshot file adapter).adapter adapter

/-- Another connection has stored neither a schema nor runtime state, and SQLite answers so. -/
structure NothingStored (file : Database) : Prop where
  selected : env .selectSchema = none
  schema : file.schemaPayload = none
  empty : ∀ table ∈ RuntimeTable.all, env (.probe table) = none ∧ file.count table = 0

/-- Another connection has stored the snapshot's own schema, the stored projection reads back,
the version is the next one, and SQLite takes every statement of the replacement. -/
structure Replaceable (snapshot : ProjectionSnapshot) (file : Database) : Prop where
  selected : env .selectSchema = none
  schema : ∃ payload, file.schemaPayload = some payload ∧ codec.loadJson payload = .ok snapshot.schema
  version : ∃ current,
    readProjectionSnapshotInTransaction codec env (some snapshot.schema) file = .ok current ∧
      snapshot.state.projectionVersion = expectedVersion current
  granted : ∀ statement ∈ replaceStatements false, env statement = none

/-- The origins whose documents become rows. -/
def origins (snapshot : ProjectionSnapshot) : List ValueOrigin :=
  snapshot.objects.flatMap (fun object =>
    .operational object.origin :: object.properties.map ProjectedProperty.origin) ++
  snapshot.links.map fun link => .operational link.origin

/-- No transaction is open, and the call stops before the reload, has no need of it, or
the reload neither raises nor caches a schema for a block that then fails. -/
def Recoverable (snapshot : ProjectionSnapshot) (file : Database) (adapter : Adapter) : Prop :=
  adapter.transaction = none ∧
    (adapter.closed = true ∨ (∃ origin ∈ origins snapshot, originDocument origin = none) ∨
      env .beginImmediate ≠ none ∨ adapter.schema ≠ none ∨ NothingStored env file ∨
      Replaceable codec env snapshot file)

end

/-! ## What statements and encodings fail on -/

section

variable {codec : Codec} {env : Environment}

theorem execute_eq_ok {statement : Statement} :
    execute env statement = .ok () ↔ env statement = none := by
  unfold execute
  split <;> simp_all

theorem executeAll_eq_ok {statements : List Statement} :
    statements.forM (execute env) = .ok () ↔ ∀ statement ∈ statements, env statement = none := by
  induction statements with
  | nil => simp [List.forM, pure, Except.pure]
  | cons first rest ih =>
    have peeled : (first :: rest).forM (execute env) =
        execute env first >>= fun _ => rest.forM (execute env) := rfl
    rw [peeled]
    cases taken : execute env first with
    | error error =>
      have refused : env first ≠ none := by
        intro granted
        rw [execute_eq_ok.mpr granted] at taken
        cases taken
      simp [bind, Except.bind, refused]
    | ok =>
      have granted := execute_eq_ok.mp taken
      simpa [bind, Except.bind, granted] using ih

theorem encodeOrigin_isOk {origin : ValueOrigin} :
    (encodeOrigin codec origin).isOk = (originDocument origin).isSome := by
  unfold encodeOrigin
  split <;> simp_all [Except.isOk, Except.toBool]

/-- A traversal succeeds when it does at every element. -/
theorem mapM_isOk {α β : Type} {f : α → Except StoreError β} {items : List α} :
    (items.mapM f).isOk = items.all fun item => (f item).isOk := by
  induction items with
  | nil => rfl
  | cons first rest ih =>
    rw [List.mapM_cons, List.all_cons, ← ih]
    cases f first with
    | error => rfl
    | ok =>
      cases List.mapM f rest with
      | error => rfl
      | ok => rfl

theorem objectRow_isOk {object : ProjectedObject} :
    (objectRow codec object).isOk = (originDocument (.operational object.origin)).isSome := by
  rw [← @encodeOrigin_isOk codec, objectRow]
  cases encodeOrigin codec (.operational object.origin) <;> rfl

theorem propertyRow_isOk {object : ProjectedObject} {prop : ProjectedProperty} :
    (propertyRow codec object prop).isOk = (originDocument prop.origin).isSome := by
  rw [← @encodeOrigin_isOk codec, propertyRow]
  cases encodeOrigin codec prop.origin <;> rfl

theorem linkRow_isOk {link : ProjectedLink} :
    (linkRow codec link).isOk = (originDocument (.operational link.origin)).isSome := by
  rw [← @encodeOrigin_isOk codec, linkRow]
  cases encodeOrigin codec (.operational link.origin) <;> rfl

/-- The rows of a snapshot can be built when every origin of it has a document. -/
theorem snapshotRows_isOk {snapshot : ProjectionSnapshot} :
    (snapshotRows codec snapshot).isOk = (origins snapshot).all fun origin => (originDocument origin).isSome := by
  have objects : (snapshot.objects.mapM fun object => do
      let row ← objectRow codec object
      let properties ← object.properties.mapM (propertyRow codec object)
      return (row, properties)).isOk =
        (snapshot.objects.flatMap fun object => ValueOrigin.operational object.origin ::
          object.properties.map ProjectedProperty.origin).all
            fun origin => (originDocument origin).isSome := by
    rw [mapM_isOk, List.all_flatMap]
    congr 1
    funext object
    rw [List.all_cons, List.all_map, ← @objectRow_isOk codec]
    have properties : (object.properties.mapM (propertyRow codec object)).isOk =
        object.properties.all ((fun origin => (originDocument origin).isSome) ∘ ProjectedProperty.origin) := by
      rw [mapM_isOk]
      congr 1
      funext prop
      exact propertyRow_isOk
    rw [← properties]
    cases objectRow codec object with
    | error => rfl
    | ok =>
      cases object.properties.mapM (propertyRow codec object) <;> rfl
  have links : (snapshot.links.mapM (linkRow codec)).isOk =
      (snapshot.links.map fun link => ValueOrigin.operational link.origin).all
        fun origin => (originDocument origin).isSome := by
    rw [mapM_isOk, List.all_map]
    congr 1
    funext link
    exact linkRow_isOk
  rw [origins, List.all_append, ← objects, ← links, snapshotRows]
  cases snapshot.objects.mapM (fun object => do
      let row ← objectRow codec object
      let properties ← object.properties.mapM (propertyRow codec object)
      return (row, properties)) with
  | error => rfl
  | ok =>
    cases snapshot.links.mapM (linkRow codec) <;> rfl

variable {snapshot : ProjectionSnapshot} {error : StoreError}

theorem snapshotRows_error (failed : snapshotRows codec snapshot = .error error) :
    ∃ origin ∈ origins snapshot, originDocument origin = none := by
  have notOk := @snapshotRows_isOk codec snapshot
  rw [failed] at notOk
  by_contra all
  push Not at all
  have every : ((origins snapshot).all fun origin => (originDocument origin).isSome) = true := by
    rw [List.all_eq_true]
    intro origin member
    exact Option.isSome_iff_ne_none.mpr (all origin member)
  rw [every] at notOk
  cases notOk

variable {rows : SnapshotRows}

theorem snapshotRows_ok (built : snapshotRows codec snapshot = .ok rows) :
    ¬ ∃ origin ∈ origins snapshot, originDocument origin = none := by
  have isOk := @snapshotRows_isOk codec snapshot
  rw [built] at isOk
  have every := List.all_eq_true.mp isOk.symm
  rintro ⟨origin, member, missing⟩
  have some_ := every origin member
  rw [missing] at some_
  cases some_

/-! ## The reload -/

theorem containsRuntimeState_eq_false {view : Database} {tables : List RuntimeTable} :
    containsRuntimeState env view tables = .ok false ↔
      ∀ table ∈ tables, env (.probe table) = none ∧ view.count table = 0 := by
  induction tables with
  | nil => simp [containsRuntimeState]
  | cons first rest ih =>
    rw [containsRuntimeState]
    cases taken : execute env (.probe first) with
    | error error =>
      have refused : env (.probe first) ≠ none := by
        intro granted
        rw [execute_eq_ok.mpr granted] at taken
        cases taken
      simp [bind, Except.bind, refused]
    | ok =>
      have granted := execute_eq_ok.mp taken
      by_cases some_ : 0 < view.count first
      · have full : view.count first ≠ 0 := by omega
        simp [bind, Except.bind, some_, full]
      · have empty : view.count first = 0 := by omega
        simpa [bind, Except.bind, some_, empty, granted] using ih

variable {file : Database}

/-- The reload finds no schema exactly when nothing is stored. -/
theorem loadSchema_eq_none {expected : Option CompiledOntologySchema} :
    loadSchema codec env file expected = .ok none ↔ NothingStored env file := by
  rw [loadSchema]
  constructor
  · intro found
    cases taken : execute env .selectSchema with
    | error error =>
      rw [taken] at found
      cases found
    | ok =>
      rw [taken] at found
      cases payload : file.schemaPayload with
      | none =>
        rw [payload] at found
        cases state : containsRuntimeState env file RuntimeTable.all with
        | error error =>
          simp [state, bind, Except.bind] at found
        | ok full =>
          cases full with
          | true => simp [state, bind, Except.bind] at found
          | false =>
            exact ⟨execute_eq_ok.mp taken, payload, containsRuntimeState_eq_false.mp state⟩
      | some payload' =>
        rw [payload] at found
        simp only [bind, Except.bind] at found
        split at found
        · cases found
        · cases found
        · split at found
          · split at found
            · cases found
            · cases found
          · cases found
  · rintro ⟨selected, schema, empty⟩
    rw [execute_eq_ok.mpr selected, schema]
    simp [bind, Except.bind, containsRuntimeState_eq_false.mpr empty]

/-- A reload that expects a schema finds that schema or none. -/
theorem loadSchema_eq_some {expected stored : CompiledOntologySchema} :
    loadSchema codec env file (some expected) = .ok (some stored) ↔
      env .selectSchema = none ∧ stored = expected ∧
        ∃ payload, file.schemaPayload = some payload ∧ codec.loadJson payload = .ok expected := by
  rw [loadSchema]
  constructor
  · intro found
    cases taken : execute env .selectSchema with
    | error error =>
      rw [taken] at found
      cases found
    | ok =>
      rw [taken] at found
      cases payload : file.schemaPayload with
      | none =>
        rw [payload] at found
        simp only [bind, Except.bind] at found
        split at found
        · cases found
        · split at found <;> cases found
      | some payload' =>
        rw [payload] at found
        simp only [bind, Except.bind] at found
        cases loaded : codec.loadJson payload' with
        | error error =>
          rw [loaded] at found
          cases error <;> cases found
        | ok schema =>
          rw [loaded] at found
          by_cases same : schema = expected
          · simp only [same, ne_eq, not_true_eq_false, if_false, Except.ok.injEq,
              Option.some.injEq] at found
            exact ⟨execute_eq_ok.mp taken, found.symm, payload', rfl, by rw [loaded, same]⟩
          · simp [same] at found
  · rintro ⟨selected, rfl, payload, here, loaded⟩
    rw [execute_eq_ok.mpr selected, here]
    simp [bind, Except.bind, loaded]

/-! ## The guarded block -/

/-- With the snapshot's own schema loaded, what the block needs to reach its end. -/
theorem guardedReplace_ok {snapshot : ProjectionSnapshot} {rows : SnapshotRows} {file : Database} :
    (∃ view, guardedReplace codec env snapshot rows (some snapshot.schema) file = .ok view) ↔
      (∃ current,
        readProjectionSnapshotInTransaction codec env (some snapshot.schema) file = .ok current ∧
          snapshot.state.projectionVersion = expectedVersion current) ∧
        ∀ statement ∈ replaceStatements false, env statement = none := by
  rw [← executeAll_eq_ok]
  unfold guardedReplace
  cases read : readProjectionSnapshotInTransaction codec env (some snapshot.schema) file with
  | error error => simp [bind, Except.bind]
  | ok current =>
    by_cases next : snapshot.state.projectionVersion = expectedVersion current
    · cases run : (replaceStatements false).forM (execute env) with
      | error error => simp [bind, Except.bind, next, installedSchema, run]
      | ok => simp [bind, Except.bind, pure, Except.pure, next, installedSchema, run]
    · simp [bind, Except.bind, next]

theorem replaceInTransaction_error {schema : Option CompiledOntologySchema}
    (failed : (replaceInTransaction codec env snapshot rows file schema).reply = .error error) :
    (replaceInTransaction codec env snapshot rows file schema).file = file ∧
      (replaceInTransaction codec env snapshot rows file schema).adapter = ⟨false, schema, none⟩ := by
  unfold replaceInTransaction at failed ⊢
  split
  · exact ⟨rfl, rfl⟩
  · next done =>
    rw [done] at failed
    cases failed

/-! ## Atomicity -/

theorem Indistinct.refl (adapter : Adapter) : Indistinct codec adapter adapter :=
  fun _ _ _ => ⟨rfl, rfl⟩

/-- The cached schema can be seen through `bound_schema`. -/
theorem Indistinct.schema {one other : Adapter} (same : Indistinct codec one other) :
    one.schema = other.schema := by
  have answers := (same (fun _ => none) ⟨none, [], [], none, [], [], [], []⟩ .boundSchema).1
  simpa [perform] using answers

/-- A call that leaves file and adapter as they were has nothing to undo. -/
theorem atomic_of_unchanged {adapter : Adapter} (idle : adapter.transaction = none)
    (unchanged : ∀ error, (replace codec env snapshot file adapter).reply = .error error →
      (replace codec env snapshot file adapter).file = file ∧
        (replace codec env snapshot file adapter).adapter = adapter) :
    AtomicOnError codec env snapshot file adapter := by
  intro error failed
  obtain ⟨sameFile, sameAdapter⟩ := unchanged error failed
  rw [sameFile, sameAdapter]
  exact ⟨idle, rfl, Indistinct.refl adapter⟩

/-- The reload decides, once the rows are built on an open and idle adapter. -/
theorem replace_of_idle {schema : Option CompiledOntologySchema}
    (built : snapshotRows codec snapshot = .ok rows) (begun : env .beginImmediate = none) :
    replace codec env snapshot file ⟨false, schema, none⟩ =
      match schema with
      | some schema => replaceInTransaction codec env snapshot rows file (some schema)
      | none =>
        match loadSchema codec env file (some snapshot.schema) with
        | .error error => ⟨.error error, file, ⟨false, none, some file⟩⟩
        | .ok schema => replaceInTransaction codec env snapshot rows file schema := by
  have granted := execute_eq_ok.mpr begun
  cases schema with
  | some cached => simp [replace, built, granted]
  | none =>
    cases reload : loadSchema codec env file (some snapshot.schema) <;>
      simp [replace, built, granted, reload]

theorem replace_atomic_iff_of_idle {schema : Option CompiledOntologySchema}
    (built : snapshotRows codec snapshot = .ok rows) :
    AtomicOnError codec env snapshot file ⟨false, schema, none⟩ ↔
      Recoverable codec env snapshot file ⟨false, schema, none⟩ := by
  cases begun : env .beginImmediate with
  | some message =>
    have refused : replace codec env snapshot file ⟨false, schema, none⟩ =
        ⟨.error (.sqlite message), file, ⟨false, schema, none⟩⟩ := by
      simp [replace, built, execute, begun]
    constructor
    · intro _
      exact ⟨rfl, Or.inr (Or.inr (Or.inl (by simp [begun])))⟩
    · intro _
      apply atomic_of_unchanged rfl
      intro error _
      rw [refused]
      exact ⟨rfl, rfl⟩
  | none =>
    cases schema with
    | some cached =>
      constructor
      · intro _
        exact ⟨rfl, Or.inr (Or.inr (Or.inr (Or.inl (by simp))))⟩
      · intro _
        apply atomic_of_unchanged rfl
        intro error failed
        rw [replace_of_idle built begun] at failed ⊢
        exact replaceInTransaction_error failed
    | none =>
      rw [AtomicOnError, replace_of_idle built begun]
      cases reload : loadSchema codec env file (some snapshot.schema) with
      | error fault =>
        constructor
        · intro atomic
          cases (atomic fault rfl).1
        · rintro ⟨_, closed | unencoded | refused | cached | stored | ready⟩
          · cases closed
          · exact absurd unencoded (snapshotRows_ok built)
          · exact absurd begun refused
          · exact absurd rfl cached
          · rw [loadSchema_eq_none.mpr stored] at reload
            cases reload
          · rw [loadSchema_eq_some.mpr ⟨ready.selected, rfl, ready.schema⟩] at reload
            cases reload
      | ok found =>
        cases found with
        | none =>
          have nothing := loadSchema_eq_none.mp reload
          constructor
          · intro _
            exact ⟨rfl, Or.inr (Or.inr (Or.inr (Or.inr (Or.inl nothing))))⟩
          · intro _ error failed
            obtain ⟨sameFile, sameAdapter⟩ := replaceInTransaction_error failed
            rw [sameFile, sameAdapter]
            exact ⟨rfl, rfl, Indistinct.refl _⟩
        | some stored =>
          obtain ⟨selected, same, payload⟩ := loadSchema_eq_some.mp reload
          subst same
          constructor
          · intro atomic
            cases guarded : guardedReplace codec env snapshot rows (some snapshot.schema) file with
            | error fault =>
              -- rolled back, but the schema stays cached
              have failed : (replaceInTransaction codec env snapshot rows file
                  (some snapshot.schema)).reply = .error fault := by
                rw [replaceInTransaction, guarded]
              obtain ⟨_, _, indistinct⟩ := atomic fault failed
              rw [(replaceInTransaction_error failed).2] at indistinct
              cases indistinct.schema
            | ok view =>
              obtain ⟨version, granted⟩ := guardedReplace_ok.mp ⟨view, guarded⟩
              exact ⟨rfl, Or.inr (Or.inr (Or.inr (Or.inr (Or.inr
                ⟨selected, payload, version, granted⟩))))⟩
          · rintro ⟨_, closed | unencoded | refused | cached | nothing | ready⟩ error failed
            · cases closed
            · exact absurd unencoded (snapshotRows_ok built)
            · exact absurd begun refused
            · exact absurd rfl cached
            · rw [loadSchema_eq_none.mpr nothing] at reload
              cases reload
            · obtain ⟨view, guarded⟩ := (@guardedReplace_ok codec env snapshot rows file).mpr
                ⟨ready.version, ready.granted⟩
              simp only [replaceInTransaction, guarded] at failed
              cases failed

end

/-- A failed `replace` is undone exactly when it meets neither the unguarded reload nor a
schema cached for a block that fails. -/
theorem replace_atomic_iff (codec : Codec) (env : Environment) (snapshot : ProjectionSnapshot)
    (file : Database) (adapter : Adapter) :
    AtomicOnError codec env snapshot file adapter ↔ Recoverable codec env snapshot file adapter := by
  obtain ⟨closed, schema, transaction⟩ := adapter
  cases closed with
  | true =>
    -- a closed adapter refuses the call
    have refused : replace codec env snapshot file ⟨true, schema, transaction⟩ =
        ⟨.error (.runtime "SQLite ontology adapter is closed"), file, ⟨true, schema, transaction⟩⟩ := rfl
    constructor
    · intro atomic
      have idle := (atomic _ (by rw [refused])).1
      rw [refused] at idle
      exact ⟨idle, Or.inl rfl⟩
    · rintro ⟨idle, _⟩
      apply atomic_of_unchanged idle
      intro error _
      rw [refused]
      exact ⟨rfl, rfl⟩
  | false =>
    cases built : snapshotRows codec snapshot with
    | error fault =>
      have refused : replace codec env snapshot file ⟨false, schema, transaction⟩ =
          ⟨.error fault, file, ⟨false, schema, transaction⟩⟩ := by simp [replace, built]
      constructor
      · intro atomic
        have idle := (atomic _ (by rw [refused])).1
        rw [refused] at idle
        exact ⟨idle, Or.inr (Or.inl (snapshotRows_error built))⟩
      · rintro ⟨idle, _⟩
        apply atomic_of_unchanged idle
        intro error _
        rw [refused]
        exact ⟨rfl, rfl⟩
    | ok rows =>
      cases transaction with
      | some view =>
        -- a transaction left open stays open
        have refused : replace codec env snapshot file ⟨false, schema, some view⟩ =
            ⟨.error (.sqlite "cannot start a transaction within a transaction"), file,
              ⟨false, schema, some view⟩⟩ := by simp [replace, built]
        constructor
        · intro atomic
          have idle := (atomic _ (by rw [refused])).1
          rw [refused] at idle
          cases idle
        · rintro ⟨idle, _⟩
          cases idle
      | none => exact replace_atomic_iff_of_idle built

/-! ## A schema installed meanwhile -/

/-- A package without definitions. -/
def emptyPackage (version : String) : CompiledOntologySchema :=
  ⟨"crm", "example.crm", version, [], [], [], []⟩

def emptyPackageJson (version : String) : String :=
  "\x7b\"actions\":[],\"format\":\"loushang.ontology.schema/v4\",\"interface_types\":[]," ++
    "\"link_types\":[],\"namespace\":\"example.crm\",\"object_types\":[],\"package_id\":\"crm\"," ++
    "\"version\":\"" ++ version ++ "\"\x7d"

/-- The encoders on packages without definitions and projections without rows. -/
def emptyPackageCodec : Codec where
  dumps _ := "[]"
  toJson schema := some (emptyPackageJson schema.version)
  loadJson payload :=
    if payload = emptyPackageJson "1.0" then .ok (emptyPackage "1.0")
    else if payload = emptyPackageJson "1.1" then .ok (emptyPackage "1.1")
    else .error .compilation
  loadFactIds _ := .ok []
  decodeSourceInput _ := .error (.decoding "no source input is stored")
  decodeProperty _ := .error (.decoding "no property is stored")
  decodeObject _ _ := .error (.decoding "no object is stored")
  decodeLink _ := .error (.decoding "no link is stored")
  decodeSnapshot _ _ _ _ _ _ := .error (.decoding "no projection is stored")

def emptySnapshot (version : String) : ProjectionSnapshot where
  schema := emptyPackage version
  state := ⟨⟨"crm", "example.crm", version⟩, 1, ⟨⟨"crm", "example.crm", version⟩, [], 0, 0, 0, none⟩, 0⟩
  factIds := []
  objects := []
  links := []

/-- Another connection has bound version 1.0 since this adapter opened the empty file. -/
def boundMeanwhile : Database := ⟨some (emptyPackageJson "1.0"), [], [], none, [], [], [], []⟩

/-- The mismatch is reported with the transaction open; the snapshot of the stored version,
which the adapter would have taken before, is then refused. -/
theorem mismatch_leaves_transaction :
    ¬ AtomicOnError emptyPackageCodec (fun _ => none) (emptySnapshot "1.1") boundMeanwhile
        ⟨false, none, none⟩ ∧
      (replace emptyPackageCodec (fun _ => none) (emptySnapshot "1.1") boundMeanwhile
        ⟨false, none, none⟩).reply =
          .error (.storedSchemaMismatch (emptyPackage "1.0") (emptyPackage "1.1")) ∧
      (replace emptyPackageCodec (fun _ => none) (emptySnapshot "1.0") boundMeanwhile
        ⟨false, none, none⟩).reply = .ok (emptySnapshot "1.0").state ∧
      (replace emptyPackageCodec (fun _ => none) (emptySnapshot "1.0") boundMeanwhile
        (replace emptyPackageCodec (fun _ => none) (emptySnapshot "1.1") boundMeanwhile
          ⟨false, none, none⟩).adapter).reply =
          .error (.sqlite "cannot start a transaction within a transaction") := by
  have raised : (replace emptyPackageCodec (fun _ => none) (emptySnapshot "1.1") boundMeanwhile
      ⟨false, none, none⟩).reply =
        .error (.storedSchemaMismatch (emptyPackage "1.0") (emptyPackage "1.1")) := by
    decide +kernel
  refine ⟨?_, raised, by decide +kernel, by decide +kernel⟩
  intro atomic
  have idle := (atomic _ raised).1
  revert idle
  decide +kernel

end Loushang.Storage
