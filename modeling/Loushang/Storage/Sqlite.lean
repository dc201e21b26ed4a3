import Loushang.Projection.Snapshots

/-!
# The SQLite projection adapter

`storage/sqlite.py`: `SQLiteProjectionStore.replace` and the calls that share its
connection and its cached schema. A table is the list of its rows; SQLite's own checks of
a statement (locks, constraints, the disk, the encoding of a bound text) are an
environment that refuses statements as it likes. A commit is atomic, and a rollback and a
close do not fail. What other modules make of a text or of a row is the `Codec`. Opening a
database, backups and the fact store are not modelled.
-/
namespace Loushang.Storage
open Loushang.Lib Loushang.Facts Loushang.Schema Loushang.Projection

/-! ## Tables -/

structure FactRow where
  sequence : Nat
  factId : String
  payload : String

structure BatchRow where
  batchId : String
  digest : String
  firstSequence : Nat
  lastSequence : Nat
  factCount : Nat

structure MetadataRow where
  schemaVersion : PyStr
  sourceFactWatermark : Nat
  projectedFactWatermark : Nat
  validAt : ℚ
  recordedAt : ℚ
  projectionVersion : Nat
  builtAt : ℚ
  factIdsJson : String
  factRevalidationDigest : Option String

structure SourceInputRow where
  bindingId : PyStr
  mappingVersion : PyStr
  sourceRevision : PyStr
  payloadDigest : String
  coverage : String

structure ObjectRow where
  objectId : String
  objectType : String
  originKind : String
  originJson : String

structure PropertyRow where
  objectId : String
  propertyName : String
  valueType : String
  valueJson : String
  validFrom : ℚ
  factId : Option String
  authorRef : Option PyStr
  sourceRef : PyStr
  originKind : String
  originJson : String

structure LinkRow where
  sourceId : String
  linkType : String
  targetId : String
  propertiesJson : String
  validFrom : ℚ
  factId : Option String
  sourceRef : PyStr
  originKind : String
  originJson : String

structure Database where
  schemaPayload : Option String
  semanticFacts : List FactRow
  factBatches : List BatchRow
  projectionMetadata : Option MetadataRow
  projectionSourceInputs : List SourceInputRow
  projectionObjects : List ObjectRow
  projectionProperties : List PropertyRow
  projectionLinks : List LinkRow

/-- The tables that hold runtime state, in the order they are probed. -/
inductive RuntimeTable where
  | semanticFacts
  | factBatches
  | projectionMetadata
  | projectionSourceInputs
  | projectionObjects
  | projectionProperties
  | projectionLinks

def RuntimeTable.all : List RuntimeTable :=
  [.semanticFacts, .factBatches, .projectionMetadata, .projectionSourceInputs, .projectionObjects,
    .projectionProperties, .projectionLinks]

/-- The tables a projection is counted in, deleted from and inserted into. -/
def RuntimeTable.projection : List RuntimeTable :=
  [.projectionSourceInputs, .projectionObjects, .projectionProperties, .projectionLinks]

def Database.count (db : Database) : RuntimeTable → Nat
  | .semanticFacts => db.semanticFacts.length
  | .factBatches => db.factBatches.length
  | .projectionMetadata => db.projectionMetadata.toList.length
  | .projectionSourceInputs => db.projectionSourceInputs.length
  | .projectionObjects => db.projectionObjects.length
  | .projectionProperties => db.projectionProperties.length
  | .projectionLinks => db.projectionLinks.length

/-! ## Statements and errors -/

inductive Statement where
  | beginImmediate
  | begin_
  | commit
  | selectSchema
  | insertSchema
  | probe (table : RuntimeTable)
  | selectMetadata
  | upsertMetadata
  | count (table : RuntimeTable)
  | select (table : RuntimeTable)
  | delete (table : RuntimeTable)
  | insert (table : RuntimeTable)

inductive StoreError where
  | runtime (message : String)
  | jsonValue
  | sqlite (message : String)
  | storageFormat (reason : String)
  | storedSchemaMismatch (stored expected : CompiledOntologySchema)
  | factValidation (message : String)
  | value (message : String)
  /-- Raised by a decoder of another module. -/
  | decoding (message : String)
  deriving DecidableEq

/-- What SQLite refuses a statement with, if it does, during one call. -/
abbrev Environment := Statement → Option String

def execute (env : Environment) (statement : Statement) : Except StoreError Unit :=
  match env statement with
  | some message => .error (.sqlite message)
  | none => .ok ()

/-- What `load_json` raises: a `SchemaCompilationError`, or anything else. -/
inductive LoadError where
  | compilation
  | other (message : String)

structure Codec where
  /-- `json.dumps` of a valid value, keys sorted. -/
  dumps : Json → String
  /-- `schema.to_json()`; `none` is its `JsonValueError`. -/
  toJson : CompiledOntologySchema → Option String
  /-- `OntologyCompiler().load_json(payload)`. -/
  loadJson : String → Except LoadError CompiledOntologySchema
  /-- `json.loads(fact_ids_json)`, a list of texts. -/
  loadFactIds : String → Except StoreError (List String)
  decodeSourceInput : SourceInputRow → Except StoreError SourceInputCut
  decodeProperty : PropertyRow → Except StoreError (Uuid × ProjectedProperty)
  decodeObject : ObjectRow → List (Uuid × ProjectedProperty) → Except StoreError ProjectedObject
  decodeLink : LinkRow → Except StoreError ProjectedLink
  /-- The state and the snapshot over the decoded rows. -/
  decodeSnapshot : CompiledOntologySchema → MetadataRow → List SourceInputCut → List ProjectedObject →
    List ProjectedLink → List String → Except StoreError ProjectionSnapshot

/-! ## Rows of a snapshot -/

section

variable (codec : Codec)

/-- The document of `_encode_origin`; `none` when a text has no encoding. -/
def originDocument : ValueOrigin → Option Json
  | .operational (.fact origin) => some (.obj [("fact_id", .str (Uuid.text origin.factId))])
  | .operational (.source origin) => do
    let bindingId ← origin.bindingId.toString?
    let fieldRef ← origin.fieldRef.toString?
    let mappingVersion ← origin.mappingVersion.toString?
    let sourceRecordRef ← origin.sourceRecordRef.toString?
    let sourceRevision ← origin.sourceRevision.toString?
    return .obj [("binding_id", .str bindingId), ("field_ref", .str fieldRef),
      ("mapping_version", .str mappingVersion), ("source_record_ref", .str sourceRecordRef),
      ("source_revision", .str sourceRevision)]
  | .schemaDefault origin => do
    let ns ← origin.schemaIdentity.ns.toString?
    let packageId ← origin.schemaIdentity.packageId.toString?
    let version ← origin.schemaIdentity.version.toString?
    return .obj [("schema_identity",
      .obj [("namespace", .str ns), ("package_id", .str packageId), ("version", .str version)])]

def originKind : ValueOrigin → String
  | .operational (.fact _) => "fact"
  | .operational (.source _) => "source"
  | .schemaDefault _ => "schema_default"

/-- `_encode_origin`. -/
def encodeOrigin (origin : ValueOrigin) : Except StoreError (String × String) :=
  match originDocument origin with
  | some document => .ok (originKind origin, codec.dumps document)
  | none => .error .jsonValue

def objectRow (object : ProjectedObject) : Except StoreError ObjectRow := do
  let (originKind, originJson) ← encodeOrigin codec (.operational object.origin)
  return ⟨Uuid.text object.id, object.objectType, originKind, originJson⟩

def propertyRow (object : ProjectedObject) (prop : ProjectedProperty) : Except StoreError PropertyRow := do
  let (originKind, originJson) ← encodeOrigin codec prop.origin
  return {
    objectId := Uuid.text object.id
    propertyName := prop.name
    valueType := prop.valueType.value
    valueJson := codec.dumps prop.value
    validFrom := prop.validFrom
    factId := prop.factId.map Uuid.text
    authorRef := prop.authorRef
    sourceRef := prop.sourceRef
    originKind
    originJson }

def linkRow (link : ProjectedLink) : Except StoreError LinkRow := do
  let (originKind, originJson) ← encodeOrigin codec (.operational link.origin)
  return {
    sourceId := Uuid.text link.sourceId
    linkType := link.linkType
    targetId := Uuid.text link.targetId
    propertiesJson := codec.dumps (.obj link.properties)
    validFrom := link.validFrom
    factId := link.factId.map Uuid.text
    sourceRef := link.sourceRef
    originKind
    originJson }

structure SnapshotRows where
  objects : List ObjectRow
  properties : List PropertyRow
  links : List LinkRow

def snapshotRows (snapshot : ProjectionSnapshot) : Except StoreError SnapshotRows := do
  let rows ← snapshot.objects.mapM fun object => do
    let row ← objectRow codec object
    let properties ← object.properties.mapM (propertyRow codec object)
    return (row, properties)
  let links ← snapshot.links.mapM (linkRow codec)
  return ⟨rows.map Prod.fst, rows.flatMap Prod.snd, links⟩

def sourceInputRow (cut : SourceInputCut) : SourceInputRow :=
  ⟨cut.bindingId, cut.mappingVersion, cut.sourceRevision, cut.payloadDigest, cut.coverage.value⟩

def metadataRow (snapshot : ProjectionSnapshot) : MetadataRow where
  schemaVersion := snapshot.state.schemaVersion
  sourceFactWatermark := snapshot.state.factWatermark
  projectedFactWatermark := snapshot.state.factWatermark
  validAt := snapshot.state.validAt
  recordedAt := snapshot.state.recordedAt
  projectionVersion := snapshot.state.projectionVersion
  builtAt := snapshot.state.builtAt
  factIdsJson := codec.dumps (.arr (snapshot.factIds.map fun id => .str (Uuid.text id)))
  factRevalidationDigest := snapshot.state.materializationCut.factRevalidationDigest

end

/-! ## Reading -/

section

variable (codec : Codec) (env : Environment)

/-- `_database_contains_runtime_state`, over the tables still to probe. -/
def containsRuntimeState (view : Database) : List RuntimeTable → Except StoreError Bool
  | [] => .ok false
  | table :: rest => do
    execute env (.probe table)
    if 0 < view.count table then .ok true else containsRuntimeState view rest

/-- `_load_schema`. -/
def loadSchema (view : Database) (expectedSchema : Option CompiledOntologySchema) :
    Except StoreError (Option CompiledOntologySchema) := do
  execute env .selectSchema
  match view.schemaPayload with
  | none =>
    if ← containsRuntimeState env view RuntimeTable.all then
      .error (.storageFormat "runtime state exists without a stored ontology schema")
    else .ok none
  | some payload =>
    match codec.loadJson payload with
    | .error .compilation => .error (.storageFormat "stored ontology schema is invalid")
    | .error (.other message) => .error (.decoding message)
    | .ok stored =>
      match expectedSchema with
      | some expected =>
        if stored ≠ expected then .error (.storedSchemaMismatch stored expected) else .ok (some stored)
      | none => .ok (some stored)

/-- The rows of a projection under its metadata row, table by table. -/
def readRows (schema : CompiledOntologySchema) (row : MetadataRow) (view : Database) :
    Except StoreError ProjectionSnapshot := do
  let factIds ← codec.loadFactIds row.factIdsJson
  execute env (.select .projectionSourceInputs)
  let sourceInputs ← view.projectionSourceInputs.mapM codec.decodeSourceInput
  execute env (.select .projectionProperties)
  let properties ← view.projectionProperties.mapM codec.decodeProperty
  execute env (.select .projectionObjects)
  let objects ← view.projectionObjects.mapM fun object => codec.decodeObject object properties
  execute env (.select .projectionLinks)
  let links ← view.projectionLinks.mapM codec.decodeLink
  codec.decodeSnapshot schema row sourceInputs objects links factIds

/-- `_read_projection_snapshot_in_transaction`. -/
def readProjectionSnapshotInTransaction (schema : Option CompiledOntologySchema) (view : Database) :
    Except StoreError (Option ProjectionSnapshot) := do
  execute env .selectMetadata
  RuntimeTable.projection.forM fun table => execute env (.count table)
  match view.projectionMetadata with
  | none =>
    if RuntimeTable.projection.any fun table => 0 < view.count table then
      .error (.factValidation "projection rows exist without projection metadata")
    else .ok none
  | some row =>
    match schema with
    | none => .error (.factValidation "projection exists without a stored schema")
    | some schema =>
      if row.sourceFactWatermark ≠ row.projectedFactWatermark then
        .error (.factValidation "stored projection build watermarks disagree")
      else some <$> readRows codec env schema row view

end

/-! ## The adapter -/

/-- One connection. An open transaction works on its own view of the database file. -/
structure Adapter where
  closed : Bool
  schema : Option CompiledOntologySchema
  transaction : Option Database

structure Outcome (α : Type) where
  reply : Except StoreError α
  file : Database
  adapter : Adapter

section

variable (codec : Codec) (env : Environment)

/-- `_read_projection_snapshot`: in the open transaction, or in one of its own. -/
def readProjectionSnapshot (file : Database) (adapter : Adapter) :
    Except StoreError (Option ProjectionSnapshot) :=
  match adapter.transaction with
  | some view => readProjectionSnapshotInTransaction codec env adapter.schema view
  | none => do
    execute env .begin_
    let snapshot ← readProjectionSnapshotInTransaction codec env adapter.schema file
    execute env .commit
    return snapshot

/-- `1 if current is None else current.state.projection_version + 1`. -/
def expectedVersion : Option ProjectionSnapshot → Nat
  | none => 1
  | some current => current.state.projectionVersion + 1

/-- The statements that rewrite the projection, in their order. -/
def replaceStatements (installSchema : Bool) : List Statement :=
  (if installSchema then [.insertSchema] else []) ++
    [.delete .projectionLinks, .delete .projectionProperties, .delete .projectionObjects,
      .delete .projectionSourceInputs, .insert .projectionSourceInputs, .insert .projectionObjects,
      .insert .projectionProperties, .insert .projectionLinks, .upsertMetadata, .commit]

/-- The schema row a replacement leaves. -/
def installedSchema (installSchema : Bool) (snapshot : ProjectionSnapshot) (view : Database) :
    Except StoreError (Option String) :=
  if installSchema then
    match codec.toJson snapshot.schema with
    | some payload => .ok (some payload)
    | none => .error .jsonValue
  else .ok view.schemaPayload

/-- The database with the projection of `snapshot` in place of its own. -/
def replacedRows (snapshot : ProjectionSnapshot) (rows : SnapshotRows) (schemaPayload : Option String)
    (view : Database) : Database :=
  { view with
    schemaPayload
    projectionSourceInputs := snapshot.state.materializationCut.sourceInputs.map sourceInputRow
    projectionObjects := rows.objects
    projectionProperties := rows.properties
    projectionLinks := rows.links
    projectionMetadata := some (metadataRow codec snapshot) }

/-- The guarded block of `replace`, up to its commit. -/
def guardedReplace (snapshot : ProjectionSnapshot) (rows : SnapshotRows)
    (schema : Option CompiledOntologySchema) (view : Database) : Except StoreError Database := do
  match schema with
  | some stored =>
    if stored ≠ snapshot.schema then .error (.storedSchemaMismatch stored snapshot.schema)
  | none => pure ()
  let current ← readProjectionSnapshotInTransaction codec env schema view
  if snapshot.state.projectionVersion ≠ expectedVersion current then
    .error (.value s!"projection_version must be {expectedVersion current} for this replacement")
  let payload ← installedSchema codec schema.isNone snapshot view
  (replaceStatements schema.isNone).forM (execute env)
  return replacedRows codec snapshot rows payload view

/-- What `replace` does once its transaction is open and the schema is known. -/
def replaceInTransaction (snapshot : ProjectionSnapshot) (rows : SnapshotRows) (file : Database)
    (schema : Option CompiledOntologySchema) : Outcome ProjectionState :=
  match guardedReplace codec env snapshot rows schema file with
  | .error error => ⟨.error error, file, ⟨false, schema, none⟩⟩
  | .ok view => ⟨.ok snapshot.state, view, ⟨false, schema.or (some snapshot.schema), none⟩⟩

def replace (snapshot : ProjectionSnapshot) (file : Database) (adapter : Adapter) :
    Outcome ProjectionState :=
  if adapter.closed then ⟨.error (.runtime "SQLite ontology adapter is closed"), file, adapter⟩
  else match snapshotRows codec snapshot with
  | .error error => ⟨.error error, file, adapter⟩
  | .ok rows =>
    match adapter.transaction with
    | some _ => ⟨.error (.sqlite "cannot start a transaction within a transaction"), file, adapter⟩
    | none =>
      match execute env .beginImmediate with
      | .error error => ⟨.error error, file, adapter⟩
      | .ok () =>
        match adapter.schema with
        | some schema => replaceInTransaction codec env snapshot rows file (some schema)
        | none =>
          -- the reload stands outside the guarded block: no rollback follows its failure
          match loadSchema codec env file (some snapshot.schema) with
          | .error error => ⟨.error error, file, { adapter with transaction := some file }⟩
          | .ok schema => replaceInTransaction codec env snapshot rows file schema

/-- `bind_schema`: the insert opens a transaction when none is open, and the commit of the
`with` block covers what was already uncommitted. -/
def bindSchema (schema : CompiledOntologySchema) (file : Database) (adapter : Adapter) : Outcome Unit :=
  if adapter.closed then ⟨.error (.runtime "SQLite ontology adapter is closed"), file, adapter⟩
  else match adapter.schema with
  | some stored =>
    if stored = schema then ⟨.ok (), file, adapter⟩
    else ⟨.error (.storedSchemaMismatch stored schema), file, adapter⟩
  | none =>
    let view := adapter.transaction.getD file
    match codec.toJson schema with
    | none => ⟨.error .jsonValue, file, { adapter with transaction := none }⟩
    | some payload =>
      if view.schemaPayload.isSome then
        ⟨.error (.sqlite "UNIQUE constraint failed: ontology_schema.singleton"), file,
          { adapter with transaction := none }⟩
      else match [Statement.insertSchema, .commit].forM (execute env) with
      | .error error => ⟨.error error, file, { adapter with transaction := none }⟩
      | .ok () => ⟨.ok (), { view with schemaPayload := some payload },
          ⟨adapter.closed, some schema, none⟩⟩

/-- The `snapshot` property, which every reader of the store goes through. -/
def snapshot (file : Database) (adapter : Adapter) : Outcome (Option ProjectionSnapshot) :=
  if adapter.closed then ⟨.error (.runtime "SQLite ontology adapter is closed"), file, adapter⟩
  else ⟨readProjectionSnapshot codec env file adapter, file, adapter⟩

def close (file : Database) (adapter : Adapter) : Outcome Unit :=
  ⟨.ok (), file, ⟨true, adapter.schema, none⟩⟩

end

end Loushang.Storage
