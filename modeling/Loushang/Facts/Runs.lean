import Loushang.Facts.Journal

/-!
# Runs of a fact store

Every request is refused, replayed or committed; the store always holds a history of
batches that validation accepts, and a committed batch keeps its range for good.
-/
namespace Loushang.Facts
open Loushang.Lib

section

variable (contentDigest : FactBatch → String)

/-! ## One request -/

/-- What a request can come to. -/
inductive Outcome (store : MemoryFactStore) (history : List FactBatch) (batch : FactBatch) :
    Except FactError FactCommit × MemoryFactStore → Prop where
  | refused (error : FactError) : Outcome store history batch (.error error, store)
  | replayed (commit : FactCommit)
      (known : store.batches.get? batch.batchId = some ⟨contentDigest batch, commit⟩)
      (identity : batch.schemaIdentity ∈ identities (allFacts history)) :
      Outcome store history batch (.ok { commit with replayed := true }, store)
  | fresh (store' : MemoryFactStore) (new : batch.batchId ∉ store.batches.keys)
      (holds : Holds contentDigest store' (history ++ [batch])) :
      Outcome store history batch
        (.ok (commitEntry contentDigest (store.facts.length + 1) batch).2.commit, store')

variable {contentDigest}

variable {batch : FactBatch}

/-- The facts of a batch of the journal's identity go with the journal's. -/
theorem identity_append {existing : List FactRecord} (short : (identities existing).length ≤ 1)
    (admitted : ¬ (identities existing ≠ [] ∧ batch.schemaIdentity ∉ identities existing)) :
    (identities (existing ++ batch.facts)).length ≤ 1 := by
  have same := identities_length_le.mp short
  have across : ∀ fact ∈ existing, fact.schemaIdentity = batch.schemaIdentity := by
    intro fact member
    have listed : fact.schemaIdentity ∈ identities existing :=
      List.mem_dedup.mpr (List.mem_map_of_mem member)
    have known : batch.schemaIdentity ∈ identities existing := by
      by_contra unknown
      exact admitted ⟨List.ne_nil_of_mem listed, unknown⟩
    obtain ⟨other, member', link⟩ := List.mem_map.mp (List.mem_dedup.mp known)
    rw [← link]
    exact same fact member other member'
  have all : ∀ fact ∈ existing ++ batch.facts, fact.schemaIdentity = batch.schemaIdentity := by
    exact List.forall_mem_append.mpr ⟨across, fun _ member => batch.schemaIdentity_eq member⟩
  rw [identities_length_le]
  intro fact member other member'
  rw [all fact member, all other member']

/-- A fresh plan extends the history. -/
theorem Holds.append {store : MemoryFactStore} {history : List FactBatch}
    (holds : Holds contentDigest store history) {batch : FactBatch}
    (admitted : ¬ (identities (allFacts history) ≠ [] ∧
      batch.schemaIdentity ∉ identities (allFacts history)))
    (new : batch.batchId ∉ store.batches.keys) {entries : List StoredFact}
    (prepared : prepareEntries (store.facts.length + 1) batch.facts
      (store.facts.foldl Lineage.note .empty) = .ok entries) :
    entries = numbered (store.facts.length + 1) batch.facts ∧
      Holds contentDigest
        ⟨store.facts ++ entries,
          store.byId.update (entries.map fun entry => (entry.fact.factId, entry)),
          store.batches.set batch.batchId
            (commitEntry contentDigest (store.facts.length + 1) batch).2⟩ (history ++ [batch]) := by
  obtain ⟨rfl, lineage', valid⟩ := prepareEntries_valid prepared
  obtain ⟨lineage, before⟩ := holds.lineage
  have length : store.facts.length = (allFacts history).length := by
    rw [holds.facts, length_numbered]
  have all : allFacts (history ++ [batch]) = allFacts history ++ batch.facts := by
    simp [allFacts]
  refine ⟨rfl, ⟨?_, ?_, ?_, ?_, ?_⟩⟩
  · rw [all, numbered_append, ← length, ← holds.facts, Nat.add_comm 1]
  · rw [List.map_append, Dict.update_append, ← holds.byId]
  · rw [Dict.entries_set_of_not_mem new, holds.batches, commitEntries_append, ← length,
      Nat.add_comm 1]
    rfl
  · refine ⟨lineage', ?_⟩
    rw [validateEntries_append, before, validateEntries_lineage before, Nat.add_comm 1]
    exact valid
  · rw [all]
    exact identity_append holds.identity admitted

variable {store : MemoryFactStore} {history : List FactBatch} {batchId : String}
  {committed : CommittedFactBatch}

/-- A journal with a batch has facts. -/
theorem Holds.identities_ne_nil (holds : Holds contentDigest store history)
    (known : store.batches.get? batchId = some committed) : identities (allFacts history) ≠ [] := by
  have member := Dict.mem_of_get? known
  rw [holds.batches] at member
  obtain ⟨front, batch, back, rfl, _⟩ := mem_commitEntries contentDigest member
  have inside : batch.facts.head batch.nonempty ∈ allFacts (front ++ batch :: back) :=
    List.mem_flatMap.mpr ⟨batch, by simp, List.head_mem batch.nonempty⟩
  exact List.ne_nil_of_mem (List.mem_dedup.mpr (List.mem_map_of_mem inside))

/-- `prepare_fact_commit` refuses, replays or extends the history. -/
theorem prepareFactCommit_outcome (holds : Holds contentDigest store history) (batch : FactBatch) :
    match prepareFactCommit contentDigest batch store.facts store.batches with
    | .error _ => True
    | .ok plan => Outcome contentDigest store history batch
        (.ok (store.apply plan).1, (store.apply plan).2) := by
  unfold prepareFactCommit
  rw [holds.valid, holds.facts, map_fact_numbered, ← holds.facts]
  by_cases admitted : identities (allFacts history) ≠ [] ∧
      batch.schemaIdentity ∉ identities (allFacts history)
  · rw [if_pos admitted]
    trivial
  · rw [if_neg admitted]
    cases known : store.batches.get? batch.batchId with
    | some committed =>
      simp only
      by_cases other : committed.digest ≠ contentDigest batch
      · rw [if_pos other]
        trivial
      · rw [if_neg other]
        refine .replayed committed.commit ?_ ?_
        · rw [known, ← not_not.mp other]
        · exact not_not.mp (not_and.mp admitted (holds.identities_ne_nil known))
    | none =>
      have new := Dict.get?_eq_none.mp known
      simp only
      cases prepared : prepareEntries (store.facts.length + 1) batch.facts
          (store.facts.foldl Lineage.note .empty) with
      | error error => trivial
      | ok entries =>
        obtain ⟨rfl, holds'⟩ := holds.append admitted new prepared
        simp only [MemoryFactStore.apply, Bool.false_eq_true, if_false, length_numbered]
        exact .fresh _ new holds'

/-- A guarded commit is a refusal or the plain one. -/
theorem prepareGuardedFactCommit_cases (batch : FactBatch) (expected : Int) (facts : List StoredFact)
    (committed : Dict String CommittedFactBatch) :
    (∃ error, prepareGuardedFactCommit contentDigest batch expected facts committed = .error error) ∨
      prepareGuardedFactCommit contentDigest batch expected facts committed =
        prepareFactCommit contentDigest batch facts committed := by
  unfold prepareGuardedFactCommit
  split
  · next error _ => exact Or.inl ⟨error, rfl⟩
  · split
    · next error _ => exact Or.inl ⟨error, rfl⟩
    · split
      · exact Or.inr rfl
      · split
        · exact Or.inl ⟨_, rfl⟩
        · exact Or.inr rfl

theorem commitFactBatch_outcome (holds : Holds contentDigest store history) (request : CommitRequest) :
    Outcome contentDigest store history request.batch (store.commitFactBatch contentDigest request) := by
  unfold MemoryFactStore.commitFactBatch
  have plain := prepareFactCommit_outcome holds request.batch
  cases request with
  | commit batch =>
    simp only [prepare, CommitRequest.batch] at plain ⊢
    cases planned : prepareFactCommit contentDigest batch store.facts store.batches with
    | error error => exact .refused error
    | ok plan =>
      rw [planned] at plain
      exact plain
  | guarded batch expected =>
    simp only [prepare, CommitRequest.batch] at plain ⊢
    rcases prepareGuardedFactCommit_cases batch expected store.facts store.batches with
      ⟨error, refused⟩ | same
    · rw [refused]
      exact .refused error
    · rw [same]
      cases planned : prepareFactCommit contentDigest batch store.facts store.batches with
      | error error => exact .refused error
      | ok plan =>
        rw [planned] at plain
        exact plain

/-! ## Runs -/

/-- The store always holds some history, and histories grow at the end. -/
theorem Holds.final (holds : Holds contentDigest store history) (requests : List CommitRequest) :
    ∃ later, Holds contentDigest ((factStore contentDigest).final store requests) (history ++ later) := by
  refine @Machine.final_of_invariant _ _ _ (factStore contentDigest)
    (fun store => ∃ later, Holds contentDigest store (history ++ later)) ?_ _
    ⟨[], by simpa using holds⟩ requests
  rintro store request ⟨later, holds⟩
  have outcome := commitFactBatch_outcome holds request
  change ∃ later, Holds contentDigest (store.commitFactBatch contentDigest request).2 (history ++ later)
  generalize store.commitFactBatch contentDigest request = result at outcome ⊢
  cases outcome with
  | refused error => exact ⟨later, holds⟩
  | replayed commit known identity => exact ⟨later, holds⟩
  | fresh store' new holds' => exact ⟨later ++ [request.batch], by rwa [← List.append_assoc]⟩

/-- The range of a batch of the history. -/
theorem Holds.entry {store : MemoryFactStore} {front back : List FactBatch} {batch : FactBatch}
    (holds : Holds contentDigest store (front ++ batch :: back)) :
    store.batches.get? batch.batchId =
        some (commitEntry contentDigest (1 + (allFacts front).length) batch).2 ∧
      (store.facts.drop (allFacts front).length).take batch.facts.length =
        numbered (1 + (allFacts front).length) batch.facts := by
  constructor
  · apply Dict.get?_of_mem
    rw [holds.batches, commitEntries_append, commitEntries]
    exact List.mem_append_right _ List.mem_cons_self
  · have all : allFacts (front ++ batch :: back) = allFacts front ++ (batch.facts ++ allFacts back) := by
      simp [allFacts]
    rw [holds.facts, all, numbered_append, numbered_append, List.drop_left', List.take_left']
    · simp
    · simp

/-- After the journal's own checks, a guard does not concern a known batch. -/
theorem Holds.prepareGuarded (holds : Holds contentDigest store history)
    (known : batch.batchId ∈ store.batches.keys) (watermark : Nat) :
    prepareGuardedFactCommit contentDigest batch watermark store.facts store.batches =
      prepareFactCommit contentDigest batch store.facts store.batches := by
  have nonnegative : requireSequence "expected_watermark" (watermark : Int) = .ok watermark := by
    rw [requireSequence, if_neg (Int.not_lt.mpr (Int.natCast_nonneg watermark)), Int.toNat_natCast]
  unfold prepareGuardedFactCommit
  rw [nonnegative, holds.valid]
  exact if_pos known

/-- A known batch with its digest is replayed, also under a guard. -/
theorem Holds.replay (holds : Holds contentDigest store history) {commit : FactCommit}
    (known : store.batches.get? batch.batchId = some ⟨contentDigest batch, commit⟩)
    (identity : batch.schemaIdentity ∈ identities (allFacts history)) :
    store.commitFactBatch contentDigest (.commit batch) =
        (.ok { commit with replayed := true }, store) ∧
      ∀ watermark : Nat, store.commitFactBatch contentDigest (.guarded batch watermark) =
        (.ok { commit with replayed := true }, store) := by
  have plan : prepareFactCommit contentDigest batch store.facts store.batches =
      .ok ⟨batch, contentDigest batch, [], { commit with replayed := true }⟩ := by
    unfold prepareFactCommit
    rw [holds.valid, holds.facts, map_fact_numbered, ← holds.facts]
    rw [if_neg (fun refused => refused.2 identity), known]
    exact if_neg (not_not.mpr rfl)
  have applied : store.apply ⟨batch, contentDigest batch, [], { commit with replayed := true }⟩ =
      ({ commit with replayed := true }, store) := rfl
  constructor
  · rw [MemoryFactStore.commitFactBatch, prepare, plan]
    simp only [applied]
  · intro watermark
    have here := Dict.get?_isSome.mp (Option.isSome_of_eq_some known)
    rw [MemoryFactStore.commitFactBatch, prepare, holds.prepareGuarded here, plan]
    simp only [applied]

/-- A batch keeps its table entry, and the journal its identity. -/
theorem Holds.keep (holds : Holds contentDigest store history)
    (known : store.batches.get? batch.batchId = some committed)
    (identity : batch.schemaIdentity ∈ identities (allFacts history)) {store' : MemoryFactStore}
    {later : List FactBatch} (holds' : Holds contentDigest store' (history ++ later)) :
    store'.batches.get? batch.batchId = some committed ∧
      batch.schemaIdentity ∈ identities (allFacts (history ++ later)) := by
  constructor
  · have member := Dict.mem_of_get? known
    rw [holds.batches] at member
    apply Dict.get?_of_mem
    rw [holds'.batches, commitEntries_append]
    exact List.mem_append_left _ member
  · rw [identities, List.mem_dedup, List.mem_map] at identity ⊢
    obtain ⟨fact, member, same⟩ := identity
    refine ⟨fact, ?_, same⟩
    rw [allFacts, List.flatMap_append]
    exact List.mem_append_left _ member

/-- Which facts a commit's range holds. -/
def Occupies (store : MemoryFactStore) (commit : FactCommit) (batch : FactBatch) : Prop :=
  commit.batchId = batch.batchId ∧ 1 ≤ commit.firstSequence ∧ commit.factCount = batch.facts.length ∧
    commit.lastSequence + 1 = commit.firstSequence + commit.factCount ∧
    (store.facts.drop (commit.firstSequence - 1)).take commit.factCount =
      numbered commit.firstSequence batch.facts

theorem Holds.occupies_of_mem {front back : List FactBatch}
    (holds : Holds contentDigest store (front ++ batch :: back)) :
    Occupies store (commitEntry contentDigest (1 + (allFacts front).length) batch).2.commit batch := by
  refine ⟨rfl, ?_, rfl, ?_, ?_⟩
  · simp only [commitEntry]
    omega
  · simp only [commitEntry]
    omega
  · simp only [commitEntry, Nat.add_sub_cancel_left]
    exact holds.entry.2

theorem Holds.occupies (holds : Holds contentDigest store history)
    (known : store.batches.get? batchId = some committed) :
    ∃ batch ∈ history, batch.batchId = batchId ∧ committed.digest = contentDigest batch ∧
      Occupies store committed.commit batch := by
  have member := Dict.mem_of_get? known
  rw [holds.batches] at member
  obtain ⟨front, batch, back, rfl, same⟩ := mem_commitEntries contentDigest member
  cases same
  exact ⟨batch, by simp, rfl, rfl, holds.occupies_of_mem⟩

/-- Two batches of the table have ranges one after the other. -/
theorem Holds.disjoint (holds : Holds contentDigest store history) {otherId : String}
    {other : CommittedFactBatch} (here : store.batches.get? batchId = some committed)
    (there : store.batches.get? otherId = some other) (different : batchId ≠ otherId) :
    committed.commit.lastSequence < other.commit.firstSequence ∨
      other.commit.lastSequence < committed.commit.firstSequence := by
  have ordered := commitEntries_ordered contentDigest 1 history
  rw [← holds.batches, List.pairwise_iff_getElem] at ordered
  obtain ⟨i, inside, one⟩ := List.mem_iff_getElem.mp (Dict.mem_of_get? here)
  obtain ⟨j, inside', two⟩ := List.mem_iff_getElem.mp (Dict.mem_of_get? there)
  rcases Nat.lt_trichotomy i j with before | rfl | after
  · have apart := ordered i j inside inside' before
    rw [one, two] at apart
    exact Or.inl apart
  · rw [one] at two
    exact absurd (congrArg Prod.fst two) different
  · have apart := ordered j i inside' inside after
    rw [one, two] at apart
    exact Or.inr apart

/-- The index lists the journal's facts. -/
theorem Holds.index (holds : Holds contentDigest store history) (factId : Uuid) (entry : StoredFact) :
    store.byId.get? factId = some entry ↔ entry ∈ store.facts ∧ entry.fact.factId = factId := by
  obtain ⟨lineage, valid⟩ := holds.lineage
  have distinct : ((store.facts.map fun entry => (entry.fact.factId, entry)).map Prod.fst).Nodup := by
    rw [List.map_map]
    exact (validateEntries_ids valid).1
  have entries : store.byId.entries = store.facts.map fun entry => (entry.fact.factId, entry) := by
    rw [holds.byId, Dict.entries_update_of_disjoint distinct (by simp)]
    rfl
  constructor
  · intro found
    have member := Dict.mem_of_get? found
    rw [entries] at member
    obtain ⟨other, here, same⟩ := List.mem_map.mp member
    cases same
    exact ⟨here, rfl⟩
  · rintro ⟨member, rfl⟩
    apply Dict.get?_of_mem
    rw [entries]
    exact List.mem_map_of_mem member

variable (contentDigest) in
/-- From the empty store, after any requests: validation accepts what is stored, the index
lists it, every batch of the table occupies a range of its own; the next request leaves
the store as it is or commits its batch, and what was accepted is replayed at every later
time with the same range and without a change. -/
theorem factStore_runs (requests : List CommitRequest) :
    let store := (factStore contentDigest).final .empty requests
    validateFactJournal contentDigest store.facts store.batches = .ok () ∧
    (∀ factId entry, store.byId.get? factId = some entry ↔
      entry ∈ store.facts ∧ entry.fact.factId = factId) ∧
    (∀ batchId committed, store.batches.get? batchId = some committed →
      (∃ batch, batch.batchId = batchId ∧ committed.digest = contentDigest batch ∧
        Occupies store committed.commit batch) ∧
      ∀ otherId other, store.batches.get? otherId = some other → batchId ≠ otherId →
        committed.commit.lastSequence < other.commit.firstSequence ∨
          other.commit.lastSequence < committed.commit.firstSequence) ∧
    ∀ request,
      match store.commitFactBatch contentDigest request with
      | (.error _, store') => store' = store
      | (.ok commit, store') =>
        (commit.replayed = true → store' = store) ∧
        (commit.replayed = false → store'.batches.get? request.batch.batchId =
          some ⟨contentDigest request.batch, commit⟩ ∧ Occupies store' commit request.batch) ∧
        ∀ later,
          let store'' := (factStore contentDigest).final store' later
          store''.commitFactBatch contentDigest (.commit request.batch) =
              (.ok { commit with replayed := true }, store'') ∧
            ∀ watermark : Nat,
              store''.commitFactBatch contentDigest (.guarded request.batch watermark) =
                (.ok { commit with replayed := true }, store'') := by
  intro store
  obtain ⟨history, holds⟩ := (Holds.empty contentDigest).final requests
  rw [List.nil_append] at holds
  refine ⟨holds.valid, holds.index, ?_, ?_⟩
  · intro batchId committed here
    obtain ⟨batch, _, named, digest, occupies⟩ := holds.occupies here
    exact ⟨⟨batch, named, digest, occupies⟩, fun otherId other there => holds.disjoint here there⟩
  · intro request
    have outcome := commitFactBatch_outcome holds request
    generalize store.commitFactBatch contentDigest request = result at outcome ⊢
    cases outcome with
    | refused error => rfl
    | replayed commit known identity =>
      refine ⟨fun _ => rfl, fun fresh => absurd fresh (by simp), fun later => ?_⟩
      obtain ⟨more, holds'⟩ := holds.final later
      obtain ⟨known', identity'⟩ := holds.keep known identity holds'
      have again := holds'.replay known' identity'
      exact again
    | fresh store' new holds' =>
      have length : store.facts.length = (allFacts history).length := by
        rw [holds.facts, length_numbered]
      have known := holds'.entry.1
      have occupies := holds'.occupies_of_mem
      rw [← length, Nat.add_comm 1] at known occupies
      have identity : request.batch.schemaIdentity ∈ identities (allFacts (history ++ [request.batch])) := by
        rw [identities, List.mem_dedup]
        refine List.mem_map_of_mem (List.mem_flatMap.mpr ⟨request.batch, by simp, ?_⟩)
        exact List.head_mem request.batch.nonempty
      refine ⟨fun replayed => absurd replayed (by simp [commitEntry]), fun _ => ⟨known, occupies⟩,
        fun later => ?_⟩
      obtain ⟨more, holds''⟩ := holds'.final later
      obtain ⟨known', identity'⟩ := holds'.keep known identity holds''
      exact holds''.replay known' identity'

end

/-! ## A store with one object -/

def sampleFact (factId : Uuid) (assertion : FactAssertion)
    (texts : ([assertion.semanticId, "steward", "row-1"] ++ [] ++ (none : Option PyStr).toList ++
      (none : Option PyStr).toList ++ (none : Option PyStr).toList).all isText = true) : FactRecord where
  factId := factId
  subjectId := 7
  schemaIdentity := ⟨"demo", "demo.core", "1.0.0"⟩
  assertion := assertion
  assertionKind := .asserted
  sourceRef := "steward"
  sourceRecordRef := "row-1"
  validFrom := 0
  recordedAt := 1
  validTo := none
  evidenceRefs := []
  methodologyRef := none
  confidence := none
  authorRef := none
  agentRef := none
  supersedes := none
  corrects := none
  texts := texts
  interval := rfl
  certainty := rfl
  oneEdge := Or.inl rfl
  notSelf := by simp

/-- One object with one property. -/
def sampleBatch : FactBatch where
  batchId := "import-1"
  facts := [sampleFact 1 (.object "demo.core.person") (by decide),
    sampleFact 2 (.property "demo.core.person.name" (.str "Ada")) (by decide)]
  text := by decide
  nonempty := by simp
  oneIdentity := by decide
  distinct := by decide

/-- A digest by the fact ids, which tells the batches below apart. -/
def sampleDigest (batch : FactBatch) : String :=
  String.join (batch.batchId :: batch.facts.map fun fact => fact.factId.text)

theorem factStore_runs_sample :
    ((factStore sampleDigest).final .empty [.commit sampleBatch]).batches.get? "import-1" =
        some (commitEntry sampleDigest 1 sampleBatch).2 ∧
      ∃ batch, batch.batchId = "import-1" ∧
        Occupies ((factStore sampleDigest).final .empty [.commit sampleBatch]) ⟨"import-1", 1, 2, 2, false⟩
          batch := by
  have here : ((factStore sampleDigest).final .empty [.commit sampleBatch]).batches.get? "import-1" =
      some (commitEntry sampleDigest 1 sampleBatch).2 := by
    decide
  refine ⟨here, ?_⟩
  obtain ⟨⟨batch, named, _, occupies⟩, _⟩ :=
    (factStore_runs sampleDigest [.commit sampleBatch]).2.2.1 "import-1" _ here
  exact ⟨batch, named, occupies⟩

end Loushang.Facts
