import Loushang.Conversation.HeadRefinement
import Loushang.Lib.Raises

/-!
# What an append or a batch decides

The decisions of `FileStore` on a journal whose stable ids are distinct, for a
usable head or none: which requests are answered from the journal, which are
refused and which append. The filter running out of segments is the one outcome
that depends on more than the records; `HeadFits` rules it out.
-/
namespace Loushang.Conversation
open Loushang.Lib

section

variable {R : Type} {cfg : StoreConfig R}

/-- A head the store may consult for a journal holding `records`. -/
def UsableHead (cfg : StoreConfig R) (records : List R) (head : Option StoreHead) : Prop :=
  ∀ found, head = some found → cfg.headCompatibilityToken ≠ none ∧ HeadFor cfg records found

/-- The journal's ids fit the operation filter wherever heads are kept. -/
def HeadFits (cfg : StoreConfig R) (records : List R) : Prop :=
  cfg.headCompatibilityToken = none ∨
    ∃ operationFilter, cfg.filterSet.addAll [] (stableIds cfg records) = some operationFilter

variable {records : List R}

theorem HeadFits.front {appended : List R} (fits : HeadFits cfg (records ++ appended)) :
    HeadFits cfg records := by
  refine fits.imp_right ?_
  rintro ⟨operationFilter, added⟩
  rw [stableIds_append, LossySet.addAll_append] at added
  obtain ⟨middle, first, _⟩ := Option.bind_eq_some_iff.mp added
  exact ⟨middle, first⟩

theorem UsableHead.none (records : List R) : UsableHead cfg records none := by
  intro found absurd
  cases absurd

theorem rebuildHead_spec {identity : JournalIdentity} {rebuilt : Option StoreHead}
    (success : rebuildHead cfg identity records = .ok rebuilt) :
    UsableHead cfg records rebuilt ∧ ∀ found, rebuilt = some found → found.identity = identity := by
  unfold rebuildHead at success
  split at success
  · cases success
    exact ⟨UsableHead.none records, by simp⟩
  · next token enabled =>
    split at success
    · cases success
    · next head built =>
      cases success
      constructor
      · rintro found ⟨⟩
        exact ⟨by simp [enabled], buildStoreHead_sound built⟩
      · rintro found ⟨⟩
        obtain ⟨scan, _, rfl⟩ := Option.map_eq_some_iff.mp built
        rfl

theorem rebuildHead_cases (cfg : StoreConfig R) (identity : JournalIdentity) (records : List R) :
    (∃ rebuilt, rebuildHead cfg identity records = .ok rebuilt) ∨
      (¬ HeadFits cfg records ∧
        rebuildHead cfg identity records = .error (.data "append to" "ValueError")) := by
  unfold rebuildHead
  split
  · exact Or.inl ⟨_, rfl⟩
  · next token enabled =>
    split
    · next full =>
      refine Or.inr ⟨?_, rfl⟩
      rintro (disabled | ⟨operationFilter, added⟩)
      · simp [enabled] at disabled
      · obtain ⟨scan, scanned⟩ : ∃ scan, scanRecords cfg (records.length - recentRecordLimit) 0
            records ⟨[], [], [], []⟩ = some scan := scanRecords_total added
        simp [buildStoreHead, scanned] at full
    · exact Or.inl ⟨_, rfl⟩

theorem advanceRecords_cases (cfg : StoreConfig R) (appended : List R) (operationFilter : OperationFilter)
    (revision : Nat) (recent : List RecentRecord) :
    (∃ after, advanceRecords cfg (appended.map cfg.headEntry) (revision, operationFilter, recent) =
        .ok after) ∨
      (cfg.filterSet.addAll operationFilter (stableIds cfg appended) = none ∧
        advanceRecords cfg (appended.map cfg.headEntry) (revision, operationFilter, recent) =
          .error "ValueError") := by
  induction appended generalizing operationFilter revision recent with
  | nil => exact Or.inl ⟨_, rfl⟩
  | cons record rest ih =>
    simp only [List.map_cons, StoreConfig.headEntry, advanceRecords]
    split
    · next unidentified =>
      have ids : stableIds cfg (record :: rest) = stableIds cfg rest := by
        simp [stableIds, StoreConfig.stableId, unidentified]
      rw [ids]
      exact ih ..
    · next id identified =>
      have ids : stableIds cfg (record :: rest) = id :: stableIds cfg rest := by
        simp [stableIds, StoreConfig.stableId, identified]
      rw [(stableId_eq_some.mp identified).1, ids, LossySet.addAll_cons]
      cases cfg.filterSet.add operationFilter id with
      | none => exact Or.inr ⟨rfl, rfl⟩
      | some grown => exact ih ..

/-- A usable head is advanced unless the grown journal no longer fits. -/
theorem advanceStoreHead_cases {head : StoreHead} (usable : UsableHead cfg records (some head))
    (appended : List R) :
    (∃ advanced, advanceStoreHead cfg head (appended.map cfg.headEntry) = .ok advanced ∧
        HeadFor cfg (records ++ appended) advanced) ∨
      (¬ HeadFits cfg (records ++ appended) ∧
        advanceStoreHead cfg head (appended.map cfg.headEntry) = .error "ValueError") := by
  obtain ⟨enabled, valid⟩ := usable head rfl
  rcases advanceRecords_cases cfg appended head.operationFilter head.revision
    head.recentRecords with ⟨after, loop⟩ | ⟨full, loop⟩
  · have success : advanceStoreHead cfg head (appended.map cfg.headEntry) = .ok
        { head with
          revision := after.1
          operationFilter := after.2.1
          recentRecords := lastItems recentRecordLimit after.2.2 } := by
      simp [advanceStoreHead, loop, Except.map]
    exact Or.inl ⟨_, success, advanceStoreHead_sound success valid⟩
  · refine Or.inr ⟨?_, by simp [advanceStoreHead, loop, Except.map]⟩
    rintro (disabled | ⟨operationFilter, added⟩)
    · exact enabled disabled
    · rw [stableIds_append, LossySet.addAll_append, valid.parts.filterBuilt, Option.bind_some,
        full] at added
      cases added

variable {position : Nat} {operationId : String}

/-- Distinct ids make every identified record the only one under its id. -/
theorem sole_of_nodup (distinct : (stableIds cfg records).Nodup) {record : R}
    (here : records[position]? = some record) (identified : cfg.stableId record = some operationId) :
    Sole cfg records operationId position record := by
  obtain ⟨claimed, text⟩ := stableId_eq_some.mp identified
  refine ⟨here, claimed, ?_⟩
  intro index other found same
  rw [← map_stableEntries 0] at distinct
  have equal := List.inj_on_of_nodup_map distinct
    (mem_stableEntries.mpr ⟨index, other, found, rfl, stableId_eq_some.mpr ⟨same, text⟩, rfl⟩)
    (mem_stableEntries.mpr ⟨position, record, here, rfl, identified, rfl⟩) rfl
  have positions := congrArg Prod.fst equal
  omega

theorem absent_of_not_mem (text : isBlank operationId.toList = false)
    (missing : operationId ∉ stableIds cfg records) :
    ∀ other ∈ records, cfg.projectedId other ≠ some operationId := by
  intro other member claimed
  exact missing (mem_stableIds.mpr ⟨other, member, stableId_eq_some.mpr ⟨claimed, text⟩⟩)

theorem exists_sole (distinct : (stableIds cfg records).Nodup) (present : operationId ∈ stableIds cfg records) :
    ∃ position stored, Sole cfg records operationId position stored := by
  obtain ⟨stored, member, identified⟩ := mem_stableIds.mp present
  obtain ⟨position, here⟩ := List.mem_iff_getElem?.mp member
  exact ⟨position, stored, sole_of_nodup distinct here identified⟩

theorem Sole.unique {position' : Nat} {record record' : R}
    (sole : Sole cfg records operationId position record)
    (sole' : Sole cfg records operationId position' record') : position = position' ∧ record = record' := by
  obtain rfl := sole.only _ _ sole'.here sole'.identified
  exact ⟨rfl, Option.some.inj (sole.here.symm.trans sole'.here)⟩

/-! ## Appends -/

/-- What an append comes to whose operation is not in the journal. -/
inductive NewAppend (cfg : StoreConfig R) (records : List R) (record : R) (expected : Nat)
    (operationId : String) : Except StoreError AppendDecision → Prop where
  | committed (current : records.length = expected) (advanced : Option StoreHead)
      (heads : ∀ found, advanced = some found → HeadFor cfg (records ++ [record]) found) :
      NewAppend cfg records record expected operationId
        (.ok (.committed ⟨records.length + 1, some operationId⟩ advanced))
  | stale (differs : records.length ≠ expected) :
      NewAppend cfg records record expected operationId
        (.error (.atRevision records.length expected))
  | full (overflow : ¬ (HeadFits cfg records ∧
        (records.length = expected → HeadFits cfg (records ++ [record])))) :
      NewAppend cfg records record expected operationId (.error (.data "append to" "ValueError"))

/-- What an append comes to whose operation is `stored`'s, at `position`: it never
appends. Only the digest of `stored` is known to be the requested one. -/
inductive KnownAppend (cfg : StoreConfig R) (identity : JournalIdentity) (records : List R)
    (record stored : R) (position : Nat) (operationId : String) :
    Except StoreError AppendDecision → Prop where
  | replayed (digests : cfg.recordDigest stored = cfg.recordDigest record)
      (rebuilt : Option StoreHead)
      (heads : ∀ found, rebuilt = some found →
        HeadFor cfg records found ∧ found.identity = identity) :
      KnownAppend cfg identity records record stored position operationId
        (.ok (.replayed ⟨position + 1, some operationId⟩ rebuilt))
  | reused (differs : stored ≠ record) :
      KnownAppend cfg identity records record stored position operationId
        (.error (.operationReusedForAppend operationId))
  | full (same : stored = record) (overflow : ¬ HeadFits cfg records) :
      KnownAppend cfg identity records record stored position operationId
        (.error (.data "append to" "ValueError"))

section Append

variable {identity : JournalIdentity} {records : List R} {record stored : R} {position expected : Nat}
  {operationId : String} {head : Option StoreHead}

theorem lockedReceipt_of_text {action : String} {revision : Nat}
    (text : isBlank operationId.toList = false) :
    lockedReceipt action (revision + 1) (some operationId) =
      .ok ⟨revision + 1, some operationId⟩ := by
  simp [lockedReceipt, CommitReceipt.make_of_id (Nat.succ_pos revision) text]

theorem finishAppend_new (usable : UsableHead cfg records head)
    (text : isBlank operationId.toList = false)
    (requested : cfg.projectedId record = some operationId) :
    NewAppend cfg records record expected operationId
      (finishAppend cfg records.length head record expected) := by
  unfold finishAppend
  split
  · next differs => exact .stale differs
  · next current =>
    rw [requested, lockedReceipt_of_text text]
    simp only
    split
    · exact .committed (not_not.mp current) none (by simp)
    · next head =>
      have entry : (some operationId, (some operationId).map fun _ => cfg.recordDigest record) =
          cfg.headEntry record := by
        simp [StoreConfig.headEntry, requested]
      rw [entry]
      rcases advanceStoreHead_cases usable [record] with ⟨advanced, success, sound⟩ | ⟨overflow, fails⟩
      · rw [List.map_singleton] at success
        rw [success]
        exact .committed (not_not.mp current) (some advanced) (by rintro found ⟨⟩; exact sound)
      · rw [List.map_singleton] at fails
        rw [fails]
        exact .full fun fits => overflow (fits.2 (not_not.mp current))

theorem replayAppend_new [DecidableEq R] (text : isBlank operationId.toList = false)
    (requested : cfg.projectedId record = some operationId)
    (absent : ∀ other ∈ records, cfg.projectedId other ≠ some operationId) :
    NewAppend cfg records record expected operationId
      (replayAppend cfg identity records record expected operationId) := by
  simp only [replayAppend, reconcileAppend_absent record absent, bind, Except.bind]
  rcases rebuildHead_cases cfg identity records with ⟨rebuilt, rebuilds⟩ | ⟨overflow, fails⟩
  · rw [rebuilds]
    exact finishAppend_new (rebuildHead_spec rebuilds).1 text requested
  · rw [fails]
    exact .full fun fits => overflow fits.1

theorem decideAppend_new [DecidableEq R] (usable : UsableHead cfg records head)
    (text : isBlank operationId.toList = false)
    (requested : cfg.projectedId record = some operationId)
    (absent : ∀ other ∈ records, cfg.projectedId other ≠ some operationId) :
    NewAppend cfg records record expected operationId
      (decideAppend cfg head identity records record expected operationId) := by
  cases head with
  | none => exact replayAppend_new text requested absent
  | some head =>
    obtain ⟨_, valid⟩ := usable head rfl
    simp only [decideAppend, requested, true_and, Option.map_some]
    split
    · split
      · next revision found =>
        obtain ⟨position, stored, _, sole, _⟩ := valid.sole text found
        exact absurd sole.identified (absent stored (List.mem_of_getElem? sole.here))
      · exact replayAppend_new text requested absent
    · rw [valid.revision]
      exact finishAppend_new usable text requested

theorem replayAppend_known [DecidableEq R] (text : isBlank operationId.toList = false)
    (requested : cfg.projectedId record = some operationId)
    (sole : Sole cfg records operationId position stored) :
    KnownAppend cfg identity records record stored position operationId
      (replayAppend cfg identity records record expected operationId) := by
  by_cases same : stored = record
  · subst same
    simp only [replayAppend, reconcileAppend_sole sole, lockedReceipt_of_text text, Except.map, bind,
      Except.bind]
    rcases rebuildHead_cases cfg identity records with ⟨rebuilt, rebuilds⟩ | ⟨overflow, fails⟩
    · rw [rebuilds]
      obtain ⟨valid, identities⟩ := rebuildHead_spec rebuilds
      exact .replayed rfl rebuilt fun found present =>
        ⟨(valid found present).2, identities found present⟩
    · rw [fails]
      exact .full rfl overflow
  · simp only [replayAppend, reconcileAppend_reused sole requested same, bind, Except.bind]
    exact .reused same

theorem decideAppend_known [DecidableEq R] (usable : UsableHead cfg records head)
    (text : isBlank operationId.toList = false)
    (requested : cfg.projectedId record = some operationId)
    (sole : Sole cfg records operationId position stored) :
    KnownAppend cfg identity records record stored position operationId
      (decideAppend cfg head identity records record expected operationId) := by
  cases head with
  | none => exact replayAppend_known text requested sole
  | some head =>
    obtain ⟨_, valid⟩ := usable head rfl
    have reported : cfg.filterSet.mightContain head.operationFilter operationId = true := by
      by_contra unreported
      exact valid.absent text (Bool.eq_false_iff.mpr unreported) stored
        (List.mem_of_getElem? sole.here) sole.identified
    simp only [decideAppend, requested, reported, and_self, if_true, Option.map_some]
    split
    · next revision found =>
      obtain ⟨at', stored', rfl, sole', digests⟩ := valid.sole text found
      obtain ⟨rfl, rfl⟩ := sole.unique sole'
      rw [lockedReceipt_of_text text]
      exact .replayed digests none (by simp)
    · exact replayAppend_known text requested sole

end Append

/-! ## Batches -/

/-- A batch that is answered, after `matched` of its operations were found at
their own positions of the journal. -/
structure BatchAnswered (cfg : StoreConfig R) (identity : JournalIdentity) (existing records : List R)
    (operationIds : List String) (expected matched : Nat) (decision : BatchDecision R) : Prop where
  bounded : matched ≤ records.length
  appended : decision.appended = records.drop matched
  receipts : decision.receipts = batchReceipts (expected + 1) (operationIds.take matched) ++
    batchReceipts (expected + matched + 1) (operationIds.drop matched)
  heads : ∀ found, decision.head = some found → HeadFor cfg (existing ++ decision.appended) found ∧
    (decision.appended = [] → found.identity = identity)
  current : matched < records.length → expected + matched = existing.length
  -- the filter vouches for every appended operation, replay for the first one only
  fresh : matched < records.length →
    (∀ operationId ∈ operationIds.drop matched, operationId ∉ stableIds cfg existing) ∨
      (records.take matched = existing.drop expected ∧
        ∀ operationId, operationIds[matched]? = some operationId →
          operationId ∉ stableIds cfg existing)

section Batch

variable {identity : JournalIdentity} {existing records : List R} {operationIds : List String}
  {expected matched : Nat} {head : Option StoreHead}

variable {operationId : String}

theorem not_mem_stableIds (absent : ∀ other ∈ existing, cfg.projectedId other ≠ some operationId) :
    operationId ∉ stableIds cfg existing := by
  intro member
  obtain ⟨other, present, identified⟩ := mem_stableIds.mp member
  exact absent other present (stableId_eq_some.mp identified).1

variable {pairs : List (R × String)} {position : Nat}

/-- What the replay loop has established when it stops. -/
theorem matchRecords_ok [DecidableEq R] (success : matchRecords cfg existing position pairs = .ok matched)
    (begun : position ≤ existing.length) :
    matched ≤ pairs.length ∧ position + matched ≤ existing.length ∧
      (pairs.take matched).map Prod.fst = (existing.drop position).take matched ∧
      (matched < pairs.length → position + matched = existing.length ∧
        ∀ pair, pairs[matched]? = some pair →
          ∀ other ∈ existing, cfg.projectedId other ≠ some pair.2) := by
  induction pairs generalizing position matched with
  | nil =>
    cases success
    simpa using begun
  | cons pair rest ih =>
    obtain ⟨record, operationId⟩ := pair
    obtain ⟨-, success⟩ := raise_if_ok success
    split at success
    · cases success
    · next elsewhere =>
      split at success
      · next beyond =>
        cases success
        refine ⟨Nat.zero_le _, begun, rfl, fun _ => ⟨Nat.le_antisymm begun beyond, ?_⟩⟩
        rintro pair ⟨⟩ other member claimed
        obtain ⟨index, found⟩ := List.mem_iff_getElem?.mp member
        obtain ⟨inside, _⟩ := List.getElem?_eq_some_iff.mp found
        have noted : (index, other) ∈ occurrences cfg existing operationId :=
          mem_occurrences.mpr ⟨found, claimed⟩
        simp only [List.any_eq_true, not_exists, not_and, decide_eq_true_eq, not_not] at elsewhere
        have same := congrArg Prod.fst (elsewhere _ noted)
        omega
      · next within =>
        split at success
        · cases success
        · next agrees =>
          cases deeper : matchRecords cfg existing (position + 1) rest with
          | error error =>
            rw [deeper] at success
            cases success
          | ok fewer =>
            rw [deeper] at success
            cases success
            obtain ⟨bounded, inside, overlap, stop⟩ := ih deeper (by omega)
            have here : existing.drop position = record :: existing.drop (position + 1) := by
              obtain ⟨lt, rfl⟩ := List.getElem?_eq_some_iff.mp (not_not.mp agrees)
              exact List.drop_eq_getElem_cons lt
            refine ⟨Nat.succ_le_succ bounded, by omega, ?_, ?_⟩
            · simp [here, overlap]
            · intro more
              obtain ⟨ends, absent⟩ := stop (Nat.lt_of_succ_lt_succ more)
              exact ⟨by omega, fun pair found => absent pair (by simpa using found)⟩

variable {decision : BatchDecision R}

theorem finishBatch_ok [DecidableEq R] (identity : JournalIdentity) {receipts : List CommitReceipt}
    {replayed : Bool} (usable : UsableHead cfg existing head)
    (identities : replayed = true → ∀ found, head = some found → found.identity = identity)
    (aligned : Aligned cfg records operationIds) (bounded : matched ≤ records.length)
    (success : finishBatch cfg (receipts, records.drop matched) head replayed records operationIds =
      .ok decision) :
    decision.receipts = receipts ∧ decision.appended = records.drop matched ∧
      ∀ found, decision.head = some found → HeadFor cfg (existing ++ decision.appended) found ∧
        (decision.appended = [] → found.identity = identity) := by
  unfold finishBatch at success
  split at success
  · cases success
    simp
  · next head =>
    rw [appended_headEntries aligned bounded] at success
    split at success
    · next nothing =>
      cases success
      refine ⟨rfl, nothing.symm, ?_⟩
      intro found present
      cases replayed with
      | false => cases present
      | true =>
        cases present
        simpa using ⟨(usable head rfl).2, identities rfl head rfl⟩
    · next something =>
      rcases advanceStoreHead_cases usable (records.drop matched) with
        ⟨advanced, advances, sound⟩ | ⟨_, fails⟩
      · rw [advances] at success
        cases success
        refine ⟨rfl, rfl, ?_⟩
        rintro found ⟨⟩
        exact ⟨sound, fun nothing => absurd nothing something⟩
      · rw [fails] at success
        cases success

theorem preparedBatch_ok {revision : Nat} {prepared : List CommitReceipt × List R}
    (success : preparedBatch revision expected matched records operationIds = .ok prepared) :
    prepared = (batchReceipts (expected + 1) (operationIds.take matched) ++
      batchReceipts (expected + matched + 1) (operationIds.drop matched), records.drop matched) := by
  unfold preparedBatch at success
  split at success
  · cases success
  · cases success
    rfl

theorem replayBatch_ok [DecidableEq R] (aligned : Aligned cfg records operationIds)
    (success : replayBatch cfg identity existing records operationIds expected = .ok decision) :
    ∃ matched, BatchAnswered cfg identity existing records operationIds expected matched decision := by
  unfold replayBatch prepareBatchFromRecords at success
  split at success
  · cases success
  · next reached =>
    cases matching : matchRecords cfg existing expected (records.zip operationIds) with
    | error error =>
      rw [matching] at success
      cases success
    | ok matched =>
      rw [matching] at success
      simp only [bind, Except.bind] at success
      split at success
      · cases success
      · next prepared prepares =>
        obtain rfl := preparedBatch_ok prepares
        obtain ⟨bounded, inside, overlap, stop⟩ := matchRecords_ok matching (by omega)
        have size : (records.zip operationIds).length = records.length := by
          simp [aligned.length]
        rw [size] at bounded stop
        rcases rebuildHead_cases cfg identity existing with ⟨rebuilt, rebuilds⟩ | ⟨_, fails⟩
        · rw [rebuilds] at success
          obtain ⟨usable, identities⟩ := rebuildHead_spec rebuilds
          obtain ⟨receipts, appended, heads⟩ :=
            finishBatch_ok identity usable (fun _ => identities) aligned bounded success
          refine ⟨matched, bounded, appended, receipts, heads, fun more => (stop more).1, ?_⟩
          intro more
          refine Or.inr ⟨?_, ?_⟩
          · rw [List.map_take, List.map_fst_zip (by simp [aligned.length])] at overlap
            rw [overlap, List.take_of_length_le]
            rw [List.length_drop]
            omega
          · intro operationId found
            obtain ⟨record, here⟩ : ∃ record, records[matched]? = some record :=
              ⟨_, List.getElem?_eq_getElem more⟩
            exact not_mem_stableIds ((stop more).2 (record, operationId)
              (List.getElem?_zip_eq_some.mpr ⟨here, found⟩))
        · rw [fails] at success
          cases success

/-- Every answered batch, whichever way it was decided. -/
theorem decideBatch_ok [DecidableEq R] (usable : UsableHead cfg existing head)
    (aligned : Aligned cfg records operationIds)
    (success : decideBatch cfg head identity existing records operationIds expected = .ok decision) :
    ∃ matched, BatchAnswered cfg identity existing records operationIds expected matched decision := by
  cases head with
  | none => exact replayBatch_ok aligned success
  | some head =>
    obtain ⟨enabled, valid⟩ := usable head rfl
    unfold decideBatch prepareBatchFromHead at success
    simp only [valid.revision] at success
    split at success
    · cases success
    · next reached =>
      cases found : matchRecent head expected (operationIds.zip (records.map cfg.recordDigest)) with
      | none =>
        rw [found] at success
        exact replayBatch_ok aligned success
      | some matched =>
        rw [found] at success
        simp only [bind, Except.bind] at success
        have stop := matchRecent_stop found (by rw [valid.revision]; omega)
        have bounded := matchRecent_le found
        have size : (operationIds.zip (records.map cfg.recordDigest)).length = records.length := by
          simp [aligned.length]
        rw [valid.revision, size] at stop
        rw [size] at bounded
        cases prepares : preparedBatch existing.length expected matched records operationIds with
        | error error =>
          rw [prepares] at success
          cases success
        | ok prepared =>
          rw [prepares] at success
          obtain rfl := preparedBatch_ok prepares
          by_cases reported : (operationIds.drop matched).any
              (cfg.filterSet.mightContain head.operationFilter) = true
          · simp only [reported, if_true] at success
            exact replayBatch_ok aligned success
          · simp only [reported] at success
            obtain ⟨receipts, appended, heads⟩ := finishBatch_ok identity usable
              (by simp) aligned bounded success
            refine ⟨matched, bounded, appended, receipts, heads, stop.2, fun _ => Or.inl ?_⟩
            intro operationId member
            simp only [List.any_eq_true, not_exists, not_and, Bool.not_eq_true] at reported
            exact not_mem_stableIds (valid.absent (aligned.text operationId
              (List.mem_of_mem_drop member)) (reported operationId member))

/-- On an overlap that equals the journal the loop reaches the first operation
past it, and refuses that one when it stands elsewhere. -/
theorem matchRecords_reused [DecidableEq R] (distinct : (stableIds cfg existing).Nodup)
    (aligned : ∀ pair ∈ pairs, cfg.projectedId pair.1 = some pair.2 ∧ isBlank pair.2.toList = false)
    (begun : position ≤ existing.length)
    (overlap : (pairs.take (existing.length - position)).map Prod.fst = existing.drop position) {record : R}
    (next : pairs[existing.length - position]? = some (record, operationId))
    (present : operationId ∈ stableIds cfg existing) :
    matchRecords cfg existing position pairs = .error (.operationReusedForAppend operationId) := by
  induction pairs generalizing position with
  | nil => simp at next
  | cons pair rest ih =>
    obtain ⟨firstRecord, firstId⟩ := pair
    rcases Nat.eq_or_lt_of_le begun with rfl | within
    · -- at the journal's end: the operation stands at an earlier position
      simp only [Nat.sub_self, List.getElem?_cons_zero, Option.some.injEq, Prod.mk.injEq] at next
      obtain ⟨rfl, rfl⟩ := next
      obtain ⟨at', stored, sole⟩ := exists_sole distinct present
      obtain ⟨inside, _⟩ := List.getElem?_eq_some_iff.mp sole.here
      have elsewhere : (at', stored) ≠ (existing.length, firstRecord) := by
        rintro ⟨⟩
        omega
      simp [matchRecords, occurrences_sole sole, elsewhere]
    · have count : existing.length - position = existing.length - (position + 1) + 1 := by omega
      rw [count] at overlap next
      rw [List.drop_eq_getElem_cons within] at overlap
      simp only [List.take_succ_cons, List.map_cons, List.cons.injEq] at overlap
      have here : existing[position]? = some firstRecord := by
        rw [List.getElem?_eq_getElem within, overlap.1]
      obtain ⟨requested, text⟩ := aligned _ List.mem_cons_self
      have sole := sole_of_nodup distinct here (stableId_eq_some.mpr ⟨requested, text⟩)
      have later := ih (fun pair member => aligned pair (List.mem_cons_of_mem _ member)) within
        overlap.2 (by simpa using next)
      simp [matchRecords, occurrences_sole sole, here, later, Except.map,
        Nat.not_le.mpr within]

/-- A batch that agrees with the journal up to its end is refused when the next
operation is already in the journal. -/
theorem decideBatch_reused [DecidableEq R] (distinct : (stableIds cfg existing).Nodup)
    (usable : UsableHead cfg existing head) (aligned : Aligned cfg records operationIds)
    (begun : expected ≤ existing.length)
    (overlap : records.take (existing.length - expected) = existing.drop expected)
    (next : operationIds[existing.length - expected]? = some operationId)
    (present : operationId ∈ stableIds cfg existing) :
    decideBatch cfg head identity existing records operationIds expected =
      .error (.operationReusedForAppend operationId) := by
  have more : existing.length - expected < records.length := by
    obtain ⟨inside, _⟩ := List.getElem?_eq_some_iff.mp next
    rw [aligned.length]
    exact inside
  have replays : replayBatch cfg identity existing records operationIds expected =
      .error (.operationReusedForAppend operationId) := by
    have loop := matchRecords_reused distinct aligned.mem_zip begun
      (by rw [List.map_take, List.map_fst_zip (by simp [aligned.length]), overlap])
      (List.getElem?_zip_eq_some.mpr ⟨List.getElem?_eq_getElem more, next⟩) present
    simp [replayBatch, prepareBatchFromRecords, Nat.not_lt.mpr begun, loop, bind, Except.bind]
  cases head with
  | none => exact replays
  | some head =>
    obtain ⟨_, valid⟩ := usable head rfl
    unfold decideBatch prepareBatchFromHead
    simp only [valid.revision, Nat.not_lt.mpr begun, if_false]
    cases found : matchRecent head expected (operationIds.zip (records.map cfg.recordDigest)) with
    | none => exact replays
    | some matched =>
      have stop := matchRecent_stop found (by rw [valid.revision]; exact begun)
      have bounded := matchRecent_le found
      have size : (operationIds.zip (records.map cfg.recordDigest)).length = records.length := by
        simp [aligned.length]
      rw [valid.revision, size] at stop
      rw [size] at bounded
      obtain rfl : matched = existing.length - expected := by omega
      have prepares : preparedBatch existing.length expected (existing.length - expected) records
          operationIds = .ok (batchReceipts (expected + 1)
            (operationIds.take (existing.length - expected)) ++
            batchReceipts (expected + (existing.length - expected) + 1)
              (operationIds.drop (existing.length - expected)),
            records.drop (existing.length - expected)) := by
        unfold preparedBatch
        rw [if_neg]
        omega
      have reported : (operationIds.drop (existing.length - expected)).any
          (cfg.filterSet.mightContain head.operationFilter) = true := by
        refine List.any_eq_true.mpr ⟨operationId, ?_, ?_⟩
        · exact List.mem_of_getElem? (i := 0) (by simpa using next)
        · exact cfg.filterSet.mightContain_of_mem valid.parts.filterBuilt present
      simp only [prepares, Except.map, reported, if_true, bind, Except.bind]
      exact replays

end Batch

end

end Loushang.Conversation
