import Mathlib.Data.List.Nodup
import Loushang.Conversation.HeadSound

/-!
# Answering from the head and answering by replay

A decision's visible part is its answer and the records it appends; the head it
writes back is advisory. For every head that is true of the journal the visible
part of `decideAppend` and `decideBatch` is the one full replay computes. The
only assumption is that no requested record has the digest of another record of
the journal.
-/
namespace Loushang.Conversation
open Loushang.Lib

section

variable {H R : Type} {cfg : StoreConfig R}

/-! ## Visible effects -/

def AppendDecision.effect (record : R) : AppendDecision → CommitReceipt × List R
  | .replayed receipt _ => (receipt, [])
  | .committed receipt _ => (receipt, [record])

def BatchDecision.effect (decision : BatchDecision R) : List CommitReceipt × List R :=
  (decision.receipts, decision.appended)

/-- The journal once `appended` is durable; nothing is written for no records. -/
def grownJournal (cfg : StoreConfig R) (native : Native) (journal : JournalFile H R)
    (appended : List R) : JournalFile H R :=
  if appended = [] then journal else appendToJournal cfg native journal appended

@[simp] theorem tryWriteStoreHead_journal (native : Native) (st : FileState H R) (head : StoreHead) :
    (tryWriteStoreHead cfg native st head).journal = st.journal := by
  unfold tryWriteStoreHead
  split <;> rfl

@[simp] theorem rememberHead_journal (native : Native) (st : FileState H R) (head : StoreHead) :
    (rememberHead native st head).journal = st.journal := rfl

@[simp] theorem commitRecords_journal (background : Bool) (native : Native) (st : FileState H R)
    (journal : JournalFile H R) (appended : List R) (advanced : Option StoreHead) :
    (commitRecords cfg background native st journal appended advanced).journal =
      some (appendToJournal cfg native journal appended) := by
  unfold commitRecords
  cases advanced with
  | none => rfl
  | some head => cases background <;> simp

variable {st : FileState H R} {journal : JournalFile H R} {expectedRevision : Int}
  {operationId : String} {expected : Nat}

/-- The answer and the journal of an append depend on the decision's effect only. -/
theorem appendSync_effect [DecidableEq R] (cfg : StoreConfig R) (background : Bool) (native : Native)
    (record : R) (text : requireOperationId operationId = .ok operationId)
    (revision : requireRevision "expected revision" expectedRevision = .ok expected)
    (present : st.journal = some journal) :
    let effect := (decideAppend cfg (headForAppend cfg st journal.identity) journal.identity
      journal.records record expected operationId).map (AppendDecision.effect record)
    (appendSync cfg background native st record expectedRevision operationId).1 =
        effect.map (fun result => .receipt result.1) ∧
      (appendSync cfg background native st record expectedRevision operationId).2.journal =
        some (match effect with
          | .error _ => journal
          | .ok result => grownJournal cfg native journal result.2) := by
  unfold appendSync
  rw [text, revision, present]
  simp only
  cases decideAppend cfg (headForAppend cfg st journal.identity) journal.identity
      journal.records record expected operationId with
  | error error => exact ⟨rfl, present⟩
  | ok decision =>
    cases decision with
    | replayed receipt rebuilt =>
      cases rebuilt with
      | none => exact ⟨rfl, present⟩
      | some head => exact ⟨rfl, (tryWriteStoreHead_journal native st head).trans present⟩
    | committed receipt advanced =>
      exact ⟨rfl, commitRecords_journal background native st journal [record] advanced⟩

variable {records : List R} {operationIds : List String}

theorem appendBatchSync_effect [DecidableEq R] {cfg : StoreConfig R} (background : Bool) (native : Native)
    (checked : checkBatchRequest cfg records operationIds = .ok ())
    (revision : requireRevision "expected revision" expectedRevision = .ok expected)
    (present : st.journal = some journal) :
    let effect := (decideBatch cfg (headForAppend cfg st journal.identity) journal.identity
      journal.records records operationIds expected).map BatchDecision.effect
    (appendBatchSync cfg background native st records expectedRevision operationIds).1 =
        effect.map (fun result => .receipts result.1) ∧
      (appendBatchSync cfg background native st records expectedRevision operationIds).2.journal =
        some (match effect with
          | .error _ => journal
          | .ok result => grownJournal cfg native journal result.2) := by
  unfold appendBatchSync
  rw [checked, revision, present]
  simp only
  cases decideBatch cfg (headForAppend cfg st journal.identity) journal.identity
      journal.records records operationIds expected with
  | error error => exact ⟨rfl, present⟩
  | ok decision =>
    by_cases nothing : decision.appended = []
    · simp only [nothing, if_true, Except.map, BatchDecision.effect, grownJournal]
      refine ⟨trivial, ?_⟩
      cases decision.head with
      | none => exact present
      | some head => exact (tryWriteStoreHead_journal native st head).trans present
    · simp [nothing, Except.map, BatchDecision.effect, grownJournal]

/-! ## Where an operation stands in the journal -/

/-- `record` is the only record under `operationId`, and it stands at `position`. -/
structure Sole (cfg : StoreConfig R) (records : List R) (operationId : String) (position : Nat)
    (record : R) : Prop where
  here : records[position]? = some record
  identified : cfg.projectedId record = some operationId
  only : ∀ index other, records[index]? = some other → cfg.projectedId other = some operationId →
    index = position

variable {position : Nat} {record : R}

theorem findIdx?_sole (sole : Sole cfg records operationId position record) :
    records.findIdx? (fun existing => cfg.projectedId existing = some operationId) =
      some position := by
  obtain ⟨inside, here⟩ := List.getElem?_eq_some_iff.mp sole.here
  refine List.findIdx?_eq_some_iff_getElem.mpr ⟨inside, by simp [here, sole.identified], ?_⟩
  intro index earlier
  have within : index < records.length := Nat.lt_trans earlier inside
  intro claimed
  have := sole.only index _ (List.getElem?_eq_getElem within) (by simpa using claimed)
  omega

theorem reconcileAppend_sole [DecidableEq R] (sole : Sole cfg records operationId position record) :
    reconcileAppend cfg records record operationId =
      (lockedReceipt "append to" (position + 1) (some operationId)).map some := by
  simp [reconcileAppend, sole.identified, findIdx?_sole sole, sole.here]

theorem reconcileAppend_reused [DecidableEq R] {stored : R}
    (sole : Sole cfg records operationId position stored)
    (requested : cfg.projectedId record = some operationId) (different : stored ≠ record) :
    reconcileAppend cfg records record operationId =
      .error (.operationReusedForAppend operationId) := by
  simp [reconcileAppend, requested, findIdx?_sole sole, sole.here, different]

theorem reconcileAppend_absent [DecidableEq R] (record : R)
    (absent : ∀ other ∈ records, cfg.projectedId other ≠ some operationId) :
    reconcileAppend cfg records record operationId = .ok none := by
  unfold reconcileAppend
  split
  · rfl
  · next requested =>
    rw [not_not.mp requested]
    have nowhere : records.findIdx? (fun existing => cfg.projectedId existing = some operationId) =
        none := by
      rw [List.findIdx?_eq_none_iff]
      intro other member
      simpa using absent other member
    rw [nowhere]

variable {existing : List R}

theorem mem_occurrences :
    (position, record) ∈ occurrences cfg existing operationId ↔
      existing[position]? = some record ∧ cfg.projectedId record = some operationId := by
  simp [occurrences, List.mem_zipIdx_iff_getElem?, and_comm]

theorem occurrences_nodup (existing : List R) (operationId : String) :
    (occurrences cfg existing operationId).Nodup := by
  refine List.Nodup.of_map Prod.fst ?_
  have positions : (existing.zipIdx.map Prod.snd).Nodup := by
    rw [List.zipIdx_map_snd]
    exact List.nodup_range'
  rw [occurrences, List.map_map]
  exact positions.sublist (List.filter_sublist.map Prod.snd)

theorem occurrences_sole (sole : Sole cfg existing operationId position record) :
    occurrences cfg existing operationId = [(position, record)] := by
  refine List.perm_singleton.mp ((List.perm_ext_iff_of_nodup (occurrences_nodup _ _)
    (List.nodup_singleton _)).mpr ?_)
  rintro ⟨index, other⟩
  rw [mem_occurrences, List.mem_singleton]
  constructor
  · rintro ⟨found, claimed⟩
    obtain rfl := sole.only index other found claimed
    rw [sole.here] at found
    rw [Option.some.inj found]
  · rintro ⟨⟩
    exact ⟨sole.here, sole.identified⟩

theorem occurrences_absent (absent : ∀ other ∈ existing, cfg.projectedId other ≠ some operationId) :
    occurrences cfg existing operationId = [] := by
  refine List.eq_nil_iff_forall_not_mem.mpr ?_
  rintro ⟨index, other⟩ member
  obtain ⟨found, claimed⟩ := mem_occurrences.mp member
  exact absent other (List.mem_of_getElem? found) claimed

/-! ## What the head proves about an operation -/

variable {head : StoreHead}

/-- The filter has no false negatives. -/
theorem HeadFor.absent (valid : HeadFor cfg records head) (text : isBlank operationId.toList = false)
    (unreported : cfg.filterSet.mightContain head.operationFilter operationId = false) :
    ∀ other ∈ records, cfg.projectedId other ≠ some operationId := by
  intro other member claimed
  refine cfg.filterSet.not_mem_of_not_mightContain valid.parts.filterBuilt unreported ?_
  exact mem_stableIds.mpr ⟨other, member, stableId_eq_some.mpr ⟨claimed, text⟩⟩

/-- A recent answer names the only record under the operation id, which has the
requested digest. -/
theorem HeadFor.sole {digest : String} {revision : Nat} (valid : HeadFor cfg records head)
    (text : isBlank operationId.toList = false)
    (found : recentRevision head operationId (some digest) = some revision) :
    ∃ position stored, revision = position + 1 ∧ Sole cfg records operationId position stored ∧
      cfg.recordDigest stored = digest := by
  obtain ⟨digest, same, entry, only⟩ := recentRevision_sound valid found
  cases same
  obtain ⟨position, stored, here, rfl, identified, digests⟩ := mem_stableEntries.mp entry
  refine ⟨position, stored, by omega, ⟨here, (stableId_eq_some.mp identified).1, ?_⟩, digests.symm⟩
  intro index another present claimed
  have equal := only (0 + index + 1, operationId, cfg.recordDigest another)
    (mem_stableEntries.mpr ⟨index, another, present, rfl, stableId_eq_some.mpr ⟨claimed, text⟩, rfl⟩) rfl
  have positions := congrArg Prod.fst equal
  omega

/-- Among these records a digest names one record. -/
def DigestsIdentify (cfg : StoreConfig R) (existing requested : List R) : Prop :=
  ∀ stored ∈ existing, ∀ record ∈ requested, cfg.recordDigest stored = cfg.recordDigest record →
    stored = record

theorem DigestsIdentify.of_injective (injective : Function.Injective cfg.recordDigest)
    (existing requested : List R) : DigestsIdentify cfg existing requested :=
  fun _ _ _ _ same => injective same

/-! ## Rebuilding -/

theorem scanRecords_total {recentStart index : Nat} {scan : HeadScan} {operationFilter : OperationFilter}
    (filters : cfg.filterSet.addAll scan.operationFilter (stableIds cfg records) =
      some operationFilter) : ∃ after, scanRecords cfg recentStart index records scan = some after := by
  induction records generalizing index scan with
  | nil => exact ⟨scan, rfl⟩
  | cons record rest ih =>
    unfold scanRecords
    cases identified : cfg.stableId record with
    | none =>
      have ids : stableIds cfg (record :: rest) = stableIds cfg rest := by
        simp [stableIds, identified]
      exact ih (ids ▸ filters)
    | some id =>
      have ids : stableIds cfg (record :: rest) = id :: stableIds cfg rest := by
        simp [stableIds, identified]
      rw [ids] at filters
      obtain ⟨grown, added, filters⟩ := Option.bind_eq_some_iff.mp filters
      simp only [added, Option.bind_some]
      exact ih filters

variable {token : String}

/-- Where a true head exists the rebuilt one has the same filter. -/
theorem rebuildHead_of_headFor (identity : JournalIdentity)
    (enabled : cfg.headCompatibilityToken = some token) (valid : HeadFor cfg records head) :
    ∃ rebuilt, rebuildHead cfg identity records = .ok (some rebuilt) ∧
      rebuilt.operationFilter = head.operationFilter := by
  obtain ⟨scan, scanned⟩ : ∃ scan, scanRecords cfg (records.length - recentRecordLimit) 0 records
      ⟨[], [], [], []⟩ = some scan := scanRecords_total valid.parts.filterBuilt
  have filters := (scanRecords_spec scanned).1
  have same : scan.operationFilter = head.operationFilter :=
    Option.some.inj (filters.symm.trans valid.parts.filterBuilt)
  simp [rebuildHead, enabled, buildStoreHead, scanned, same]

theorem advanceRecords_of_filter (cfg : StoreConfig R) (entries : List (Option String × Option String))
    (operationFilter : OperationFilter) (revision revision' : Nat)
    (recent recent' : List RecentRecord) :
    (advanceRecords cfg entries (revision, operationFilter, recent)).map (fun _ => ()) =
      (advanceRecords cfg entries (revision', operationFilter, recent')).map fun _ => () := by
  induction entries generalizing operationFilter revision revision' recent recent' with
  | nil => rfl
  | cons entry rest ih =>
    obtain ⟨projectedId, digest⟩ := entry
    simp only [advanceRecords]
    split
    · exact ih ..
    · split
      · rfl
      · split
        · rfl
        · exact ih ..

variable {head' : StoreHead}

/-- Whether a head can be advanced is decided by its filter. -/
theorem advanceStoreHead_of_filter (cfg : StoreConfig R) (same : head.operationFilter = head'.operationFilter)
    (entries : List (Option String × Option String)) :
    (advanceStoreHead cfg head entries).map (fun _ => ()) =
      (advanceStoreHead cfg head' entries).map fun _ => () := by
  have loops := advanceRecords_of_filter cfg entries head.operationFilter head.revision
    head'.revision head.recentRecords head'.recentRecords
  unfold advanceStoreHead
  rw [← same]
  cases h : advanceRecords cfg entries (head.revision, head.operationFilter, head.recentRecords) <;>
    cases h' : advanceRecords cfg entries
      (head'.revision, head.operationFilter, head'.recentRecords) <;>
    simp [h, h', Except.map] at loops ⊢
  exact loops

/-! ## Decisions -/

theorem finishAppend_of_filter (same : head.operationFilter = head'.operationFilter) (revision expected : Nat)
    (record : R) :
    (finishAppend cfg revision (some head) record expected).map (AppendDecision.effect record) =
      (finishAppend cfg revision (some head') record expected).map (AppendDecision.effect record) := by
  have advance := advanceStoreHead_of_filter cfg same [cfg.headEntry record]
  simp only [StoreConfig.headEntry] at advance
  unfold finishAppend
  split
  · rfl
  · split
    · rfl
    · simp only
      split <;> split <;> simp_all [Except.map, AppendDecision.effect]

variable {identity : JournalIdentity}

/-- An append answers the same with a true head and with none. -/
theorem decideAppend_of_headFor [DecidableEq R] (enabled : cfg.headCompatibilityToken = some token)
    (valid : HeadFor cfg records head) (text : isBlank operationId.toList = false)
    (identify : DigestsIdentify cfg records [record]) (expected : Nat) :
    (decideAppend cfg (some head) identity records record expected operationId).map
        (AppendDecision.effect record) =
      (decideAppend cfg none identity records record expected operationId).map
        (AppendDecision.effect record) := by
  obtain ⟨rebuilt, rebuilds, filters⟩ := rebuildHead_of_headFor identity enabled valid
  unfold decideAppend
  simp only
  split
  · next reported =>
    simp only [reported.1, Option.map_some]
    split
    · next revision found =>
      -- the recent window answers: replay finds the same record at the same position
      obtain ⟨position, stored, rfl, sole, digests⟩ := valid.sole text found
      obtain rfl := identify stored (List.mem_of_getElem? sole.here) record (by simp) digests
      simp only [replayAppend, reconcileAppend_sole sole, rebuilds]
      cases lockedReceipt "append to" (position + 1) (some operationId) <;> rfl
    · rfl
  · next unreported =>
    -- nothing is under the id, or the record is not looked up at all
    have fresh : reconcileAppend cfg records record operationId = .ok none := by
      by_cases requested : cfg.projectedId record = some operationId
      · refine reconcileAppend_absent record (valid.absent text ?_)
        simpa [requested] using unreported
      · simp [reconcileAppend, requested]
    simp only [replayAppend, fresh, rebuilds, valid.revision]
    exact finishAppend_of_filter filters.symm _ _ _

/-- What `checkBatchRequest` establishes about a batch's records and ids. -/
structure Aligned (cfg : StoreConfig R) (records : List R) (operationIds : List String) : Prop where
  ids : records.map cfg.projectedId = operationIds.map some
  text : ∀ operationId ∈ operationIds, isBlank operationId.toList = false
  nodup : operationIds.Nodup
  nonempty : records ≠ []

theorem mapM_requireOperationId {results : List String}
    (success : operationIds.mapM requireOperationId = .ok results) :
    ∀ operationId ∈ operationIds, isBlank operationId.toList = false := by
  induction operationIds generalizing results with
  | nil => simp
  | cons operationId rest ih =>
    rw [List.mapM_cons] at success
    cases head : requireOperationId operationId with
    | error error =>
      rw [head] at success
      cases success
    | ok value =>
      cases tail : rest.mapM requireOperationId with
      | error error =>
        rw [head, tail] at success
        cases success
      | ok values =>
        exact List.forall_mem_cons.mpr ⟨(requireOperationId_eq_ok.mp head).1, (ih tail)⟩

theorem checkBatchRequest_aligned (checked : checkBatchRequest cfg records operationIds = .ok ()) :
    Aligned cfg records operationIds := by
  unfold checkBatchRequest at checked
  cases texts : operationIds.mapM requireOperationId with
  | error error =>
    rw [texts] at checked
    cases checked
  | ok values =>
    rw [texts] at checked
    split at checked
    · cases checked
    · next nonempty =>
      split at checked
      · cases checked
      · split at checked
        · cases checked
        · next nodup =>
          split at checked
          · cases checked
          · split at checked
            · cases checked
            · next ids =>
              exact ⟨not_not.mp ids, mapM_requireOperationId texts, not_not.mp nodup, nonempty⟩

theorem Aligned.length (aligned : Aligned cfg records operationIds) :
    records.length = operationIds.length := by
  simpa using congrArg List.length aligned.ids

theorem zip_digests (records : List R) (operationIds : List String) :
    operationIds.zip (records.map cfg.recordDigest) =
      (records.zip operationIds).map fun pair => (pair.2, cfg.recordDigest pair.1) := by
  induction records generalizing operationIds with
  | nil => simp
  | cons record rest ih =>
    cases operationIds with
    | nil => rfl
    | cons operationId others => simp [ih others]

theorem Aligned.mem_zip (aligned : Aligned cfg records operationIds) :
    ∀ pair ∈ records.zip operationIds,
      cfg.projectedId pair.1 = some pair.2 ∧ isBlank pair.2.toList = false := by
  rintro ⟨record, operationId⟩ member
  obtain ⟨index, found⟩ := List.mem_iff_getElem?.mp member
  obtain ⟨recordAt, operationAt⟩ := List.getElem?_zip_eq_some.mp found
  have ids := congrArg (fun ids => ids[index]?) aligned.ids
  simp only [List.getElem?_map, recordAt, operationAt, Option.map_some, Option.some.injEq] at ids
  exact ⟨ids, aligned.text operationId (List.mem_of_getElem? operationAt)⟩

theorem map_snd_drop_zip (same : records.length = operationIds.length) (matched : Nat) :
    ((records.zip operationIds).drop matched).map Prod.snd = operationIds.drop matched := by
  rw [List.map_drop, List.map_snd_zip (by omega)]

variable {matched : Nat} {pairs : List (String × String)}

theorem matchRecent_le (found : matchRecent head position pairs = some matched) : matched ≤ pairs.length := by
  induction pairs generalizing position matched with
  | nil => simp_all [matchRecent]
  | cons pair rest ih =>
    simp only [matchRecent] at found
    split at found
    · cases found
      exact Nat.zero_le _
    · split at found
      · obtain ⟨fewer, deeper, rfl⟩ := Option.map_eq_some_iff.mp found
        exact Nat.succ_le_succ (ih deeper)
      · cases found

/-- The loop stops early only at the journal's end. -/
theorem matchRecent_stop (found : matchRecent head position pairs = some matched)
    (begun : position ≤ head.revision) :
    position + matched ≤ head.revision ∧
      (matched < pairs.length → position + matched = head.revision) := by
  induction pairs generalizing position matched with
  | nil =>
    cases found
    exact ⟨begun, fun more => absurd more (Nat.not_lt_zero _)⟩
  | cons pair rest ih =>
    simp only [matchRecent] at found
    split at found
    · next beyond =>
      cases found
      omega
    · split at found
      · next within _ =>
        obtain ⟨fewer, deeper, rfl⟩ := Option.map_eq_some_iff.mp found
        have later := ih deeper (by omega)
        simp only [List.length_cons]
        omega
      · cases found

/-- Replay matches what the recent window matched, provided the filter reports
none of the remaining operations. -/
theorem matchRecords_of_matchRecent [DecidableEq R] (valid : HeadFor cfg existing head)
    {pairs : List (R × String)} (identify : DigestsIdentify cfg existing (pairs.map Prod.fst))
    (aligned : ∀ pair ∈ pairs, cfg.projectedId pair.1 = some pair.2 ∧ isBlank pair.2.toList = false)
    (found : matchRecent head position
      (pairs.map fun pair => (pair.2, cfg.recordDigest pair.1)) = some matched)
    (fresh : ∀ operationId ∈ (pairs.drop matched).map Prod.snd,
      cfg.filterSet.mightContain head.operationFilter operationId = false) :
    matchRecords cfg existing position pairs = .ok matched := by
  induction pairs generalizing position matched with
  | nil =>
    cases found
    rfl
  | cons pair rest ih =>
    obtain ⟨record, operationId⟩ := pair
    obtain ⟨requested, text⟩ := aligned _ List.mem_cons_self
    simp only [List.map_cons, matchRecent, valid.revision] at found
    simp only [matchRecords]
    split at found
    · next beyond =>
      -- the first position past the journal: the operation itself must be new
      cases found
      have absent := valid.absent text (fresh operationId (by simp))
      simp [occurrences_absent absent, beyond]
    · next within =>
      split at found
      · next recent =>
        obtain ⟨fewer, deeper, rfl⟩ := Option.map_eq_some_iff.mp found
        obtain ⟨at', stored, same, sole, digests⟩ := valid.sole text recent
        obtain rfl : position = at' := by omega
        obtain rfl := identify stored (List.mem_of_getElem? sole.here) record (by simp) digests
        have rest : DigestsIdentify cfg existing (rest.map Prod.fst) :=
          fun stored present record member => identify stored present record (by simp [member])
        have later := ih rest (fun pair member => aligned pair (List.mem_cons_of_mem _ member)) deeper
          fresh
        simp [occurrences_sole sole, sole.here, within, later, Except.map]
      · cases found

theorem appended_headEntries (aligned : Aligned cfg records operationIds) (bounded : matched ≤ records.length) :
    ((operationIds.drop (records.length - (records.drop matched).length)).map some).zip
        ((records.map fun record => some (cfg.recordDigest record)).drop
          (records.length - (records.drop matched).length)) =
      (records.drop matched).map cfg.headEntry := by
  have skipped : records.length - (records.drop matched).length = matched := by
    rw [List.length_drop]
    omega
  rw [skipped, List.map_drop, ← aligned.ids, ← List.map_drop, ← List.map_drop, List.zip_map']
  refine List.map_congr_left ?_
  intro record member
  obtain ⟨operationId, _, claimed⟩ := List.mem_map.mp
    (aligned.ids ▸ List.mem_map_of_mem (f := cfg.projectedId) (List.mem_of_mem_drop member))
  simp [StoreConfig.headEntry, ← claimed]

theorem finishBatch_of_filter [DecidableEq R] (cfg : StoreConfig R)
    (same : head.operationFilter = head'.operationFilter) (prepared : List CommitReceipt × List R)
    (replayed replayed' : Bool) (records : List R) (operationIds : List String) :
    (finishBatch cfg prepared (some head) replayed records operationIds).map BatchDecision.effect =
      (finishBatch cfg prepared (some head') replayed' records operationIds).map
        BatchDecision.effect := by
  unfold finishBatch
  simp only
  split
  · rfl
  · have advance := advanceStoreHead_of_filter cfg same
      (((operationIds.drop (records.length - prepared.2.length)).map some).zip
        ((records.map fun record => some (cfg.recordDigest record)).drop
          (records.length - prepared.2.length)))
    split <;> split <;> simp_all [Except.map, BatchDecision.effect]

/-- A batch answers the same with a true head and with none. -/
theorem decideBatch_of_headFor [DecidableEq R] (enabled : cfg.headCompatibilityToken = some token)
    (valid : HeadFor cfg existing head) (aligned : Aligned cfg records operationIds)
    (identify : DigestsIdentify cfg existing records) (expected : Nat) :
    (decideBatch cfg (some head) identity existing records operationIds expected).map
        BatchDecision.effect =
      (decideBatch cfg none identity existing records operationIds expected).map
        BatchDecision.effect := by
  obtain ⟨rebuilt, rebuilds, filters⟩ := rebuildHead_of_headFor identity enabled valid
  unfold decideBatch prepareBatchFromHead
  simp only [valid.revision]
  by_cases behind : existing.length < expected
  · simp [behind, replayBatch, prepareBatchFromRecords, bind, Except.bind]
  · simp only [behind, if_false]
    cases found : matchRecent head expected (operationIds.zip (records.map cfg.recordDigest)) with
    | none => rfl
    | some matched =>
      have stop := matchRecent_stop found (by rw [valid.revision]; omega)
      have size : (operationIds.zip (records.map cfg.recordDigest)).length = records.length := by
        simp [aligned.length]
      rw [valid.revision, size] at stop
      have prepares : preparedBatch existing.length expected matched records operationIds =
          .ok (batchReceipts (expected + 1) (operationIds.take matched) ++
            batchReceipts (expected + matched + 1) (operationIds.drop matched),
            records.drop matched) := by
        unfold preparedBatch
        rw [if_neg]
        omega
      simp only [prepares, Except.map, bind, Except.bind]
      by_cases reported : (operationIds.drop matched).any
          (cfg.filterSet.mightContain head.operationFilter) = true
      · simp only [reported, if_true]
      · rw [zip_digests] at found
        have fresh : ∀ operationId ∈ ((records.zip operationIds).drop matched).map Prod.snd,
            cfg.filterSet.mightContain head.operationFilter operationId = false := by
          rw [map_snd_drop_zip aligned.length]
          simpa using reported
        have requested : (records.zip operationIds).map Prod.fst = records :=
          List.map_fst_zip (by simp [aligned.length])
        have replays := matchRecords_of_matchRecent valid (requested.symm ▸ identify) aligned.mem_zip
          found fresh
        have finish := finishBatch_of_filter cfg filters.symm
          (batchReceipts (expected + 1) (operationIds.take matched) ++
            batchReceipts (expected + matched + 1) (operationIds.drop matched),
            records.drop matched) false true records operationIds
        simp only [reported, replayBatch, prepareBatchFromRecords, behind, if_false, replays, bind,
          Except.bind, prepares, rebuilds]
        exact finish

/-! ## Operations -/

theorem headForAppend_enabled (used : headForAppend cfg st identity = some head) :
    ∃ token, cfg.headCompatibilityToken = some token := by
  unfold headForAppend at used
  split at used
  · cases used
  · next token enabled => exact ⟨token, enabled⟩

/-- The store head is invisible: on one journal, a state that answers from a
reachable head and a state without a usable head give the same answer to every
append and append batch and leave the same journal. -/
theorem storeHead_invisible [DecidableEq R] (identifies : Function.Injective cfg.recordDigest)
    {token : String} {journal : JournalFile H R} {head : StoreHead}
    (reachable : HeadReachable cfg token journal.records head) {headed headless : FileState H R}
    (headedJournal : headed.journal = some journal)
    (used : headForAppend cfg headed journal.identity = some head)
    (headlessJournal : headless.journal = some journal)
    (unused : headForAppend cfg headless journal.identity = none) (background : Bool)
    (native : Native) (expectedRevision : Int) :
    (∀ record operationId,
      (appendSync cfg background native headed record expectedRevision operationId).1 =
          (appendSync cfg background native headless record expectedRevision operationId).1 ∧
        (appendSync cfg background native headed record expectedRevision operationId).2.journal =
          (appendSync cfg background native headless record expectedRevision operationId).2.journal) ∧
    ∀ records operationIds,
      (appendBatchSync cfg background native headed records expectedRevision operationIds).1 =
          (appendBatchSync cfg background native headless records expectedRevision operationIds).1 ∧
        (appendBatchSync cfg background native headed records expectedRevision operationIds).2.journal =
          (appendBatchSync cfg background native headless records expectedRevision
            operationIds).2.journal := by
  obtain ⟨_, enabled⟩ := headForAppend_enabled used
  have valid := reachable.headFor
  cases revision : requireRevision "expected revision" expectedRevision with
  | error error =>
    refine ⟨fun record operationId => ?_, fun records operationIds => ?_⟩
    · unfold appendSync
      rw [revision]
      cases requireOperationId operationId <;> simp [headedJournal, headlessJournal]
    · unfold appendBatchSync
      rw [revision]
      cases checkBatchRequest cfg records operationIds <;> simp [headedJournal, headlessJournal]
  | ok expected =>
    refine ⟨fun record operationId => ?_, fun records operationIds => ?_⟩
    · cases text : requireOperationId operationId with
      | error error => simp [appendSync, text, headedJournal, headlessJournal]
      | ok operation =>
        obtain ⟨nonblank, rfl⟩ := requireOperationId_eq_ok.mp text
        have withHead := appendSync_effect cfg background native record text revision headedJournal
        have without := appendSync_effect cfg background native record text revision headlessJournal
        rw [used, decideAppend_of_headFor enabled valid nonblank (.of_injective identifies _ _),
          ← unused] at withHead
        exact ⟨withHead.1.trans without.1.symm, withHead.2.trans without.2.symm⟩
    · cases checked : checkBatchRequest cfg records operationIds with
      | error error => simp [appendBatchSync, checked, headedJournal, headlessJournal]
      | ok checks =>
        have aligned := checkBatchRequest_aligned checked
        have withHead := appendBatchSync_effect background native checked revision headedJournal
        have without := appendBatchSync_effect background native checked revision headlessJournal
        rw [used, decideBatch_of_headFor enabled valid aligned (.of_injective identifies _ _),
          ← unused] at withHead
        exact ⟨withHead.1.trans without.1.symm, withHead.2.trans without.2.symm⟩

end

/-! ## A journal of names -/

/-- Records that are their own ids and digests; the filter hashes by length, so
that names of one length collide. -/
def namesConfig : StoreConfig String where
  recordId := some some
  recordDigest := id
  recordSize := String.length
  operationDigest operationId := (operationId.length, operationId.length)
  headCompatibilityToken := some "names"
  headChecksum _ := "unchecked"

def namesIdentity : JournalIdentity := ⟨1, 1, 6, 0, 0⟩

def namesHead : StoreHead where
  compatibilityToken := "names"
  revision := 1
  identity := namesIdentity
  operationFilter :=
    [⟨setBits 0 (operationFilterPositions namesConfig.operationDigest "a" 254144 18), 254144, 1, 18⟩]
  recentRecords := [⟨1, "a", "a", true⟩]

theorem buildStoreHead_names :
    buildStoreHead namesConfig "names" namesIdentity ["a"] = some namesHead := by
  rfl

/-- A new name the filter already reports, answered with the cached head and without. -/
theorem storeHead_invisible_names :
    let journal : JournalFile String String := ⟨"header", ["a"], namesIdentity⟩
    let native : Native := ⟨namesIdentity, 1, 1, none, true⟩
    (appendSync namesConfig false native ⟨some journal, none, some ⟨namesHead, none⟩, none⟩ "b" 1
        "b").1 =
      (appendSync namesConfig false native ⟨some journal, none, none, none⟩ "b" 1 "b").1 ∧
    (appendSync namesConfig false native ⟨some journal, none, some ⟨namesHead, none⟩, none⟩ "b" 1
        "b").2.journal =
      (appendSync namesConfig false native ⟨some journal, none, none, none⟩ "b" 1 "b").2.journal :=
  (storeHead_invisible Function.injective_id (HeadReachable.built buildStoreHead_names) rfl rfl rfl
    rfl false _ 1).1 "b" "b"

end Loushang.Conversation
