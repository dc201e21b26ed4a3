import Loushang.Conversation.FileRuns

/-!
# Distinct record ids over runs

Duplicate detection of the file store over whole runs. Replay looks at a batch's
operations only up to the first one past the journal's end, so that a later
operation which is already in the journal is committed a second time;
`SkipsLaterOperation` is exactly that situation.
-/
namespace Loushang.Conversation
open Loushang.Lib

section

variable {H R : Type} (cfg : StoreConfig R)

/-- The batch agrees with the journal up to its end, the next operation is new,
and one after it is not. -/
def SkipsLaterOperation (existing records : List R) (operationIds : List String)
    (expected : Nat) : Prop :=
  expected ≤ existing.length ∧
    records.take (existing.length - expected) = existing.drop expected ∧
    (∃ next ∈ operationIds[existing.length - expected]?, next ∉ stableIds cfg existing) ∧
    ∃ later ∈ operationIds.drop (existing.length - expected + 1), later ∈ stableIds cfg existing

/-- Callers create with distinct record ids and append under the record's own id. -/
def OwnIds (st : FileState H R) : FileInput H R → Prop
  | .request (.create _ records _) _ => st.journal = none → (stableIds cfg records).Nodup
  | .request (.append record _ operationId) _ => cfg.stableId record = some operationId
  | _ => True

/-- The step does not reach the scan that stops early, nor an operation filter
too small for the journal it describes. -/
def Detects [DecidableEq R] (st : FileState H R) : FileInput H R → Prop
  | .request (.append record expectedRevision _) _ => ∀ journal, st.journal = some journal →
    0 ≤ expectedRevision → record ∈ journal.records → HeadFits cfg journal.records
  | .request (.appendBatch records expectedRevision operationIds) _ => ∀ journal,
    st.journal = some journal → ∀ expected : Nat, expectedRevision = expected →
      checkBatchRequest cfg records operationIds = .ok () →
        ¬ SkipsLaterOperation cfg journal.records records operationIds expected
  | _ => True

/-- What duplicate detection owes a request on `journal`: an append of a known id
is answered with the receipt of the record that has it (the same record, as far
as its digest tells) or refused; a batch that would append a known id is refused. -/
def DuplicateRefused (journal : JournalFile H R)
    (after : Option (Except StoreError (Response H R)) × FileState H R) : FileInput H R → Prop
  | .request (.append record expectedRevision operationId) _ => 0 ≤ expectedRevision →
    ∀ position stored, journal.records[position]? = some stored →
      cfg.stableId stored = some operationId →
        after.2.journal = some journal ∧
          ((after.1 = some (.ok (.receipt ⟨position + 1, some operationId⟩)) ∧
              cfg.recordDigest stored = cfg.recordDigest record) ∨
            (stored ≠ record ∧ ∃ error, after.1 = some (.error error) ∧
              error.errorClass = .storeOperationConflictError))
  | .request (.appendBatch records expectedRevision operationIds) _ =>
    checkBatchRequest cfg records operationIds = .ok () → ∀ expected : Nat,
      expectedRevision = expected → expected ≤ journal.records.length →
      records.take (journal.records.length - expected) = journal.records.drop expected →
      (∃ operationId ∈ operationIds.drop (journal.records.length - expected),
        operationId ∈ stableIds cfg journal.records) →
        after.2.journal = some journal ∧ ∃ error, after.1 = some (.error error) ∧
          error.errorClass = .storeOperationConflictError
  | _ => True

def IdsRespected [DecidableEq H] [DecidableEq R] (key : ConversationKey) (background : Bool) (st : FileState H R)
    (input : FileInput H R) : Prop :=
  let after := (fileStore cfg key background).step st input
  (∀ journal, after.2.journal = some journal → (stableIds cfg journal.records).Nodup) ∧
    ∀ journal, st.journal = some journal → DuplicateRefused cfg journal after input

/-- The invariant of a run: true heads and distinct ids. -/
structure DistinctRun (st : FileState H R) : Prop where
  heads : HeadsTrue cfg st
  distinct : ∀ journal, st.journal = some journal → (stableIds cfg journal.records).Nodup

variable {cfg} {st : FileState H R}

theorem DistinctRun.of_journal {st' : FileState H R} (run : DistinctRun cfg st)
    (heads : HeadsTrue cfg st') (same : st'.journal = st.journal) : DistinctRun cfg st' :=
  ⟨heads, fun journal present => run.distinct journal (same ▸ present)⟩

variable {records : List R} {operationIds : List String}

theorem stableIds_of_projected (ids : records.map cfg.projectedId = operationIds.map some)
    (text : ∀ operationId ∈ operationIds, isBlank operationId.toList = false) :
    stableIds cfg records = operationIds := by
  induction records generalizing operationIds with
  | nil =>
    obtain rfl : operationIds = [] := by simpa using ids.symm
    rfl
  | cons record rest ih =>
    cases operationIds with
    | nil => cases ids
    | cons operationId others =>
      simp only [List.map_cons, List.cons.injEq] at ids
      have identified := stableId_eq_some.mpr ⟨ids.1, text operationId List.mem_cons_self⟩
      have later := ih ids.2 fun other member => text other (List.mem_cons_of_mem _ member)
      rw [stableIds, List.filterMap_cons_some identified]
      exact congrArg _ later

theorem Aligned.stableIds_drop (aligned : Aligned cfg records operationIds) (matched : Nat) :
    stableIds cfg (records.drop matched) = operationIds.drop matched := by
  refine stableIds_of_projected ?_ fun operationId member =>
    aligned.text operationId (List.mem_of_mem_drop member)
  rw [List.map_drop, List.map_drop, aligned.ids]

variable {identity : JournalIdentity} {existing : List R} {expected : Nat}
  {decision : BatchDecision R}

/-- An answered batch appends new ids only, unless it skipped a later operation. -/
theorem BatchAnswered.new_ids {matched : Nat}
    (answered : BatchAnswered cfg identity existing records operationIds expected matched decision)
    (aligned : Aligned cfg records operationIds) (more : matched < records.length)
    (scanned : ¬ SkipsLaterOperation cfg existing records operationIds expected) :
    ∀ operationId ∈ operationIds.drop matched, operationId ∉ stableIds cfg existing := by
  rcases answered.fresh more with all | ⟨overlap, first⟩
  · exact all
  · intro operationId member known
    have ends := answered.current more
    have count : existing.length - expected = matched := by omega
    have inside : matched < operationIds.length := aligned.length ▸ more
    rw [List.drop_eq_getElem_cons inside] at member
    rcases List.mem_cons.mp member with rfl | later
    · exact first _ (List.getElem?_eq_getElem inside) known
    · refine scanned ⟨by omega, ?_, ?_, ?_⟩
      · rw [count, overlap]
      · rw [count]
        exact ⟨_, List.getElem?_eq_getElem inside, first _ (List.getElem?_eq_getElem inside)⟩
      · rw [count]
        exact ⟨operationId, later, known⟩

theorem BatchAnswered.distinct {matched : Nat}
    (answered : BatchAnswered cfg identity existing records operationIds expected matched decision)
    (aligned : Aligned cfg records operationIds) (more : matched < records.length)
    (before : (stableIds cfg existing).Nodup)
    (scanned : ¬ SkipsLaterOperation cfg existing records operationIds expected) :
    (stableIds cfg (existing ++ records.drop matched)).Nodup := by
  rw [stableIds_append, aligned.stableIds_drop, List.nodup_append]
  refine ⟨before, aligned.nodup.sublist (List.drop_sublist _ _), ?_⟩
  intro old known new added same
  exact answered.new_ids aligned more scanned new added (same ▸ known)

/-! ## One step -/

theorem DistinctRun.create [DecidableEq H] [DecidableEq R] (run : DistinctRun cfg st) (key : ConversationKey)
    (native : Native) (header : H) (operationId : String)
    (distinct : st.journal = none → (stableIds cfg records).Nodup) :
    DistinctRun cfg (createSync cfg key native st header records operationId).2 := by
  refine ⟨run.heads.createSync, fun journal present => ?_⟩
  rcases createSync_journal cfg key native st header records operationId with
    same | ⟨vacant, new⟩
  · exact run.distinct journal (same ▸ present)
  · rw [new] at present
    cases present
    exact distinct vacant

theorem DistinctRun.append [DecidableEq R] (run : DistinctRun cfg st) (background : Bool)
    (native : Native) (expectedRevision : Int) {record : R} {operationId : String} (identified : cfg.stableId record = some operationId) :
    DistinctRun cfg (appendSync cfg background native st record expectedRevision operationId).2 := by
  cases present : st.journal with
  | none =>
    have unchanged : (appendSync cfg background native st record expectedRevision operationId).2 = st := by
      unfold appendSync
      rw [present]
      split <;> simp_all
    rw [unchanged]
    exact run
  | some journal =>
    have before := run.distinct journal present
    by_cases known : operationId ∈ stableIds cfg journal.records
    · obtain ⟨position, stored, sole⟩ := exists_sole before known
      obtain ⟨heads, same, _⟩ := appendSync_known background native expectedRevision
        run.heads present identified sole
      exact run.of_journal heads (same.trans present.symm)
    · obtain ⟨heads, same | grown⟩ := appendSync_new background native expectedRevision
        run.heads present identified known
      · exact run.of_journal heads (same.trans present.symm)
      · refine ⟨heads, fun journal' after => ?_⟩
        rw [grown] at after
        cases after
        have ids : stableIds cfg [record] = [operationId] := by simp [stableIds, identified]
        simp only [appendToJournal, stableIds_append, ids]
        refine List.nodup_append.mpr ⟨before, List.pairwise_singleton _ _, ?_⟩
        rintro old member _ (_ | ⟨_, ⟨⟩⟩) rfl
        exact known member

variable {expectedRevision : Int}

theorem DistinctRun.appendBatch [DecidableEq R] (run : DistinctRun cfg st) (background : Bool)
    (native : Native)
    (scanned : ∀ journal, st.journal = some journal → ∀ expected : Nat, expectedRevision = expected →
      checkBatchRequest cfg records operationIds = .ok () →
        ¬ SkipsLaterOperation cfg journal.records records operationIds expected) :
    DistinctRun cfg
      (appendBatchSync cfg background native st records expectedRevision operationIds).2 := by
  cases present : st.journal with
  | none =>
    have unchanged :
        (appendBatchSync cfg background native st records expectedRevision operationIds).2 = st := by
      unfold appendBatchSync
      rw [present]
      split <;> simp_all
    rw [unchanged]
    exact run
  | some journal =>
    obtain ⟨heads, same | ⟨expected, matched, decision, revision, checked, more, answered, grown⟩⟩ :=
      appendBatchSync_grows background native expectedRevision records operationIds run.heads present
    · exact run.of_journal heads (same.trans present.symm)
    · refine ⟨heads, fun journal' after => ?_⟩
      rw [grown] at after
      cases after
      exact answered.distinct (checkBatchRequest_aligned checked) more (run.distinct journal present)
        (scanned journal present expected revision checked)

theorem DuplicateRefused.append [DecidableEq R] (run : DistinctRun cfg st) (background : Bool)
    (native : Native) {journal : JournalFile H R} (present : st.journal = some journal) {record : R} {expectedRevision : Int}
    {operationId : String} (identified : cfg.stableId record = some operationId)
    (fits : 0 ≤ expectedRevision → record ∈ journal.records → HeadFits cfg journal.records) :
    DuplicateRefused cfg journal
      ((fun after => (some after.1, after.2))
        (appendSync cfg background native st record expectedRevision operationId))
      (.request (.append record expectedRevision operationId) native) := by
  intro nonnegative position stored here known
  have sole := sole_of_nodup (run.distinct journal present) here known
  obtain ⟨_, same, answer⟩ := appendSync_known background native expectedRevision run.heads present
    identified sole
  refine ⟨same, ?_⟩
  have room : stored = record → HeadFits cfg journal.records :=
    fun equal => fits nonnegative (equal ▸ List.mem_of_getElem? here)
  rcases answer nonnegative room with ⟨receipt, digests⟩ | ⟨differs, refused⟩
  · exact Or.inl ⟨congrArg some receipt, digests⟩
  · exact Or.inr ⟨differs, _, congrArg some refused, rfl⟩

theorem DuplicateRefused.appendBatch [DecidableEq R] (run : DistinctRun cfg st) (background : Bool)
    (native : Native) {journal : JournalFile H R} (present : st.journal = some journal)
    (scanned : ∀ expected : Nat, expectedRevision = expected →
      checkBatchRequest cfg records operationIds = .ok () →
        ¬ SkipsLaterOperation cfg journal.records records operationIds expected) :
    DuplicateRefused cfg journal
      ((fun after => (some after.1, after.2))
        (appendBatchSync cfg background native st records expectedRevision operationIds))
      (.request (.appendBatch records expectedRevision operationIds) native) := by
  rintro checked expected rfl begun overlap ⟨operationId, member, known⟩
  have aligned := checkBatchRequest_aligned checked
  -- the first operation past the journal's end is itself known
  obtain ⟨next, nextKnown⟩ : ∃ next, operationIds[journal.records.length - expected]? = some next ∧
      next ∈ stableIds cfg journal.records := by
    cases next : operationIds[journal.records.length - expected]? with
    | none =>
      rw [List.drop_eq_nil_of_le (List.getElem?_eq_none_iff.mp next)] at member
      cases member
    | some first =>
      refine ⟨first, rfl, ?_⟩
      by_contra new
      obtain ⟨inside, rfl⟩ := List.getElem?_eq_some_iff.mp next
      rw [List.drop_eq_getElem_cons inside] at member
      rcases List.mem_cons.mp member with rfl | later
      · exact new known
      · exact scanned expected rfl checked
          ⟨begun, overlap, ⟨_, next, new⟩, ⟨operationId, later, known⟩⟩
  have refused : decideBatch cfg (headForAppend cfg st journal.identity) journal.identity
      journal.records records operationIds expected = .error (.operationReusedForAppend next) :=
    decideBatch_reused (run.distinct journal present) (run.heads.usable present) aligned begun overlap
      nextKnown.1 nextKnown.2
  have unchanged : appendBatchSync cfg background native st records expected operationIds =
      (.error (.operationReusedForAppend next), st) := by
    unfold appendBatchSync
    rw [checked, present, requireRevision_eq_ok.mpr rfl]
    simp only [refused]
  rw [unchanged]
  exact ⟨present, _, rfl, rfl⟩

/-- Every admitted step keeps the invariant and answers duplicates as it should. -/
theorem DistinctRun.step [DecidableEq H] [DecidableEq R] (key : ConversationKey)
    (background : Bool) (run : DistinctRun cfg st) {input : FileInput H R} (own : OwnIds cfg st input) (detects : Detects cfg st input) :
    IdsRespected cfg key background st input ∧
      DistinctRun cfg ((fileStore cfg key background).step st input).2 := by
  cases input with
  | request request native =>
    cases request with
    | create header records operationId =>
      have after := run.create key native header operationId own
      exact ⟨⟨after.distinct, fun _ _ => trivial⟩, after⟩
    | append record expectedRevision operationId =>
      have after := run.append background native expectedRevision own
      exact ⟨⟨after.distinct, fun journal present =>
        DuplicateRefused.append run background native present own (detects journal present)⟩, after⟩
    | appendBatch records expectedRevision operationIds =>
      have after := run.appendBatch background native detects
      exact ⟨⟨after.distinct, fun journal present =>
        DuplicateRefused.appendBatch run background native present (detects journal present)⟩, after⟩
    | load => exact ⟨⟨run.distinct, fun _ _ => trivial⟩, run⟩
  | restart =>
    have after : DistinctRun cfg { st with headCache := none, queuedHead := none } := by
      refine run.of_journal (fun head remembered => ?_) rfl
      cases remembered with
      | cached kept => cases kept
      | queued kept => cases kept
      | sidecar kept stored decoded => exact run.heads head (.sidecar kept stored decoded)
    exact ⟨⟨after.distinct, fun _ _ => trivial⟩, after⟩
  | metadataLost =>
    have after : DistinctRun cfg { st with metadata := none } := by
      refine run.of_journal (fun head remembered => ?_) rfl
      cases remembered with
      | cached kept => exact run.heads _ (.cached kept)
      | queued kept => exact run.heads _ (.queued kept)
      | sidecar kept stored decoded => cases kept
    exact ⟨⟨after.distinct, fun _ _ => trivial⟩, after⟩
  | backgroundHeadWrite native =>
    have after : DistinctRun cfg (writeHeadIfCurrent cfg native st) := by
      refine run.of_journal run.heads.writeHeadIfCurrent ?_
      unfold writeHeadIfCurrent
      split
      · split <;> simp
      · rfl
    exact ⟨⟨after.distinct, fun _ _ => trivial⟩, after⟩

/-- In every run of a conversation whose callers use the records' own ids and
whose steps `Detects` admits, the journal holds each stable id at most once and
every duplicate is refused or answered with the earlier receipt. -/
theorem fileStore_ids_distinct [DecidableEq H] [DecidableEq R] (cfg : StoreConfig R)
    (key : ConversationKey) (background : Bool) (inputs : List (FileInput H R))
    (admitted : (fileStore cfg key background).AllSteps
      (fun st input => OwnIds cfg st input ∧ Detects cfg st input) FileState.empty inputs) :
    (fileStore cfg key background).AllSteps (IdsRespected cfg key background) FileState.empty
      inputs := by
  have start : DistinctRun cfg (FileState.empty : FileState H R) :=
    ⟨HeadsTrue.empty, by rintro journal ⟨⟩⟩
  have step : ∀ (st : FileState H R) (input : FileInput H R), DistinctRun cfg st →
      OwnIds cfg st input ∧ Detects cfg st input → IdsRespected cfg key background st input ∧
        DistinctRun cfg ((fileStore cfg key background).step st input).2 :=
    fun _ _ run conditions => run.step key background conditions.1 conditions.2
  exact (Machine.AllSteps.of_invariant step start admitted).1

end

/-! ## Runs over the journal of names -/

def namesKey : ConversationKey := ⟨"names", "letters"⟩

def namesNative : Native := ⟨namesIdentity, 1, 1, some namesIdentity, true⟩

/-- The batch's first name is new and its second is the journal's: both are committed. -/
def namesSkippingRun : List (FileInput String String) :=
  [.request (.create "header" ["a"] "create") namesNative,
    .request (.appendBatch ["b", "a"] 1 ["b", "a"]) namesNative]

theorem namesSkippingRun_records :
    ((fileStore namesConfig namesKey false).final FileState.empty namesSkippingRun).journal.map
      JournalFile.records = some ["a", "b", "a"] := by
  rfl

theorem fileStore_ids_repeat :
    ¬ ∀ inputs : List (FileInput String String),
      (fileStore namesConfig namesKey false).AllSteps (OwnIds namesConfig) FileState.empty inputs →
        (fileStore namesConfig namesKey false).AllSteps (IdsRespected namesConfig namesKey false)
          FileState.empty inputs := by
  intro claimed
  obtain ⟨_, ⟨distinct, _⟩, _⟩ := claimed namesSkippingRun ⟨fun _ => by decide, trivial, trivial⟩
  obtain ⟨journal, present, records⟩ := Option.map_eq_some_iff.mp namesSkippingRun_records
  have repeated := distinct journal present
  rw [records] at repeated
  exact absurd repeated (by decide)

/-- A replayed append and a batch of new names. -/
theorem fileStore_ids_distinct_names :
    (fileStore namesConfig namesKey false).AllSteps (IdsRespected namesConfig namesKey false)
      FileState.empty
      [.request (.create "header" ["a"] "create") namesNative,
        .request (.append "a" 0 "a") namesNative,
        .request (.appendBatch ["b", "c"] 1 ["b", "c"]) namesNative] := by
  refine fileStore_ids_distinct namesConfig namesKey false _ ⟨⟨fun _ => by decide, trivial⟩,
    ⟨by rfl, ?_⟩, ⟨trivial, ?_⟩, trivial⟩
  · rintro journal ⟨⟩ _ _
    exact Or.inr ⟨namesHead.operationFilter, by rfl⟩
  · rintro journal ⟨⟩ expected revision _ ⟨_, _, _, later, member, known⟩
    obtain rfl : expected = 1 := by omega
    have pair : later = "c" := by simpa using member
    subst pair
    exact absurd known (by decide)

end Loushang.Conversation
