import Loushang.Conversation.BatchVerdicts
import Loushang.Conversation.DistinctIds

/-!
# The memory store beside the file store

Both stores on the same requests. The memory store knows only what was appended
through it, answers a logged append before it looks at the revision, and tells a
reused create apart from an occupied key; the file store does none of this.
`SameDetection` leaves exactly the requests out on which that shows.
-/
namespace Loushang.Conversation
open Loushang.Lib

section

variable {H R : Type} (cfg : StoreConfig R)

/-- Answers up to the error's class. -/
def answerClass (answer : Option (Except StoreError (Response H R))) :
    Option (Except ErrorClass (Response H R)) :=
  answer.map (Except.mapError StoreError.errorClass)

/-- Appends use the record's own id; no native write of the file store fails. -/
def NativeRequest : FileInput H R → Prop
  | .request (.create _ _ _) native => native.metadataIdentity ≠ none
  | .request (.append record _ operationId) _ => cfg.stableId record = some operationId
  | .metadataLost => False
  | _ => True

/-- Both stores see the same replays in this request. -/
def SameDetection (s : FileState H R × MemoryState H R) : FileInput H R → Prop
  | .request (.create header records operationId) _ =>
    -- a repeated create finds the conversation as it was created
    (s.1.journal = none → HeadFits cfg records) ∧
      ∀ previous, s.2.createOperations.lookup operationId = some previous →
        previous = ⟨header, records⟩ ∧ s.1.journal.map JournalFile.records = some records
  | .request (.append record expectedRevision operationId) _ =>
    ∀ journal, s.1.journal = some journal →
      -- a logged append is repeated with a proper revision, an id in the journal is logged
      (expectedRevision < 0 → s.2.appendOperations.lookup operationId = none) ∧
      (0 ≤ expectedRevision →
        (operationId ∈ stableIds cfg journal.records →
          s.2.appendOperations.lookup operationId ≠ none) ∧
        DigestsIdentify cfg journal.records [record] ∧ HeadFits cfg journal.records ∧
        (operationId ∉ stableIds cfg journal.records → expectedRevision = journal.records.length →
          HeadFits cfg (journal.records ++ [record])))
  | .request (.appendBatch records expectedRevision operationIds) _ =>
    ∀ journal, s.1.journal = some journal → ∀ expected : Nat, expectedRevision = expected →
      checkBatchRequest cfg records operationIds = .ok () → expected ≤ journal.records.length →
        -- a misplaced operation is logged and within the file store's scan
        (ScanRefuses cfg journal.records expected (records.zip operationIds) ↔
          LogRefuses s.2.appendOperations expected (records.zip operationIds)) ∧
        ¬ SkipsLaterOperation cfg journal.records records operationIds expected ∧
        DigestsIdentify cfg journal.records records ∧
        HeadFits cfg (journal.records ++ records.drop (journal.records.length - expected))
  | _ => True

/-- The two answers have the same receipts, snapshot or error class, and the two
stores hold the same records. -/
def Agrees [DecidableEq H] [DecidableEq R] (key : ConversationKey) (background : Bool)
    (s : FileState H R × MemoryState H R) (input : FileInput H R) : Prop :=
  let after := ((fileStore cfg key background).pair (memoryStore cfg)).step s input
  answerClass after.1.1 = answerClass after.1.2 ∧
    after.2.1.journal.map JournalFile.records = after.2.2.snapshot.map ConversationSnapshot.records

/-- The invariant: one journal, one recorded create, and a log of sole records. -/
structure MirrorRun (f : FileState H R) (m : MemoryState H R) : Prop where
  heads : HeadsTrue cfg f
  snapshot : m.snapshot = f.journal.map fun journal => ⟨journal.header, journal.records⟩
  vacant : f.journal = none → m.createOperations = [] ∧ m.appendOperations = []
  created : ∀ journal, f.journal = some journal → ∃ operationId initial,
    m.createOperations = [(operationId, initial)] ∧ initial.header = journal.header ∧
      loadCreateOperation f = some operationId
  logged : ∀ journal, f.journal = some journal → ∀ operationId record receipt,
    m.appendOperations.lookup operationId = some (record, receipt) →
      ∃ position, receipt = ⟨position + 1, some operationId⟩ ∧
        Sole cfg journal.records operationId position record

variable {cfg} {f f' : FileState H R} {m : MemoryState H R} {journal : JournalFile H R}

theorem MirrorRun.empty : MirrorRun cfg (FileState.empty : FileState H R) MemoryState.empty :=
  ⟨HeadsTrue.empty, rfl, fun _ => ⟨rfl, rfl⟩, by rintro journal ⟨⟩, by rintro journal ⟨⟩⟩

/-- A step of the file store alone that keeps its journal and create operation. -/
theorem MirrorRun.of_file (run : MirrorRun cfg f m) (heads : HeadsTrue cfg f')
    (same : f'.journal = f.journal) (operation : loadCreateOperation f' = loadCreateOperation f) :
    MirrorRun cfg f' m where
  heads := heads
  snapshot := by rw [same, run.snapshot]
  vacant none := run.vacant (same ▸ none)
  created journal present := by
    rw [operation]
    exact run.created journal (same ▸ present)
  logged journal present := run.logged journal (same ▸ present)

theorem MirrorRun.records (run : MirrorRun cfg f m) :
    f.journal.map JournalFile.records = m.snapshot.map ConversationSnapshot.records := by
  rw [run.snapshot, Option.map_map]
  rfl

variable {native : Native} {operationIds : List String}

/-- Both stores append the same records, none of which either of them knows. -/
theorem MirrorRun.grow (run : MirrorRun cfg f m) (present : f.journal = some journal)
    (heads : HeadsTrue cfg f') {appended : List R}
    (grown : f'.journal = some (appendToJournal cfg native journal appended))
    (operation : loadCreateOperation f' = loadCreateOperation f) (ids : stableIds cfg appended = operationIds)
    (distinct : operationIds.Nodup) (aligned : ∀ pair ∈ appended.zip operationIds,
      cfg.projectedId pair.1 = some pair.2 ∧ isBlank pair.2.toList = false)
    (fresh : ∀ operationId ∈ operationIds, operationId ∉ stableIds cfg journal.records)
    (logs : ∀ other ∈ appended, ∃ operationId ∈ operationIds,
      cfg.projectedId other = some operationId) :
    MirrorRun cfg f'
      { m with
        snapshot := some ⟨journal.header, journal.records ++ appended⟩
        appendOperations := logAppends (journal.records.length + 1) (appended.zip operationIds)
          m.appendOperations } where
  heads := heads
  snapshot := by
    rw [grown]
    rfl
  vacant none := by
    rw [grown] at none
    cases none
  created journal' after := by
    rw [grown] at after
    cases after
    rw [operation]
    exact run.created journal present
  logged journal' after operationId record receipt found := by
    rw [grown] at after
    cases after
    rcases lookup_logAppends found with ⟨index, here, rfl⟩ | earlier
    · obtain ⟨recordAt, operationAt⟩ := List.getElem?_zip_eq_some.mp here
      obtain ⟨claimed, text⟩ := aligned _ (List.mem_of_getElem? here)
      have sole := sole_of_nodup (ids ▸ distinct) recordAt (stableId_eq_some.mpr ⟨claimed, text⟩)
      refine ⟨journal.records.length + index, ?_, sole.append_right ?_⟩
      · rw [Nat.add_right_comm]
      · exact absent_of_not_mem text (fresh operationId (List.mem_of_getElem? operationAt))
    · obtain ⟨position, rfl, sole⟩ := run.logged journal present _ _ _ earlier
      refine ⟨position, rfl, sole.append_left ?_⟩
      intro other member claimed
      obtain ⟨otherId, listed, owns⟩ := logs other member
      obtain rfl := Option.some.inj (owns.symm.trans claimed)
      have known : otherId ∈ stableIds cfg journal.records := by
        refine mem_stableIds.mpr ⟨record, List.mem_of_getElem? sole.here, ?_⟩
        rw [← ids] at listed
        obtain ⟨_, _, identified⟩ := mem_stableIds.mp listed
        exact stableId_eq_some.mpr ⟨sole.identified, (stableId_eq_some.mp identified).2⟩
      exact fresh otherId listed known

/-! ## One step -/

/-- What a step owes: like answers and the invariant again. -/
def StepAgrees (cfg : StoreConfig R) (file : Except StoreError (Response H R) × FileState H R)
    (memory : Except StoreError (Response H R) × MemoryState H R) : Prop :=
  file.1.mapError StoreError.errorClass = memory.1.mapError StoreError.errorClass ∧
    MirrorRun cfg file.2 memory.2

variable {records : List R}

theorem MirrorRun.create [DecidableEq H] [DecidableEq R] (run : MirrorRun cfg f m) (key : ConversationKey)
    {header : H} {operationId : String} (kept : native.metadataIdentity ≠ none)
    (fits : f.journal = none → HeadFits cfg records)
    (repeats : ∀ previous, m.createOperations.lookup operationId = some previous →
      previous = ⟨header, records⟩ ∧ f.journal.map JournalFile.records = some records) :
    StepAgrees cfg (createSync cfg key native f header records operationId)
      (memoryCreate m header records operationId) := by
  have heads : HeadsTrue cfg (createSync cfg key native f header records operationId).2 :=
    run.heads.createSync
  unfold createSync at heads ⊢
  unfold memoryCreate
  cases text : requireOperationId operationId with
  | error error => exact ⟨rfl, run⟩
  | ok operation =>
    obtain ⟨_, rfl⟩ := requireOperationId_eq_ok.mp text
    rw [text] at heads
    cases present : f.journal with
    | none =>
      obtain ⟨identity, stored⟩ := Option.ne_none_iff_exists'.mp kept
      obtain ⟨rebuilt, rebuilds⟩ : ∃ rebuilt, rebuildHead cfg native.created records = .ok rebuilt := by
        rcases rebuildHead_cases cfg native.created records with found | ⟨overflow, _⟩
        · exact found
        · exact absurd (fits present) overflow
      have none : m.snapshot = none := by rw [run.snapshot, present]; rfl
      simp only [present, rebuilds, stored] at heads
      simp only [(run.vacant present).1, rebuilds, stored, none, List.lookup_nil,
        Option.isSome_none, Bool.false_eq_true, if_false]
      refine ⟨rfl, heads, rfl, fun absurd => (by cases absurd), ?_, ?_⟩
      · rintro journal ⟨⟩
        exact ⟨operation, _, rfl, rfl, rfl⟩
      · rintro journal ⟨⟩ other record receipt found
        rw [(run.vacant present).2] at found
        cases found
    | some journal =>
      obtain ⟨first, initial, creates, sameHeader, recorded⟩ := run.created journal present
      have occupied : m.snapshot.isSome = true := by rw [run.snapshot, present]; rfl
      by_cases same : operation = first
      · subst same
        have found : m.createOperations.lookup operation = some initial := by
          rw [creates, List.lookup_cons_self]
        obtain ⟨rfl, unchanged⟩ := repeats initial found
        rw [present] at unchanged
        cases unchanged
        simp only [found, if_true, ← sameHeader, recorded, Option.getD_some, and_self]
        exact ⟨rfl, run⟩
      · have missing : m.createOperations.lookup operation = none := by
          rw [creates, List.lookup_cons, beq_eq_false_iff_ne.mpr same]
          rfl
        simp only [missing, occupied, if_true, recorded, Option.getD_some, same, and_false, if_false,
          reduceCtorEq]
        exact ⟨rfl, run⟩

theorem MirrorRun.append [DecidableEq R] (run : MirrorRun cfg f m) (background : Bool)
    (native : Native) {record : R} {expectedRevision : Int} {operationId : String}
    (identified : cfg.stableId record = some operationId)
    (detection : SameDetection cfg (f, m)
      (.request (.append record expectedRevision operationId) native)) :
    StepAgrees cfg (appendSync cfg background native f record expectedRevision operationId)
      (memoryAppend cfg m record expectedRevision operationId) := by
  obtain ⟨requested, text⟩ := stableId_eq_some.mp identified
  have operation := requireOperationId_eq_ok.mpr ⟨text, rfl⟩
  cases present : f.journal with
  | none =>
    have none : m.snapshot = none := by rw [run.snapshot, present]; rfl
    unfold appendSync memoryAppend
    rw [operation, present, (run.vacant present).2, none]
    cases requireRevision "expected revision" expectedRevision <;> exact ⟨rfl, run⟩
  | some journal =>
    obtain ⟨negative, proper⟩ := detection journal present
    by_cases below : expectedRevision < 0
    · have fails : requireRevision "expected revision" expectedRevision =
          .error (.value ("expected revision" ++ " must be non-negative")) := by
        simp [requireRevision, below]
      have unlogged : m.appendOperations.lookup operationId = none := negative below
      unfold appendSync memoryAppend
      simp only [operation, fails, unlogged]
      exact ⟨rfl, run⟩
    · have nonnegative : 0 ≤ expectedRevision := Int.not_lt.mp below
      obtain ⟨expected, rfl⟩ := Int.eq_ofNat_of_zero_le nonnegative
      obtain ⟨covers, identify, fits, grownFits⟩ := proper nonnegative
      have created := loadCreateOperation_appendSync cfg background native f record expected
        operationId
      by_cases known : operationId ∈ stableIds cfg journal.records
      · obtain ⟨⟨stored, receipt⟩, found⟩ := Option.ne_none_iff_exists'.mp (covers known)
        obtain ⟨position, rfl, sole⟩ := run.logged journal present _ _ _ found
        obtain ⟨heads, same, answer⟩ := appendSync_known background native (expected : Int) run.heads
          present identified sole
        have after := run.of_file heads (same.trans present.symm) created
        unfold memoryAppend
        simp only [operation, found]
        rcases answer nonnegative (fun _ => fits) with ⟨receipts, digests⟩ | ⟨differs, refused⟩
        · obtain rfl := identify stored (List.mem_of_getElem? sole.here) record (by simp) digests
          simp only [if_true]
          exact ⟨by rw [receipts], after⟩
        · simp only [differs, if_false]
          exact ⟨by rw [refused], after⟩
      · have unlogged : m.appendOperations.lookup operationId = none := by
          cases found : m.appendOperations.lookup operationId with
          | none => rfl
          | some entry =>
            obtain ⟨position, _, sole⟩ := run.logged journal present _ _ _ found
            exact absurd (mem_stableIds.mpr ⟨_, List.mem_of_getElem? sole.here,
              stableId_eq_some.mpr ⟨sole.identified, text⟩⟩) known
        have heads := (appendSync_new background native (expected : Int) run.heads present identified
          known).1
        have snapshot : m.snapshot = some ⟨journal.header, journal.records⟩ := by
          rw [run.snapshot, present]
          rfl
        unfold memoryAppend
        simp only [operation, unlogged, snapshot, requireRevision_eq_ok.mpr rfl,
          ConversationSnapshot.revision]
        rcases appendSync_new_answer background native (expected : Int) run.heads present identified
          known rfl ⟨fits, fun current => grownFits known (by rw [current])⟩ with
          ⟨current, receipt, grown⟩ | ⟨differs, refused, same⟩
        · have made : CommitReceipt.make (journal.records.length + 1) (cfg.projectedId record) =
              .ok ⟨journal.records.length + 1, some operationId⟩ := by
            rw [requested]
            exact CommitReceipt.make_of_id (Nat.succ_pos _) text
          subst current
          simp only [ne_eq, not_true_eq_false, if_false, made]
          refine ⟨by rw [receipt], ?_⟩
          have ids : stableIds cfg [record] = [operationId] := by simp [stableIds, identified]
          exact run.grow present heads grown created ids (List.nodup_singleton operationId)
            (by simp [requested, text]) (by simpa using known) (by simp [requested])
        · simp only [differs, ne_eq, not_false_eq_true, if_true]
          exact ⟨by rw [refused], run.of_file heads (same.trans present.symm) created⟩

theorem decideBatch_ahead [DecidableEq R] {head : Option StoreHead} {identity : JournalIdentity}
    {existing : List R} {expected : Nat} (usable : UsableHead cfg existing head)
    (ahead : existing.length < expected) :
    decideBatch cfg head identity existing records operationIds expected =
      .error (.atRevision existing.length expected) := by
  cases head with
  | none => simp [decideBatch, replayBatch, prepareBatchFromRecords, ahead, bind, Except.bind]
  | some head =>
    simp [decideBatch, prepareBatchFromHead, (usable head rfl).2.revision, ahead, bind, Except.bind]

theorem Aligned.drop (aligned : Aligned cfg records operationIds) {matched : Nat}
    (more : matched < records.length) : Aligned cfg (records.drop matched) (operationIds.drop matched) where
  ids := by rw [List.map_drop, List.map_drop, aligned.ids]
  text operationId member := aligned.text operationId (List.mem_of_mem_drop member)
  nodup := aligned.nodup.sublist (List.drop_sublist _ _)
  nonempty nothing := by
    have := List.drop_eq_nil_iff.mp nothing
    omega

theorem MirrorRun.appendBatch [DecidableEq R] (run : MirrorRun cfg f m) (background : Bool) (native : Native)
    {expectedRevision : Int} (detection : SameDetection cfg (f, m)
      (.request (.appendBatch records expectedRevision operationIds) native)) :
    StepAgrees cfg (appendBatchSync cfg background native f records expectedRevision operationIds)
      (memoryAppendBatch cfg m records expectedRevision operationIds) := by
  cases checked : checkBatchRequest cfg records operationIds with
  | error error =>
    unfold appendBatchSync memoryAppendBatch
    simp only [checked]
    exact ⟨rfl, run⟩
  | ok checks =>
  cases revision : requireRevision "expected revision" expectedRevision with
  | error error =>
    unfold appendBatchSync memoryAppendBatch
    simp only [checked, revision]
    exact ⟨rfl, run⟩
  | ok expected =>
  cases present : f.journal with
  | none =>
    have none : m.snapshot = none := by rw [run.snapshot, present]; rfl
    unfold appendBatchSync memoryAppendBatch
    simp only [checked, revision, present, none]
    exact ⟨rfl, run⟩
  | some journal =>
    obtain rfl := requireRevision_eq_ok.mp revision
    have aligned := checkBatchRequest_aligned checked
    have usable := run.heads.usable present
    have snapshot : m.snapshot = some ⟨journal.header, journal.records⟩ := by
      rw [run.snapshot, present]
      rfl
    have verdicts := fun begun => (detection journal present expected rfl checked begun).1
    have prepared := prepareBatch_agree aligned
      (fun operationId record receipt found => by
        obtain ⟨_, rfl, _⟩ := run.logged journal present operationId record receipt found
        rfl) verdicts
    have effect : (decideBatch cfg (headForAppend cfg f journal.identity) journal.identity
        journal.records records operationIds expected).map BatchDecision.effect =
        prepareBatchFromRecords cfg journal.records records operationIds expected := by
      by_cases ahead : journal.records.length < expected
      · rw [decideBatch_ahead usable ahead]
        simp [prepareBatchFromRecords, ahead, Except.map]
      · obtain ⟨_, _, identify, fits⟩ :=
          detection journal present expected rfl checked (Nat.not_lt.mp ahead)
        exact decideBatch_effect usable aligned identify fits
    obtain ⟨heads, _⟩ := appendBatchSync_grows background native (expected : Int) records operationIds
      run.heads present
    have created := loadCreateOperation_appendBatchSync cfg background native f records expected
      operationIds
    obtain ⟨answer, after⟩ := appendBatchSync_effect background native checked revision present
    rw [effect] at answer after
    unfold memoryAppendBatch
    simp only [checked, revision, snapshot]
    cases replay : prepareBatchFromRecords cfg journal.records records operationIds expected with
    | error error =>
      rw [replay] at prepared answer after
      cases memory : memoryPrepareBatch m.appendOperations journal.records records operationIds
          expected with
      | ok receipts =>
        rw [memory] at prepared
        cases prepared
      | error error' =>
        rw [memory] at prepared
        refine ⟨?_, run.of_file heads (after.trans present.symm) created⟩
        rw [answer]
        simpa [Except.mapError, Except.map] using prepared.symm
    | ok result =>
      obtain ⟨receipts, appended⟩ := result
      rw [replay] at prepared answer after effect
      cases memory : memoryPrepareBatch m.appendOperations journal.records records operationIds
          expected with
      | error error =>
        rw [memory] at prepared
        cases prepared
      | ok result =>
        rw [memory] at prepared
        cases prepared
        refine ⟨by rw [answer]; rfl, ?_⟩
        by_cases nothing : appended = []
        · subst nothing
          have unchanged : ({ m with
              snapshot := some ⟨journal.header, journal.records ++ []⟩
              appendOperations := m.appendOperations } : MemoryState H R) = m := by
            rw [List.append_nil, ← snapshot]
          have same := run.of_file heads (after.trans present.symm) created
          simpa only [List.zip_nil_left, logAppends, unchanged] using same
        · cases decided : decideBatch cfg (headForAppend cfg f journal.identity) journal.identity
              journal.records records operationIds expected with
          | error error =>
            rw [decided] at effect
            cases effect
          | ok decision =>
            rw [decided] at effect
            obtain ⟨matched, answered⟩ := decideBatch_ok usable aligned decided
            obtain rfl : appended = records.drop matched :=
              (congrArg Prod.snd (Except.ok.inj effect)).symm.trans answered.appended
            have more : matched < records.length := by
              by_contra all
              exact nothing (List.drop_eq_nil_of_le (Nat.not_lt.mp all))
            have ends := answered.current more
            have scanned := (detection journal present expected rfl checked (by omega)).2.1
            have count : records.length - (records.drop matched).length = matched := by
              rw [List.length_drop]
              omega
            have rest := aligned.drop more
            have logs : ∀ other ∈ records.drop matched, ∃ operationId ∈ operationIds.drop matched,
                cfg.projectedId other = some operationId := by
              intro other member
              have listed := rest.ids ▸ List.mem_map_of_mem (f := cfg.projectedId) member
              obtain ⟨operationId, here, same⟩ := List.mem_map.mp listed
              exact ⟨operationId, here, same.symm⟩
            simp only [grownJournal, nothing, if_false] at after
            simp only [count, ends]
            exact run.grow present heads after created (aligned.stableIds_drop matched) rest.nodup
              rest.mem_zip (answered.new_ids aligned more scanned) logs

/-- One step of both stores. -/
theorem MirrorRun.step [DecidableEq H] [DecidableEq R] (key : ConversationKey) (background : Bool)
    (run : MirrorRun cfg f m) {input : FileInput H R} (native : NativeRequest cfg input)
    (detection : SameDetection cfg (f, m) input) :
    Agrees cfg key background (f, m) input ∧
      MirrorRun cfg ((fileStore cfg key background).step f input).2
        ((memoryStore cfg).step m input).2 := by
  cases input with
  | request request native' =>
    have both : StepAgrees cfg (fileRequest cfg key background native' f request)
        (memoryRequest cfg m request) := by
      cases request with
      | create header records operationId => exact run.create key native detection.1 detection.2
      | append record expectedRevision operationId => exact run.append background native' native detection
      | appendBatch records expectedRevision operationIds => exact run.appendBatch background native' detection
      | load =>
        refine ⟨?_, run⟩
        have snapshot := run.snapshot
        simp only [fileRequest, memoryRequest, loadSync, memoryLoad]
        rw [snapshot]
        cases f.journal <;> rfl
    exact ⟨⟨congrArg some both.1, both.2.records⟩, both.2⟩
  | restart =>
    have after : MirrorRun cfg { f with headCache := none, queuedHead := none } m := by
      refine run.of_file (fun head remembered => ?_) rfl rfl
      cases remembered with
      | cached kept => cases kept
      | queued kept => cases kept
      | sidecar kept stored decoded => exact run.heads head (.sidecar kept stored decoded)
    exact ⟨⟨rfl, after.records⟩, after⟩
  | metadataLost => exact absurd native id
  | backgroundHeadWrite native' =>
    have after : MirrorRun cfg (writeHeadIfCurrent cfg native' f) m := by
      refine run.of_file run.heads.writeHeadIfCurrent ?_ ?_
      · unfold writeHeadIfCurrent
        split
        · split <;> simp
        · rfl
      · unfold writeHeadIfCurrent
        split
        · split
          · simp only [loadCreateOperation_rememberHead, loadCreateOperation_tryWriteStoreHead]
            rfl
          · rfl
        · rfl
    exact ⟨⟨rfl, after.records⟩, after⟩

end

/-! ## Runs over the journal of names -/

end Loushang.Conversation
