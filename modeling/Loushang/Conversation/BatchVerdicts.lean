import Loushang.Conversation.FileRuns
import Loushang.Conversation.MemoryStore
import Loushang.Lib.Raises

/-!
# Two verdicts on a batch

The memory store recognises a replayed operation by its log, the file store by
the ids in its journal, and only the file store stops looking at the journal's
end. Where `ScanRefuses` and `LogRefuses` agree the stores prepare a batch alike.
-/
namespace Loushang.Conversation
open Loushang.Lib

section

variable {R : Type} (cfg : StoreConfig R)

/-- The journal knows the id, but not only for this record at this position. -/
def Misplaced (existing : List R) (position : Nat) (record : R) (operationId : String) : Prop :=
  operationId ∈ stableIds cfg existing ∧ ¬ Sole cfg existing operationId position record

/-- The first operation in order that does not match the journal is misplaced. -/
def ScanRefuses (existing : List R) : Nat → List (R × String) → Prop
  | _, [] => False
  | position, (record, operationId) :: rest =>
    Misplaced cfg existing position record operationId ∨
      (existing[position]? = some record ∧ ScanRefuses existing (position + 1) rest)

/-- Some operation of the batch is logged with another record or revision. -/
def LogRefuses (log : List (String × R × CommitReceipt)) : Nat → List (R × String) → Prop
  | _, [] => False
  | position, (record, operationId) :: rest =>
    (∃ previousRecord previousReceipt,
      log.lookup operationId = some (previousRecord, previousReceipt) ∧
        (previousRecord ≠ record ∨ previousReceipt.revision ≠ position + 1)) ∨
      LogRefuses log (position + 1) rest

/-- How far a batch agrees with the journal by position. -/
def overlapLength [DecidableEq R] (existing : List R) : Nat → List (R × String) → Except StoreError Nat
  | _, [] => .ok 0
  | position, (record, _) :: rest =>
    if existing.length ≤ position then .ok 0
    else if existing[position]? ≠ some record then .error .divergedInsideBatch
    else (overlapLength existing (position + 1) rest).map Nat.succ

variable {cfg}

theorem overlapLength_le [DecidableEq R] {existing : List R} {position matched : Nat} {pairs : List (R × String)}
    (success : overlapLength existing position pairs = .ok matched) : matched ≤ pairs.length := by
  induction pairs generalizing position matched with
  | nil =>
    cases success
    exact Nat.le_refl _
  | cons pair rest ih =>
    obtain ⟨record, operationId⟩ := pair
    simp only [overlapLength] at success
    split at success
    · cases success
      exact Nat.zero_le _
    · obtain ⟨-, success⟩ := raise_if_ok success
      cases deeper : overlapLength existing (position + 1) rest with
      | error error =>
        rw [deeper] at success
        cases success
      | ok fewer =>
        rw [deeper] at success
        cases success
        exact Nat.succ_le_succ (ih deeper)

/-- Replay refuses an operation exactly where the scan meets a misplaced one, and
otherwise only compares positions. -/
theorem matchRecords_verdict [DecidableEq R] (existing : List R) (position : Nat)
    {pairs : List (R × String)}
    (aligned : ∀ pair ∈ pairs, cfg.projectedId pair.1 = some pair.2 ∧ isBlank pair.2.toList = false) :
    (ScanRefuses cfg existing position pairs ∧ ∃ error,
        matchRecords cfg existing position pairs = .error error ∧
          error.errorClass = .storeOperationConflictError) ∨
      (¬ ScanRefuses cfg existing position pairs ∧
        matchRecords cfg existing position pairs = overlapLength existing position pairs) := by
  induction pairs generalizing position with
  | nil => exact Or.inr ⟨fun refuses => refuses, rfl⟩
  | cons pair rest ih =>
    obtain ⟨record, operationId⟩ := pair
    obtain ⟨requested, text⟩ := aligned _ List.mem_cons_self
    have later := ih (position + 1) fun pair member => aligned pair (List.mem_cons_of_mem _ member)
    by_cases misplaced : Misplaced cfg existing position record operationId
    · refine Or.inl ⟨Or.inl misplaced, ?_⟩
      simp only [matchRecords]
      split
      · exact ⟨_, rfl, rfl⟩
      · next single =>
        split
        · exact ⟨_, rfl, rfl⟩
        · next elsewhere =>
          -- one occurrence, and it is the requested one: then it is the only one
          obtain ⟨known, notSole⟩ := misplaced
          simp only [List.any_eq_true, not_exists, not_and, decide_eq_true_eq, not_not] at elsewhere
          have only : ∀ index other, existing[index]? = some other →
              cfg.projectedId other = some operationId → (index, other) = (position, record) :=
            fun index other found claimed => elsewhere _ (mem_occurrences.mpr ⟨found, claimed⟩)
          obtain ⟨stored, member, identified⟩ := mem_stableIds.mp known
          obtain ⟨index, found⟩ := List.mem_iff_getElem?.mp member
          obtain ⟨rfl, rfl⟩ := Prod.mk.inj (only index stored found (stableId_eq_some.mp identified).1)
          exact absurd ⟨found, requested, fun index other found claimed =>
            (Prod.mk.inj (only index other found claimed)).1⟩ notSole
    · have quiet : ¬ 1 < (occurrences cfg existing operationId).length ∧
          (occurrences cfg existing operationId).any (fun entry => entry ≠ (position, record)) = false := by
        by_cases known : operationId ∈ stableIds cfg existing
        · have sole : Sole cfg existing operationId position record :=
            not_not.mp fun notSole => misplaced ⟨known, notSole⟩
          simp [occurrences_sole sole]
        · simp [occurrences_absent (absent_of_not_mem text known)]
      simp only [matchRecords, overlapLength, quiet.1, quiet.2, if_false, Bool.false_eq_true]
      split
      · next beyond =>
        refine Or.inr ⟨?_, rfl⟩
        rintro (here | ⟨here, _⟩)
        · exact misplaced here
        · rw [List.getElem?_eq_none_iff.mpr beyond] at here
          cases here
      · split
        · next differs =>
          refine Or.inr ⟨?_, rfl⟩
          rintro (here | ⟨here, _⟩)
          · exact misplaced here
          · exact differs here
        · next agrees =>
          rcases later with ⟨refuses, error, fails, conflict⟩ | ⟨passes, same⟩
          · refine Or.inl ⟨Or.inr ⟨not_not.mp agrees, refuses⟩, error, ?_, conflict⟩
            rw [fails]
            rfl
          · refine Or.inr ⟨?_, by rw [same]⟩
            rintro (here | ⟨_, refuses⟩)
            · exact misplaced here
            · exact passes refuses

/-- The log's check fails exactly where the log refuses; otherwise it returns the
logged receipts. -/
theorem checkLogged_verdict [DecidableEq R] (log : List (String × R × CommitReceipt))
    (pairs : List (R × String)) (position : Nat) :
    (LogRefuses log position pairs ∧ ∃ error, checkLogged log position pairs = .error error ∧
        error.errorClass = .storeOperationConflictError) ∨
      (¬ LogRefuses log position pairs ∧ checkLogged log position pairs =
        .ok (pairs.map fun pair => (log.lookup pair.2).map Prod.snd)) := by
  induction pairs generalizing position with
  | nil => exact Or.inr ⟨fun refuses => refuses, rfl⟩
  | cons pair rest ih =>
    obtain ⟨record, operationId⟩ := pair
    have later := ih (position + 1)
    simp only [checkLogged]
    cases found : log.lookup operationId with
    | none =>
      rcases later with ⟨refuses, error, fails, conflict⟩ | ⟨passes, same⟩
      · exact Or.inl ⟨Or.inr refuses, error, by simp [fails, Except.map], conflict⟩
      · refine Or.inr ⟨?_, by simp [same, found, Except.map]⟩
        rintro (⟨_, _, here, _⟩ | refuses)
        · rw [found] at here
          cases here
        · exact passes refuses
    | some previous =>
      obtain ⟨previousRecord, previousReceipt⟩ := previous
      simp only
      split
      · next differs => exact Or.inl ⟨Or.inl ⟨_, _, found, Or.inl differs⟩, _, rfl, rfl⟩
      · next same =>
        split
        · next moved => exact Or.inl ⟨Or.inl ⟨_, _, found, Or.inr moved⟩, _, rfl, rfl⟩
        · next stays =>
          rcases later with ⟨refuses, error, fails, conflict⟩ | ⟨passes, rest⟩
          · exact Or.inl ⟨Or.inr refuses, error, by simp [fails, Except.map], conflict⟩
          · refine Or.inr ⟨?_, by simp [rest, found, Except.map]⟩
            rintro (⟨_, _, here, other | moved⟩ | refuses)
            · rw [found] at here
              cases here
              exact same other
            · rw [found] at here
              cases here
              exact stays moved
            · exact passes refuses

/-- Receipts of the overlap, whether logged or made anew. -/
theorem matchSnapshot_overlap [DecidableEq R] {log : List (String × R × CommitReceipt)} {existing : List R}
    (ids : ∀ operationId record receipt, log.lookup operationId = some (record, receipt) →
      receipt.recordId = some operationId) {pairs : List (R × String)} {position : Nat}
    (passes : ¬ LogRefuses log position pairs) :
    matchSnapshot existing position
        (pairs.zip (pairs.map fun pair => (log.lookup pair.2).map Prod.snd)) =
      (overlapLength existing position pairs).map fun matched =>
        batchReceipts (position + 1) ((pairs.map Prod.snd).take matched) := by
  induction pairs generalizing position with
  | nil => rfl
  | cons pair rest ih =>
    obtain ⟨record, operationId⟩ := pair
    have later := @ih (position + 1) fun refuses => passes (Or.inr refuses)
    have receipt : ((log.lookup operationId).map Prod.snd).getD ⟨position + 1, some operationId⟩ =
        ⟨position + 1, some operationId⟩ := by
      cases found : log.lookup operationId with
      | none => rfl
      | some previous =>
        obtain ⟨previousRecord, previousReceipt⟩ := previous
        have revision : previousReceipt.revision = position + 1 := by
          by_contra moved
          exact passes (Or.inl ⟨_, _, found, Or.inr moved⟩)
        have id := ids operationId previousRecord previousReceipt found
        simp only [Option.map_some, Option.getD_some]
        rw [← revision, ← id]
    simp only [List.map_cons, List.zip_cons_cons, matchSnapshot, overlapLength, receipt, later]
    split
    · rfl
    · split
      · rfl
      · cases overlapLength existing (position + 1) rest <;> rfl

theorem batchReceipts_length (revision : Nat) (operationIds : List String) :
    (batchReceipts revision operationIds).length = operationIds.length := by
  induction operationIds generalizing revision with
  | nil => rfl
  | cons operationId rest ih => simp [batchReceipts, ih]

/-- Where the two verdicts agree, the stores prepare a batch alike. -/
theorem prepareBatch_agree [DecidableEq R] {log : List (String × R × CommitReceipt)} {existing records : List R}
    {operationIds : List String} {expected : Nat} (aligned : Aligned cfg records operationIds)
    (ids : ∀ operationId record receipt, log.lookup operationId = some (record, receipt) →
      receipt.recordId = some operationId)
    (verdicts : expected ≤ existing.length →
      (ScanRefuses cfg existing expected (records.zip operationIds) ↔
        LogRefuses log expected (records.zip operationIds))) :
    (memoryPrepareBatch log existing records operationIds expected).mapError StoreError.errorClass =
      (prepareBatchFromRecords cfg existing records operationIds expected).mapError
        StoreError.errorClass := by
  unfold memoryPrepareBatch prepareBatchFromRecords
  split
  · rfl
  · next reached =>
    have size : (records.zip operationIds).length = records.length := by simp [aligned.length]
    have operations : (records.zip operationIds).map Prod.snd = operationIds :=
      List.map_snd_zip (by simp [aligned.length])
    rcases matchRecords_verdict existing expected aligned.mem_zip with
      ⟨scanRefuses, scanError, scanFails, scanConflict⟩ | ⟨scanPasses, scanned⟩
    · have logRefuses := (verdicts (Nat.not_lt.mp reached)).mp scanRefuses
      rcases checkLogged_verdict log (records.zip operationIds) expected with ⟨_, logError, logFails, logConflict⟩ | ⟨logPasses, _⟩
      · rw [scanFails, logFails]
        simp [bind, Except.bind, Except.mapError, scanConflict, logConflict]
      · exact absurd logRefuses logPasses
    · have logPasses : ¬ LogRefuses log expected (records.zip operationIds) := fun refuses =>
        scanPasses ((verdicts (Nat.not_lt.mp reached)).mpr refuses)
      rcases checkLogged_verdict log (records.zip operationIds) expected with ⟨logRefuses, _⟩ | ⟨_, logged⟩
      · exact absurd logRefuses logPasses
      · rw [scanned, logged]
        simp only [bind, Except.bind, matchSnapshot_overlap ids logPasses, operations]
        cases overlap : overlapLength existing expected (records.zip operationIds) with
        | error error => rfl
        | ok matched =>
          have bounded := overlapLength_le overlap
          have count : (batchReceipts (expected + 1) (operationIds.take matched)).length = matched := by
            rw [batchReceipts_length, List.length_take]
            have := aligned.length
            omega
          simp only [Except.map, count, preparedBatch]

/-! ## The file store's batch as its replay -/

theorem finishBatch_effect [DecidableEq R] {existing records : List R} {operationIds : List String} {matched : Nat}
    {head : Option StoreHead} {replayed : Bool} {receipts : List CommitReceipt}
    (usable : UsableHead cfg existing head) (aligned : Aligned cfg records operationIds)
    (bounded : matched ≤ records.length) (fits : HeadFits cfg (existing ++ records.drop matched)) :
    (finishBatch cfg (receipts, records.drop matched) head replayed records operationIds).map
      BatchDecision.effect = .ok (receipts, records.drop matched) := by
  unfold finishBatch
  split
  · rfl
  · simp only
    rw [appended_headEntries aligned bounded]
    split
    · next nothing =>
      rw [nothing]
      rfl
    · rcases advanceStoreHead_cases usable (records.drop matched) with
        ⟨advanced, advances, _⟩ | ⟨overflow, _⟩
      · rw [advances]
        rfl
      · exact absurd fits overflow

theorem replayBatch_effect [DecidableEq R] {identity : JournalIdentity} {existing records : List R}
    {operationIds : List String} {expected : Nat} (aligned : Aligned cfg records operationIds)
    (fits : HeadFits cfg (existing ++ records.drop (existing.length - expected))) :
    (replayBatch cfg identity existing records operationIds expected).map BatchDecision.effect =
      prepareBatchFromRecords cfg existing records operationIds expected := by
  unfold replayBatch prepareBatchFromRecords
  split
  · rfl
  · next reached =>
    cases matching : matchRecords cfg existing expected (records.zip operationIds) with
    | error error => rfl
    | ok matched =>
      simp only [bind, Except.bind]
      cases prepares : preparedBatch existing.length expected matched records operationIds with
      | error error => rfl
      | ok prepared =>
        obtain rfl := preparedBatch_ok prepares
        obtain ⟨bounded, inside, _, stop⟩ := matchRecords_ok matching (Nat.not_lt.mp reached)
        have size : (records.zip operationIds).length = records.length := by simp [aligned.length]
        rw [size] at bounded stop
        have appended : records.drop (existing.length - expected) = records.drop matched := by
          rcases Nat.lt_or_eq_of_le bounded with more | rfl
          · congr 1
            omega
          · rw [List.drop_eq_nil_of_le (by omega), List.drop_length]
        rw [appended] at fits
        rcases rebuildHead_cases cfg identity existing with ⟨rebuilt, rebuilds⟩ | ⟨overflow, _⟩
        · simp only [rebuilds]
          exact finishBatch_effect (rebuildHead_spec rebuilds).1 aligned bounded fits
        · exact absurd fits.front overflow

/-- With any usable head a batch decides what replay prepares. -/
theorem decideBatch_effect [DecidableEq R] {identity : JournalIdentity} {existing records : List R}
    {operationIds : List String} {expected : Nat} {head : Option StoreHead}
    (usable : UsableHead cfg existing head) (aligned : Aligned cfg records operationIds)
    (identify : DigestsIdentify cfg existing records)
    (fits : HeadFits cfg (existing ++ records.drop (existing.length - expected))) :
    (decideBatch cfg head identity existing records operationIds expected).map
        BatchDecision.effect =
      prepareBatchFromRecords cfg existing records operationIds expected := by
  cases head with
  | none => exact replayBatch_effect aligned fits
  | some head =>
    obtain ⟨enabled, valid⟩ := usable head rfl
    obtain ⟨token, enabled⟩ := Option.ne_none_iff_exists'.mp enabled
    rw [decideBatch_of_headFor enabled valid aligned identify]
    exact replayBatch_effect aligned fits

/-! ## Growing journals -/

theorem Sole.append_left {existing appended : List R} {operationId : String} {position : Nat}
    {record : R} (sole : Sole cfg existing operationId position record)
    (fresh : ∀ other ∈ appended, cfg.projectedId other ≠ some operationId) :
    Sole cfg (existing ++ appended) operationId position record := by
  obtain ⟨inside, _⟩ := List.getElem?_eq_some_iff.mp sole.here
  refine ⟨by rw [List.getElem?_append_left inside, sole.here], sole.identified, ?_⟩
  intro index other found claimed
  by_cases old : index < existing.length
  · rw [List.getElem?_append_left old] at found
    exact sole.only index other found claimed
  · rw [List.getElem?_append_right (Nat.not_lt.mp old)] at found
    exact absurd claimed (fresh other (List.mem_of_getElem? found))

theorem Sole.append_right {existing appended : List R} {operationId : String} {position : Nat}
    {record : R} (sole : Sole cfg appended operationId position record)
    (fresh : ∀ other ∈ existing, cfg.projectedId other ≠ some operationId) :
    Sole cfg (existing ++ appended) operationId (existing.length + position) record := by
  refine ⟨by rw [List.getElem?_append_right (Nat.le_add_right _ _), Nat.add_sub_cancel_left,
    sole.here], sole.identified, ?_⟩
  intro index other found claimed
  by_cases old : index < existing.length
  · rw [List.getElem?_append_left old] at found
    exact absurd claimed (fresh other (List.mem_of_getElem? found))
  · rw [List.getElem?_append_right (Nat.not_lt.mp old)] at found
    have same := sole.only _ other found claimed
    omega

theorem lookup_logAppends {pairs : List (R × String)} {revision : Nat}
    {log : List (String × R × CommitReceipt)} {operationId : String} {record : R}
    {receipt : CommitReceipt}
    (found : (logAppends revision pairs log).lookup operationId = some (record, receipt)) :
    (∃ index, pairs[index]? = some (record, operationId) ∧
        receipt = ⟨revision + index, some operationId⟩) ∨
      log.lookup operationId = some (record, receipt) := by
  induction pairs generalizing revision log with
  | nil => exact Or.inr found
  | cons pair rest ih =>
    obtain ⟨firstRecord, firstId⟩ := pair
    rcases ih found with ⟨index, here, rfl⟩ | earlier
    · exact Or.inl ⟨index + 1, by simpa using here, by simp; omega⟩
    · rw [List.lookup_cons] at earlier
      split at earlier
      · next same =>
        cases earlier
        obtain rfl : operationId = firstId := by simpa using same
        exact Or.inl ⟨0, rfl, rfl⟩
      · exact Or.inr earlier

end

end Loushang.Conversation
