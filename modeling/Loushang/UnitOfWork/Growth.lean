import Loushang.UnitOfWork.Calls

/-!
# What a commit does to the records in memory

Whatever the store answers, a commit call adds a run of its own records behind the selected leaf, all
of them when it returns, and touches neither the profile nor the replay cache.
-/
namespace Loushang.UnitOfWork
open Loushang.Lib Loushang.Branch Loushang.Transcript Loushang.Conversation

namespace TranscriptUnitOfWork

variable {W H B τ S : Type} {around : Surroundings H B τ S}

/-- The repository is over its records, and later objects are new. -/
structure Kept (u : TranscriptUnitOfWork W H B τ S) : Prop where
  fits : u.repository.Fits TranscriptRecord.recordId TranscriptRecord.parentId u.heap
  fresh : u.repository.object < u.nextObject

/-- One unit of work is another one with these records behind its leaf. -/
structure Advanced (u u' : TranscriptUnitOfWork W H B τ S) (done : List (TranscriptRecord B)) : Prop where
  kept : u'.Kept
  records : u'.repository.records = u.repository.records ++ done
  leaf : u'.repository.leafId = lastId TranscriptRecord.recordId done u.repository.leafId
  object : u'.repository.object = u.repository.object ∨ u.nextObject ≤ u'.repository.object
  next : u.nextObject ≤ u'.nextObject
  header : u'.header = u.header
  profile : u'.profile = u.profile
  replayCache : u'.replayCache = u.replayCache
  outcomes : u'.outcomeInvocationIds = observed u.outcomeInvocationIds done
  counted : u.revision = u.repository.records.length → u'.revision = u'.repository.records.length

theorem observed_append (known : List String) (front back : List (TranscriptRecord B)) :
    observed (observed known front) back = observed known (front ++ back) := by
  simp [observed]

@[simp] theorem observed_nil (known : List String) : observed known ([] : List (TranscriptRecord B)) = known := by
  simp [observed]

theorem lastId_append (front back : List (TranscriptRecord B)) (leafId : Option String) :
    lastId TranscriptRecord.recordId back (lastId TranscriptRecord.recordId front leafId) =
      lastId TranscriptRecord.recordId (front ++ back) leafId := by
  unfold lastId
  rw [List.getLast?_append]
  cases back.getLast? <;> simp

variable {u u' : TranscriptUnitOfWork W H B τ S}

/-- What a failed call leaves: at most the store and the graph's memory of a path have changed. -/
theorem Kept.unchanged (kept : u'.Kept)
    (repository : u'.repository.records = u.repository.records ∧ u'.repository.leafId = u.repository.leafId ∧
      u'.repository.object = u.repository.object) (next : u'.nextObject = u.nextObject)
    (header : u'.header = u.header) (profile : u'.profile = u.profile)
    (replayCache : u'.replayCache = u.replayCache)
    (outcomes : u'.outcomeInvocationIds = u.outcomeInvocationIds) (revision : u'.revision = u.revision) :
    Advanced u u' [] where
  kept
  records := by rw [repository.1, List.append_nil]
  leaf := repository.2.1
  object := Or.inl repository.2.2
  next := next.ge
  header
  profile
  replayCache
  outcomes := by rw [outcomes, observed_nil]
  counted same := by rw [revision, repository.1, same]

theorem Kept.refl (kept : u.Kept) : Advanced u u [] :=
  kept.unchanged ⟨rfl, rfl, rfl⟩ rfl rfl rfl rfl rfl rfl

theorem Kept.withStore (kept : u.Kept) (store : S) : Advanced u { u with store } [] :=
  have kept' : Kept { u with store } := ⟨kept.fits, kept.fresh⟩
  kept'.unchanged ⟨rfl, rfl, rfl⟩ rfl rfl rfl rfl rfl rfl

variable {done : List (TranscriptRecord B)}

theorem Advanced.trans {u'' : TranscriptUnitOfWork W H B τ S} {more : List (TranscriptRecord B)}
    (one : Advanced u u' done) (two : Advanced u' u'' more) : Advanced u u'' (done ++ more) where
  kept := two.kept
  records := by rw [two.records, one.records, List.append_assoc]
  leaf := by rw [two.leaf, one.leaf, lastId_append]
  object := by
    rcases two.object with same | later
    · rcases one.object with same' | later'
      · exact Or.inl (same.trans same')
      · exact Or.inr (same ▸ later')
    · exact Or.inr (one.next.trans later)
  next := one.next.trans two.next
  header := two.header.trans one.header
  profile := two.profile.trans one.profile
  replayCache := two.replayCache.trans one.replayCache
  outcomes := by rw [two.outcomes, one.outcomes, observed_append]
  counted := fun same => two.counted (one.counted same)

/-- Reading the active path answers, and changes only what the graph remembers. -/
theorem Kept.activePath (kept : u.Kept) :
    ∃ path graph, u.activePath = (.ok path, { u with repository := { u.repository with graph } }) ∧
      u.repository.Selects TranscriptRecord.recordId TranscriptRecord.parentId path ∧
      Kept { u with repository := { u.repository with graph } } := by
  obtain ⟨path, graph, active, selects, fits⟩ := kept.fits.activeRecords
  refine ⟨path, graph, ?_, selects, fits, kept.fresh⟩
  rw [TranscriptUnitOfWork.activePath, active]

theorem Kept.remembered {graph : BranchGraph (TranscriptRecord B)}
    (kept : Kept { u with repository := { u.repository with graph } }) :
    Advanced u { u with repository := { u.repository with graph } } [] :=
  kept.unchanged ⟨rfl, rfl, rfl⟩ rfl rfl rfl rfl rfl rfl

variable {revision : Nat}

/-- The unit after records were appended to its repository, in place or in a new object. -/
theorem Kept.appended {heap : Heap} {repository : Repository (TranscriptRecord B)} {nextObject : Nat}
    {materialized : Bool} {store : S}
    (fits : repository.Fits TranscriptRecord.recordId TranscriptRecord.parentId heap)
    (records : repository.records = u.repository.records ++ done)
    (leaf : repository.leafId = lastId TranscriptRecord.recordId done u.repository.leafId)
    (object : repository.object = u.repository.object ∨ u.nextObject ≤ repository.object)
    (fresh : repository.object < nextObject) (next : u.nextObject ≤ nextObject)
    (counted : u.revision = u.repository.records.length → revision = repository.records.length) :
    Advanced u { u with
      heap, repository, nextObject, revision, materialized, store
      outcomeInvocationIds := observed u.outcomeInvocationIds done } done :=
  ⟨⟨fits, fresh⟩, records, leaf, object, next, rfl, rfl, rfl, rfl, counted⟩

/-- All records are added when a call returns, none when it raises. -/
def Settles {A : Type} (u : TranscriptUnitOfWork W H B τ S) (records : List (TranscriptRecord B)) :
    Except UnitFault A × TranscriptUnitOfWork W H B τ S → Prop
  | (.ok _, u') => Advanced u u' records
  | (.error _, u') => Advanced u u' []

/-- All records are added when a call returns, some of the first when it raises. -/
def Progresses {A : Type} (u : TranscriptUnitOfWork W H B τ S) (records : List (TranscriptRecord B)) :
    Except UnitFault A × TranscriptUnitOfWork W H B τ S → Prop
  | (.ok _, u') => Advanced u u' records
  | (.error _, u') => ∃ done, done <+: records ∧ Advanced u u' done

variable {A : Type} {records : List (TranscriptRecord B)}
  {result : Except UnitFault A × TranscriptUnitOfWork W H B τ S}

theorem Settles.progresses (settles : Settles u records result) : Progresses u records result := by
  obtain ⟨answer, u'⟩ := result
  cases answer with
  | ok value => exact settles
  | error fault => exact ⟨[], List.nil_prefix, settles⟩

theorem Progresses.advanced {A : Type} {u : TranscriptUnitOfWork W H B τ S} {records : List (TranscriptRecord B)}
    {result : Except UnitFault A × TranscriptUnitOfWork W H B τ S} (progresses : Progresses u records result) :
    ∃ done, Advanced u result.2 done := by
  obtain ⟨answer, u'⟩ := result
  cases answer with
  | ok value => exact ⟨records, progresses⟩
  | error fault =>
    obtain ⟨done, _, advanced⟩ := progresses
    exact ⟨done, advanced⟩

theorem Progresses.map {A' : Type} (progresses : Progresses u records result) (f : A → A') :
    Progresses u records (result.1.map f, result.2) := by
  obtain ⟨answer, u'⟩ := result
  cases answer <;> exact progresses

theorem settle_progresses (progresses : Progresses u records result) (cancelled propagateCancellation : Bool) :
    Progresses u records (settle cancelled propagateCancellation result) := by
  obtain ⟨answer, u'⟩ := result
  cases answer with
  | error fault => exact progresses
  | ok value =>
    unfold settle
    dsimp only
    split
    · exact ⟨records, List.prefix_refl records, progresses⟩
    · exact progresses

theorem receiptsFit_last {receipts : List CommitReceipt} (fit : receiptsFit revision records receipts = true) :
    (receipts.getLast?.map CommitReceipt.revision).getD revision = revision + records.length := by
  induction records generalizing revision receipts with
  | nil =>
    cases receipts with
    | nil => rfl
    | cons receipt rest => cases fit
  | cons record rest ih =>
    cases receipts with
    | nil => cases fit
    | cons receipt receipts =>
      simp only [receiptsFit, Bool.and_eq_true, decide_eq_true_eq] at fit
      have later := ih fit.2
      rw [List.getLast?_cons]
      cases last : receipts.getLast? with
      | none =>
        rw [last] at later
        simp only [Option.map_none, Option.getD_none] at later
        simp only [Option.getD_none, Option.map_some, Option.getD_some, List.length_cons, fit.1.1]
        omega
      | some final =>
        rw [last] at later
        simp only [Option.map_some, Option.getD_some] at later
        simp only [Option.getD_some, Option.map_some, List.length_cons, later]
        omega

variable [DecidableEq H] [DecidableEq B]

/-! ## One record -/

theorem materializeLocked_settles (kept : u.Kept) {record : TranscriptRecord B} {heap : Heap}
    {candidate : Repository (TranscriptRecord B)}
    (fits : candidate.Fits TranscriptRecord.recordId TranscriptRecord.parentId heap)
    (records : candidate.records = u.repository.records ++ [record])
    (leaf : candidate.leafId = lastId TranscriptRecord.recordId [record] u.repository.leafId)
    (object : candidate.object = u.nextObject) :
    Settles u [record] (u.materializeLocked around record heap candidate) := by
  have adopted : ∀ (snapshot : ConversationSnapshot H (TranscriptRecord B)) (store : S),
      snapshot.records = candidate.records →
      Advanced u { u with
        heap, repository := candidate, nextObject := u.nextObject + 1, revision := snapshot.revision
        materialized := true, store
        outcomeInvocationIds := observed u.outcomeInvocationIds [record] } [record] := by
    intro snapshot store same
    refine Kept.appended fits records leaf (Or.inr object.ge) (by omega) (by omega) fun _ => ?_
    rw [ConversationSnapshot.revision, same]
  unfold materializeLocked
  cases created : around.backend.create u.store u.header candidate.records around.createOperationId with
  | mk answer store =>
    cases answer with
    | ok snapshot =>
      dsimp only
      split
      · exact kept.withStore store
      · next same =>
        rw [not_or, not_or, not_not, not_not] at same
        exact adopted snapshot store same.2.1
    | error fault =>
      cases fault with
      | failed message => exact kept.withStore store
      | outcomeUnknown =>
        dsimp only
        cases around.backend.load store with
        | mk answer store =>
          cases answer with
          | error fault => exact kept.withStore store
          | ok snapshot =>
            dsimp only
            split
            · exact kept.withStore store
            · next same =>
              rw [not_or, not_or, not_not, not_not] at same
              exact adopted snapshot store same.2.1

variable (around) in
/-- A single commit adds its record when it returns, and nothing when it raises. -/
theorem commitLocked_settles (kept : u.Kept) (record : TranscriptRecord B) :
    Settles u [record] (u.commitLocked around record) := by
  unfold commitLocked
  by_cases elsewhere : record.parentId ≠ u.repository.leafId
  · rw [if_pos elsewhere]
    exact kept.refl
  · rw [if_neg elsewhere]
    by_cases stored : u.materialized = true
    · rw [if_pos stored]
      have published := kept.fits.publish [record]
      cases problem : graphProblem TranscriptRecord.recordId TranscriptRecord.parentId
          (u.repository.records ++ [record]) with
      | some found =>
        rw [problem] at published
        rw [published]
        exact kept.refl
      | none =>
        rw [problem] at published
        obtain ⟨plan, heap, grown, prepared, published, longer, fits, object, records, leaf⟩ := published
        rw [prepared]
        cases attemptTwice (fun store => around.backend.append store record u.revision record.recordId) u.store with
        | mk answer store =>
          cases answer with
          | error fault => exact kept.withStore store
          | ok receipt =>
            dsimp only
            by_cases wrong : receipt.revision ≠ u.revision + 1 ∨ namesOther receipt record = true
            · rw [if_pos wrong]
              exact kept.withStore store
            · rw [if_neg wrong, published]
              rw [not_or, not_not] at wrong
              have fresh := kept.fresh
              refine Kept.appended fits records leaf (Or.inl object) (by omega) le_rfl fun same => ?_
              rw [wrong.1, same, records, List.length_append, List.length_singleton]
    · rw [if_neg stored]
      have detached := kept.fits.withAppendedRecords u.nextObject [record]
      cases problem : graphProblem TranscriptRecord.recordId TranscriptRecord.parentId
          (u.repository.records ++ [record]) with
      | some found =>
        rw [problem] at detached
        rw [detached]
        exact kept.refl
      | none =>
        rw [problem] at detached
        obtain ⟨heap, candidate, made, longer, fits, object, records, leaf⟩ := detached
        rw [made]
        dsimp only
        split
        · exact materializeLocked_settles kept fits records leaf object
        · refine Kept.appended fits records leaf (Or.inr object.ge) (by omega) (by omega) fun same => ?_
          rw [same, records, List.length_append, List.length_singleton]

/-! ## Batches -/

variable (around) in
/-- Single commits one after the other add a run of their records. -/
theorem commitEach_progresses (kept : u.Kept) (records : List (TranscriptRecord B)) :
    Progresses u records (u.commitEach around records) := by
  induction records generalizing u with
  | nil => exact kept.refl
  | cons record rest ih =>
    have first := commitLocked_settles around kept record
    rw [commitEach]
    cases result : u.commitLocked around record with
    | mk answer u' =>
      rw [result] at first
      cases answer with
      | error fault => exact ⟨[], List.nil_prefix, first⟩
      | ok commit =>
        have advanced : Advanced u u' [record] := first
        have later := ih advanced.kept
        dsimp only
        cases after : u'.commitEach around rest with
        | mk answer u'' =>
          rw [after] at later
          cases answer with
          | error fault =>
            obtain ⟨done, front, more⟩ := later
            exact ⟨record :: done, List.cons_prefix_cons.mpr ⟨rfl, front⟩, advanced.trans more⟩
          | ok commits => exact advanced.trans later

variable (around) in
/-- A batch adds a run of its records; a batch the store takes at once adds all or none. -/
theorem commitBatchLocked_progresses (kept : u.Kept) (records : List (TranscriptRecord B)) :
    Progresses u records (u.commitBatchLocked around records) := by
  unfold commitBatchLocked
  by_cases none_ : records = []
  · rw [if_pos none_, none_]
    exact kept.refl
  · rw [if_neg none_]
    by_cases loose : (!chained u.repository.leafId records) = true
    · rw [if_pos loose]
      exact ⟨[], List.nil_prefix, kept.refl⟩
    · rw [if_neg loose]
      cases around.backend.appendBatch.filter fun _ => u.materialized with
      | none => exact commitEach_progresses around kept records
      | some appendBatch =>
        refine Settles.progresses ?_
        have published := kept.fits.publish records
        cases problem : graphProblem TranscriptRecord.recordId TranscriptRecord.parentId
            (u.repository.records ++ records) with
        | some found =>
          rw [problem] at published
          rw [published]
          exact kept.refl
        | none =>
          rw [problem] at published
          obtain ⟨plan, heap, grown, prepared, published, longer, fits, object, grew, leaf⟩ := published
          rw [prepared]
          dsimp only
          cases attemptTwice (fun store => appendBatch store records u.revision
              (records.map TranscriptRecord.recordId)) u.store with
          | mk answer store =>
            cases answer with
            | error fault => exact kept.withStore store
            | ok receipts =>
              dsimp only
              by_cases wrong : (!receiptsFit u.revision records receipts) = true
              · rw [if_pos wrong]
                exact kept.withStore store
              · rw [if_neg wrong, published]
                have fit : receiptsFit u.revision records receipts = true := by simpa using wrong
                have fresh := kept.fresh
                refine Kept.appended fits grew leaf (Or.inl object) (by omega) le_rfl fun same => ?_
                rw [receiptsFit_last fit, grew, List.length_append, same]

/-! ## Calls -/

variable (around) in
/-- Every commit call advances the unit by some of its records. -/
theorem runCommit_advances (kept : u.Kept) (call : CommitCall B) (cancelled : Bool) :
    ∃ done, Advanced u (u.runCommit around call cancelled).2 done := by
  unfold runCommit
  cases u.submission around call with
  | error fault => exact ⟨[], kept.refl⟩
  | ok submission =>
    obtain ⟨path, graph, active, _, kept'⟩ := kept.activePath
    have seen := kept'.remembered
    unfold finish
    cases submission with
    | single record propagateCancellation =>
      rw [active]
      dsimp only
      split
      · exact ⟨[], seen⟩
      · have one := (commitLocked_settles around kept' record).progresses
        have settled := settle_progresses (one.map fun commit => [commit]) cancelled propagateCancellation
        obtain ⟨done, advanced⟩ := settled.advanced
        exact ⟨[] ++ done, seen.trans advanced⟩
    | batch records propagateCancellation lineageVerified =>
      dsimp only
      split
      · exact ⟨[], kept.refl⟩
      · rw [active]
        dsimp only
        split
        · exact ⟨[], seen⟩
        · have all_ := commitBatchLocked_progresses around kept' records
          obtain ⟨done, advanced⟩ := (settle_progresses all_ cancelled propagateCancellation).advanced
          exact ⟨[] ++ done, seen.trans advanced⟩

end TranscriptUnitOfWork

end Loushang.UnitOfWork
