import Loushang.Conversation.DistinctIds

/-!
# Retried appends

The journal of a conversation only grows, so an append that was answered once is answered
alike ever after: after any further requests, restarts and lost or late sidecars.
-/
namespace Loushang.Conversation
open Loushang.Lib

section

variable {H R : Type} [DecidableEq R] {cfg : StoreConfig R} {st : FileState H R}
  {journal : JournalFile H R}

/-- No admitted step takes a record away. -/
theorem DistinctRun.grows [DecidableEq H] (run : DistinctRun cfg st) (key : ConversationKey) (background : Bool)
    {input : FileInput H R} (own : OwnIds cfg st input) (present : st.journal = some journal) :
    ∃ journal', ((fileStore cfg key background).step st input).2.journal = some journal' ∧
      journal.records <+: journal'.records := by
  have unchanged : ∀ {st' : FileState H R}, st'.journal = st.journal →
      ∃ journal', st'.journal = some journal' ∧ journal.records <+: journal'.records :=
    fun same => ⟨journal, same.trans present, List.prefix_rfl⟩
  cases input with
  | request request native =>
    cases request with
    | create header records operationId =>
      rcases createSync_journal cfg key native st header records operationId with same | ⟨vacant, _⟩
      · exact unchanged same
      · rw [vacant] at present
        cases present
    | append record expectedRevision operationId =>
      by_cases known : operationId ∈ stableIds cfg journal.records
      · obtain ⟨position, stored, sole⟩ := exists_sole (run.distinct journal present) known
        obtain ⟨_, same, _⟩ := appendSync_known background native expectedRevision run.heads present own sole
        exact unchanged (same.trans present.symm)
      · obtain ⟨_, same | grown⟩ := appendSync_new background native expectedRevision run.heads present own known
        · exact unchanged (same.trans present.symm)
        · exact ⟨_, grown, List.prefix_append _ _⟩
    | appendBatch records expectedRevision operationIds =>
      obtain ⟨_, same | ⟨_, _, _, _, _, _, _, grown⟩⟩ :=
        appendBatchSync_grows background native expectedRevision records operationIds run.heads present
      · exact unchanged (same.trans present.symm)
      · exact ⟨_, grown, List.prefix_append _ _⟩
    | load => exact unchanged rfl
  | restart => exact unchanged rfl
  | metadataLost => exact unchanged rfl
  | backgroundHeadWrite native =>
    refine unchanged ?_
    unfold fileStore writeHeadIfCurrent
    dsimp only
    split
    · split <;> simp
    · rfl

/-- A receipt tells where the record of the operation stands from now on. -/
theorem DistinctRun.receipt (run : DistinctRun cfg st) (background : Bool) (native : Native)
    {record : R} {expectedRevision : Int} {operationId : String} {receipt : CommitReceipt}
    (identified : cfg.stableId record = some operationId)
    (answered : (appendSync cfg background native st record expectedRevision operationId).1 =
      .ok (.receipt receipt)) :
    ∃ position stored journal', receipt = ⟨position + 1, some operationId⟩ ∧
      (appendSync cfg background native st record expectedRevision operationId).2.journal = some journal' ∧
      journal'.records[position]? = some stored ∧ cfg.recordDigest stored = cfg.recordDigest record := by
  obtain ⟨requested, text⟩ := stableId_eq_some.mp identified
  unfold appendSync at answered ⊢
  rw [requireOperationId_eq_ok.mpr ⟨text, rfl⟩] at answered ⊢
  cases present : st.journal with
  | none =>
    rw [present] at answered
    split at answered <;> simp_all
  | some journal =>
    rw [present] at answered
    cases revision : requireRevision "expected revision" expectedRevision with
    | error error =>
      rw [revision] at answered
      cases answered
    | ok expected =>
      rw [revision] at answered
      simp only at answered ⊢
      by_cases known : operationId ∈ stableIds cfg journal.records
      · obtain ⟨position, stored, sole⟩ := exists_sole (run.distinct journal present) known
        have outcome : KnownAppend cfg journal.identity journal.records record stored position operationId
            (decideAppend cfg (headForAppend cfg st journal.identity) journal.identity journal.records
              record expected operationId) :=
          decideAppend_known (run.heads.usable present) text requested sole
        generalize decideAppend cfg (headForAppend cfg st journal.identity) journal.identity
          journal.records record expected operationId = decision at outcome answered ⊢
        cases outcome with
        | replayed digests rebuilt _ =>
          cases rebuilt with
          | none =>
            cases answered
            exact ⟨position, stored, journal, rfl, present, sole.here, digests⟩
          | some head =>
            cases answered
            exact ⟨position, stored, journal, rfl, (tryWriteStoreHead_journal native st head).trans present,
              sole.here, digests⟩
        | reused => cases answered
        | full => cases answered
      · have outcome : NewAppend cfg journal.records record expected operationId
            (decideAppend cfg (headForAppend cfg st journal.identity) journal.identity journal.records
              record expected operationId) :=
          decideAppend_new (run.heads.usable present) text requested (absent_of_not_mem text known)
        generalize decideAppend cfg (headForAppend cfg st journal.identity) journal.identity
          journal.records record expected operationId = decision at outcome answered ⊢
        cases outcome with
        | committed =>
          cases answered
          exact ⟨_, record, _, rfl, commitRecords_journal .., List.getElem?_concat_length, rfl⟩
        | stale => cases answered
        | full => cases answered

variable (cfg) in
/-- An answered append is answered with the same receipt whenever it is retried, under
whatever revision, and the journal stays as it is. -/
theorem append_retried [DecidableEq H] (identifies : Function.Injective cfg.recordDigest) (key : ConversationKey)
    (background : Bool) (inputs later : List (FileInput H R)) (record : R) (operationId : String)
    (expected expected' : Int) (native native' : Native) (receipt : CommitReceipt)
    (admitted : (fileStore cfg key background).AllSteps
      (fun st input => OwnIds cfg st input ∧ Detects cfg st input) FileState.empty
      (inputs ++ .request (.append record expected operationId) native ::
        (later ++ [.request (.append record expected' operationId) native'])))
    (nonnegative : 0 ≤ expected')
    (answered : ((fileStore cfg key background).step
        ((fileStore cfg key background).final FileState.empty inputs)
        (.request (.append record expected operationId) native)).1 = some (.ok (.receipt receipt))) :
    let before := (fileStore cfg key background).final FileState.empty
      (inputs ++ .request (.append record expected operationId) native :: later)
    let after := (fileStore cfg key background).step before
      (.request (.append record expected' operationId) native')
    after.1 = some (.ok (.receipt receipt)) ∧ after.2.journal = before.journal := by
  obtain ⟨early, ⟨own, detects⟩, rest⟩ := Machine.allSteps_append.mp admitted
  obtain ⟨between, ⟨own', detects'⟩, _⟩ := Machine.allSteps_append.mp rest
  have step : ∀ (st : FileState H R) (input : FileInput H R), DistinctRun cfg st →
      OwnIds cfg st input ∧ Detects cfg st input →
        True ∧ DistinctRun cfg ((fileStore cfg key background).step st input).2 :=
    fun _ _ run conditions => ⟨trivial, (run.step key background conditions.1 conditions.2).2⟩
  have start : DistinctRun cfg (FileState.empty : FileState H R) :=
    ⟨HeadsTrue.empty, by rintro journal ⟨⟩⟩
  have first := (Machine.AllSteps.of_invariant step start early).2
  obtain ⟨position, stored, journal, rfl, present, here, digests⟩ :=
    first.receipt background native own (Option.some.inj answered)
  obtain rfl : stored = record := identifies digests
  have stays : ∀ (st : FileState H R) (input : FileInput H R),
      (DistinctRun cfg st ∧ ∃ journal, st.journal = some journal ∧ journal.records[position]? = some stored) →
      OwnIds cfg st input ∧ Detects cfg st input →
        True ∧ DistinctRun cfg ((fileStore cfg key background).step st input).2 ∧
          ∃ journal, ((fileStore cfg key background).step st input).2.journal = some journal ∧
            journal.records[position]? = some stored := by
    rintro st input ⟨run, journal, present, here⟩ conditions
    obtain ⟨journal', present', grown⟩ := run.grows key background conditions.1 present
    obtain ⟨more, appended⟩ := grown
    refine ⟨trivial, (step st input run conditions).2, journal', present', ?_⟩
    rw [← appended]
    exact List.getElem?_append_left (List.getElem?_eq_some_iff.mp here).1 ▸ here
  obtain ⟨run, journal', present', here'⟩ := (Machine.AllSteps.of_invariant stays
    ⟨(step _ _ first ⟨own, detects⟩).2, journal, present, here⟩ between).2
  obtain ⟨same, receipt | differs⟩ := DuplicateRefused.append run background native' present' own'
    (detects' journal' present') nonnegative position stored here' own'
  · rw [Machine.final_append]
    exact ⟨receipt.1, same.trans present'.symm⟩
  · exact absurd rfl differs.1

end

/-- A name appended again behind another name and a restart. -/
theorem append_retried_names :
    let before := (fileStore namesConfig namesKey false).final FileState.empty
      [.request (.create "header" [] "create") namesNative, .request (.append "a" 0 "a") namesNative,
        .restart]
    ((fileStore namesConfig namesKey false).step before (.request (.append "a" 7 "a") namesNative)).1 =
      some (.ok (.receipt ⟨1, some "a"⟩)) := by
  refine (append_retried namesConfig Function.injective_id namesKey false
    [.request (.create "header" [] "create") namesNative] [.restart] "a" "a" 0 7 namesNative namesNative
    ⟨1, some "a"⟩ ⟨⟨fun _ => by decide, trivial⟩, ⟨by rfl, ?_⟩, ⟨trivial, trivial⟩, ⟨by rfl, ?_⟩, trivial⟩
    (by decide) rfl).1
  · rintro journal ⟨⟩ _ member
    exact absurd member List.not_mem_nil
  · rintro journal ⟨⟩ _ _
    exact Or.inr ⟨namesHead.operationFilter, by rfl⟩

end Loushang.Conversation
