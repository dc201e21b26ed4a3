import Loushang.Conversation.Decisions

/-!
# Runs of the file store

What every reachable state of `FileStore` satisfies: a head the store remembers
(cached, queued or on disk) never claims a longer journal than there is, and is
true of the journal whenever its size still is the journal's. Since an append
always grows the file, a stale head is recognised by its size alone; timestamps,
lost sidecars and restarts play no part.
-/
namespace Loushang.Conversation
open Loushang.Lib

section

variable {H R : Type} {cfg : StoreConfig R}

/-! ## Remembered heads -/

def HeadTrue (cfg : StoreConfig R) (journal : JournalFile H R) (head : StoreHead) : Prop :=
  head.identity.size ≤ journal.identity.size ∧
    (head.identity.size = journal.identity.size → HeadFor cfg journal.records head)

/-- The heads a state could hand out, whatever the stats say. -/
inductive Remembered (cfg : StoreConfig R) (st : FileState H R) : StoreHead → Prop where
  | cached {entry : CachedStoreHead} (present : st.headCache = some entry) :
      Remembered cfg st entry.head
  | queued {head : StoreHead} (present : st.queuedHead = some head) : Remembered cfg st head
  | sidecar {metadata : StoreMetadata} {document : HeadDocument} {token : String} {head : StoreHead}
      (present : st.metadata = some metadata) (stored : metadata.head = some document)
      (decoded : decodeStoreHead cfg document token = some head) : Remembered cfg st head

def HeadsTrue (cfg : StoreConfig R) (st : FileState H R) : Prop :=
  ∀ head, Remembered cfg st head →
    ∃ journal, st.journal = some journal ∧ HeadTrue cfg journal head

theorem HeadsTrue.empty : HeadsTrue cfg (FileState.empty : FileState H R) := by
  intro head remembered
  cases remembered with
  | cached present => cases present
  | queued present => cases present
  | sidecar present => cases present

variable {st : FileState H R} {journal : JournalFile H R}

/-- A head the append path consults is true of the journal it consults it for. -/
theorem HeadsTrue.usable (heads : HeadsTrue cfg st) (present : st.journal = some journal) :
    UsableHead cfg journal.records (headForAppend cfg st journal.identity) := by
  have current : ∀ head, Remembered cfg st head → head.identity = journal.identity →
      HeadFor cfg journal.records head := by
    intro head remembered same
    obtain ⟨journal', present', true⟩ := heads head remembered
    obtain rfl := Option.some.inj (present.symm.trans present')
    exact true.2 (by rw [same])
  have loaded : ∀ token head, tryLoadStoreHead cfg st token journal.identity = some head →
      HeadFor cfg journal.records head := by
    intro token head found
    obtain ⟨read, same⟩ := Option.filter_eq_some_iff.mp found
    obtain ⟨document, stored, decoded⟩ := Option.bind_eq_some_iff.mp read
    obtain ⟨metadata, kept, inside⟩ := Option.bind_eq_some_iff.mp stored
    exact current head (.sidecar kept inside decoded) (by simpa using same)
  intro head found
  unfold headForAppend at found
  split at found
  · cases found
  · next token enabled =>
    refine ⟨by simp [enabled], ?_⟩
    split at found
    · exact loaded token head found
    · next entry cached =>
      split at found
      · next matches_ =>
        cases found
        exact current _ (.cached cached) matches_.2
      · exact loaded token head found

/-! ## Effects on remembered heads -/

variable {native : Native} {written head : StoreHead}

theorem remembered_tryWriteStoreHead
    (remembered : Remembered cfg (tryWriteStoreHead cfg native st written) head) :
    Remembered cfg st head ∨ head = written := by
  unfold tryWriteStoreHead at remembered
  split at remembered
  · next identity document written' encoded =>
    cases remembered with
    | cached present => exact Or.inl (.cached present)
    | queued present => exact Or.inl (.queued present)
    | sidecar present stored decoded =>
      cases present
      cases stored
      exact Or.inr (decode_encodeStoreHead encoded decoded)
  · exact Or.inl remembered

theorem remembered_rememberHead {kept : StoreHead}
    (remembered : Remembered cfg (rememberHead native st kept) head) :
    Remembered cfg st head ∨ head = kept := by
  cases remembered with
  | cached present =>
    unfold rememberHead at present
    split at present
    · cases present
      exact Or.inr rfl
    · cases present
  | queued present => exact Or.inl (.queued present)
  | sidecar present stored decoded => exact Or.inl (.sidecar present stored decoded)

@[simp] theorem loadCreateOperation_tryWriteStoreHead (native : Native) (st : FileState H R)
    (written : StoreHead) :
    loadCreateOperation (tryWriteStoreHead cfg native st written) = loadCreateOperation st := by
  unfold tryWriteStoreHead
  split <;> rfl

@[simp] theorem loadCreateOperation_rememberHead (native : Native) (st : FileState H R)
    (kept : StoreHead) : loadCreateOperation (rememberHead native st kept) = loadCreateOperation st :=
  rfl

theorem loadCreateOperation_commitRecords (background : Bool) (native : Native) (st : FileState H R)
    (journal : JournalFile H R) (appended : List R) (advanced : Option StoreHead) :
    loadCreateOperation (commitRecords cfg background native st journal appended advanced) =
      loadCreateOperation st := by
  unfold commitRecords
  cases advanced with
  | none => rfl
  | some head =>
    cases background with
    | true => rfl
    | false =>
      simp only [Bool.false_eq_true, if_false, loadCreateOperation_rememberHead,
        loadCreateOperation_tryWriteStoreHead]
      rfl

variable {appended : List R}

/-- Every appended line makes the file longer. -/
theorem size_lt_appendToJournal (cfg : StoreConfig R) (native : Native) (journal : JournalFile H R)
    (nonempty : appended ≠ []) :
    journal.identity.size < (appendToJournal cfg native journal appended).identity.size := by
  cases appended with
  | nil => exact absurd rfl nonempty
  | cons record rest =>
    simp only [appendToJournal, List.map_cons, List.sum_cons]
    omega

theorem HeadsTrue.tryWriteStoreHead (heads : HeadsTrue cfg st) (present : st.journal = some journal)
    (valid : HeadFor cfg journal.records written) (current : written.identity = journal.identity) :
    HeadsTrue cfg (tryWriteStoreHead cfg native st written) := by
  intro head remembered
  rw [tryWriteStoreHead_journal]
  rcases remembered_tryWriteStoreHead remembered with old | rfl
  · exact heads head old
  · exact ⟨journal, present, by rw [current], fun _ => valid⟩

/-- After a commit every older head is too short, and the new one is true. -/
theorem HeadsTrue.commitRecords {background : Bool} {advanced : Option StoreHead} (heads : HeadsTrue cfg st)
    (present : st.journal = some journal) (nonempty : appended ≠ [])
    (valid : ∀ found, advanced = some found → HeadFor cfg (journal.records ++ appended) found) :
    HeadsTrue cfg (commitRecords cfg background native st journal appended advanced) := by
  have grows := size_lt_appendToJournal cfg native journal nonempty
  intro head remembered
  rw [commitRecords_journal]
  refine ⟨_, rfl, ?_⟩
  have old : ∀ earlier, Remembered cfg st earlier →
      HeadTrue cfg (appendToJournal cfg native journal appended) earlier := by
    intro earlier before
    obtain ⟨journal', present', true⟩ := heads earlier before
    obtain rfl := Option.some.inj (present.symm.trans present')
    have bounded := true.1
    exact ⟨by omega, fun same => by omega⟩
  have relabel : ∀ earlier,
      Remembered cfg { st with journal := some (appendToJournal cfg native journal appended) } earlier →
        Remembered cfg st earlier := by
    intro earlier before
    cases before with
    | cached kept => exact .cached kept
    | queued kept => exact .queued kept
    | sidecar kept stored decoded => exact .sidecar kept stored decoded
  unfold Loushang.Conversation.commitRecords at remembered
  cases advanced with
  | none => exact old head (relabel head remembered)
  | some found =>
    have new : HeadTrue cfg (appendToJournal cfg native journal appended)
        { found with identity := (appendToJournal cfg native journal appended).identity } :=
      ⟨le_refl _, fun _ => ⟨(valid found rfl).revision, (valid found rfl).parts⟩⟩
    cases background with
    | true =>
      rcases remembered_rememberHead remembered with before | rfl
      · cases before with
        | cached kept => exact old _ (.cached kept)
        | queued kept =>
          cases kept
          exact new
        | sidecar kept stored decoded => exact old _ (.sidecar kept stored decoded)
      · exact new
    | false =>
      rcases remembered_rememberHead remembered with before | rfl
      · rcases remembered_tryWriteStoreHead before with earlier | rfl
        · exact old _ (relabel _ earlier)
        · exact new
      · exact new

theorem HeadsTrue.writeHeadIfCurrent (heads : HeadsTrue cfg st) :
    HeadsTrue cfg (writeHeadIfCurrent cfg native st) := by
  have dequeued : ∀ head, Remembered cfg { st with queuedHead := none } head → Remembered cfg st head := by
    intro head remembered
    cases remembered with
    | cached kept => exact .cached kept
    | queued kept => cases kept
    | sidecar kept stored decoded => exact .sidecar kept stored decoded
  unfold Loushang.Conversation.writeHeadIfCurrent
  split
  · next written journal queued present =>
    split
    · next current =>
      intro head remembered
      rw [rememberHead_journal, tryWriteStoreHead_journal]
      rcases remembered_rememberHead remembered with before | rfl
      · rcases remembered_tryWriteStoreHead before with earlier | rfl
        · exact heads head (dequeued head earlier)
        · exact heads head (.queued queued)
      · exact heads head (.queued queued)
    · exact fun head remembered => heads head (dequeued head remembered)
  · exact fun head remembered => heads head (dequeued head remembered)

/-! ## Operations keep the heads true -/

variable [DecidableEq R]

theorem createSync_journal [DecidableEq H] (cfg : StoreConfig R) (key : ConversationKey)
    (native : Native) (st : FileState H R) (header : H) (records : List R) (operationId : String) :
    (createSync cfg key native st header records operationId).2.journal = st.journal ∨
      (st.journal = none ∧ (createSync cfg key native st header records operationId).2.journal =
        some ⟨header, records, native.created⟩) := by
  unfold createSync
  split
  · exact Or.inl rfl
  · split
    · split
      · exact Or.inl rfl
      · split <;> exact Or.inl rfl
    · next vacant =>
      refine Or.inr ⟨vacant, ?_⟩
      split <;> rfl

theorem HeadsTrue.createSync [DecidableEq H] {key : ConversationKey} {header : H} {records : List R}
    {operationId : String} (heads : HeadsTrue cfg st) :
    HeadsTrue cfg (createSync cfg key native st header records operationId).2 := by
  unfold Loushang.Conversation.createSync
  split
  · exact heads
  · split
    · split
      · exact heads
      · split <;> exact heads
    · next vacant =>
      -- nothing was remembered before there was a journal
      have nothing : ∀ head, ¬ Remembered cfg st head := by
        intro head remembered
        obtain ⟨journal, present, _⟩ := heads head remembered
        rw [vacant] at present
        cases present
      split
      · next operation _ _ rebuilt identity rebuilds _ =>
        intro head remembered
        refine ⟨_, rfl, ?_⟩
        cases remembered with
        | cached present => exact absurd (.cached present) (nothing _)
        | queued present => exact absurd (.queued present) (nothing _)
        | sidecar present stored decoded =>
          cases present
          obtain ⟨built, kept, encoded⟩ := Option.bind_eq_some_iff.mp stored
          obtain rfl := decode_encodeStoreHead encoded decoded
          obtain ⟨usable, identities⟩ := rebuildHead_spec rebuilds
          exact ⟨by rw [identities _ kept], fun _ => (usable _ kept).2⟩
      · intro head remembered
        cases remembered with
        | cached present => exact absurd (.cached present) (nothing _)
        | queued present => exact absurd (.queued present) (nothing _)
        | sidecar present stored decoded => exact absurd (.sidecar present stored decoded) (nothing _)

section Requests

variable (background : Bool) (native : Native) (expectedRevision : Int) {st : FileState H R}
  {journal : JournalFile H R} {operationId : String} {record stored : R}

/-- An append of a new id either grows the journal by its record or changes nothing. -/
theorem appendSync_new (heads : HeadsTrue cfg st) (present : st.journal = some journal)
    (identified : cfg.stableId record = some operationId)
    (absent : operationId ∉ stableIds cfg journal.records) :
    HeadsTrue cfg (appendSync cfg background native st record expectedRevision operationId).2 ∧
      ((appendSync cfg background native st record expectedRevision operationId).2.journal =
          some journal ∨
        (appendSync cfg background native st record expectedRevision operationId).2.journal =
          some (appendToJournal cfg native journal [record])) := by
  obtain ⟨requested, text⟩ := stableId_eq_some.mp identified
  unfold appendSync
  rw [requireOperationId_eq_ok.mpr ⟨text, rfl⟩, present]
  cases requireRevision "expected revision" expectedRevision with
  | error error => exact ⟨heads, Or.inl present⟩
  | ok expected =>
    simp only
    have outcome : NewAppend cfg journal.records record expected operationId
        (decideAppend cfg (headForAppend cfg st journal.identity) journal.identity journal.records
          record expected operationId) :=
      decideAppend_new (heads.usable present) text requested (absent_of_not_mem text absent)
    generalize decideAppend cfg (headForAppend cfg st journal.identity) journal.identity
      journal.records record expected operationId = decision at outcome ⊢
    cases outcome with
    | committed current advanced valid =>
      exact ⟨heads.commitRecords present (by simp) valid, Or.inr (commitRecords_journal ..)⟩
    | stale differs => exact ⟨heads, Or.inl present⟩
    | full overflow => exact ⟨heads, Or.inl present⟩

/-- The answer to an append of a new id, where the filter has room. -/
theorem appendSync_new_answer (heads : HeadsTrue cfg st) (present : st.journal = some journal)
    (identified : cfg.stableId record = some operationId)
    (absent : operationId ∉ stableIds cfg journal.records) {expected : Nat}
    (revision : expectedRevision = expected)
    (fits : HeadFits cfg journal.records ∧
      (journal.records.length = expected → HeadFits cfg (journal.records ++ [record]))) :
    let after := appendSync cfg background native st record expectedRevision operationId
    (journal.records.length = expected ∧
        after.1 = .ok (.receipt ⟨journal.records.length + 1, some operationId⟩) ∧
        after.2.journal = some (appendToJournal cfg native journal [record])) ∨
      (journal.records.length ≠ expected ∧
        after.1 = .error (.atRevision journal.records.length expected) ∧
        after.2.journal = some journal) := by
  obtain ⟨requested, text⟩ := stableId_eq_some.mp identified
  unfold appendSync
  rw [requireOperationId_eq_ok.mpr ⟨text, rfl⟩, present, requireRevision_eq_ok.mpr revision]
  simp only
  have outcome : NewAppend cfg journal.records record expected operationId
      (decideAppend cfg (headForAppend cfg st journal.identity) journal.identity journal.records
        record expected operationId) :=
    decideAppend_new (heads.usable present) text requested (absent_of_not_mem text absent)
  generalize decideAppend cfg (headForAppend cfg st journal.identity) journal.identity
    journal.records record expected operationId = decision at outcome ⊢
  cases outcome with
  | committed current advanced valid =>
    exact Or.inl ⟨current, rfl, commitRecords_journal ..⟩
  | stale differs => exact Or.inr ⟨differs, rfl, present⟩
  | full overflow => exact absurd fits overflow

/-- An append of a known id changes nothing. It is refused, or answered with the
revision of the record that has the id. -/
theorem appendSync_known (heads : HeadsTrue cfg st) (present : st.journal = some journal)
    (identified : cfg.stableId record = some operationId) {position : Nat}
    (sole : Sole cfg journal.records operationId position stored) :
    let after := appendSync cfg background native st record expectedRevision operationId
    HeadsTrue cfg after.2 ∧ after.2.journal = some journal ∧
      (0 ≤ expectedRevision → (stored = record → HeadFits cfg journal.records) →
        (after.1 = .ok (.receipt ⟨position + 1, some operationId⟩) ∧
            cfg.recordDigest stored = cfg.recordDigest record) ∨
          (stored ≠ record ∧ after.1 = .error (.operationReusedForAppend operationId))) := by
  obtain ⟨requested, text⟩ := stableId_eq_some.mp identified
  unfold appendSync
  rw [requireOperationId_eq_ok.mpr ⟨text, rfl⟩, present]
  cases revision : requireRevision "expected revision" expectedRevision with
  | error error =>
    refine ⟨heads, present, ?_⟩
    intro nonnegative
    simp [requireRevision, Int.not_lt.mpr nonnegative] at revision
  | ok expected =>
    simp only
    have outcome : KnownAppend cfg journal.identity journal.records record stored position operationId
        (decideAppend cfg (headForAppend cfg st journal.identity) journal.identity journal.records
          record expected operationId) :=
      decideAppend_known (heads.usable present) text requested sole
    generalize decideAppend cfg (headForAppend cfg st journal.identity) journal.identity
      journal.records record expected operationId = decision at outcome ⊢
    cases outcome with
    | replayed digests rebuilt valid =>
      cases rebuilt with
      | none => exact ⟨heads, present, fun _ _ => Or.inl ⟨rfl, digests⟩⟩
      | some head =>
        obtain ⟨sound, current⟩ := valid head rfl
        exact ⟨heads.tryWriteStoreHead present sound current,
          (tryWriteStoreHead_journal native st head).trans present,
          fun _ _ => Or.inl ⟨rfl, digests⟩⟩
    | reused differs => exact ⟨heads, present, fun _ _ => Or.inr ⟨differs, rfl⟩⟩
    | full same overflow => exact ⟨heads, present, fun _ fits => absurd (fits same) overflow⟩

/-- A batch either changes nothing or appends the records past the matched ones. -/
theorem appendBatchSync_grows (records : List R) (operationIds : List String)
    (heads : HeadsTrue cfg st) (present : st.journal = some journal) :
    let after := appendBatchSync cfg background native st records expectedRevision operationIds
    HeadsTrue cfg after.2 ∧
      (after.2.journal = some journal ∨
        ∃ expected matched decision, expectedRevision = (expected : Nat) ∧
          checkBatchRequest cfg records operationIds = .ok () ∧ matched < records.length ∧
          BatchAnswered cfg journal.identity journal.records records operationIds expected matched
            decision ∧
          after.2.journal = some (appendToJournal cfg native journal (records.drop matched))) := by
  unfold appendBatchSync
  rw [present]
  cases checked : checkBatchRequest cfg records operationIds with
  | error error => exact ⟨heads, Or.inl present⟩
  | ok checks =>
    cases revision : requireRevision "expected revision" expectedRevision with
    | error error => exact ⟨heads, Or.inl present⟩
    | ok expected =>
      simp only
      cases decided : decideBatch cfg (headForAppend cfg st journal.identity) journal.identity
          journal.records records operationIds expected with
      | error error => exact ⟨heads, Or.inl present⟩
      | ok decision =>
        obtain ⟨matched, answered⟩ := decideBatch_ok (heads.usable present)
          (checkBatchRequest_aligned checked) decided
        simp only
        split
        · next nothing =>
          cases written : decision.head with
          | none => exact ⟨heads, Or.inl present⟩
          | some head =>
            obtain ⟨sound, current⟩ := answered.heads head written
            rw [nothing, List.append_nil] at sound
            exact ⟨heads.tryWriteStoreHead present sound (current nothing),
              Or.inl ((tryWriteStoreHead_journal native st head).trans present)⟩
        · next something =>
          refine ⟨heads.commitRecords present something fun found kept =>
            (answered.heads found kept).1, Or.inr ⟨expected, matched, decision,
              requireRevision_eq_ok.mp revision, trivial, ?_, answered, ?_⟩⟩
          · by_contra all
            exact something (answered.appended.trans (List.drop_eq_nil_of_le (by omega)))
          · rw [commitRecords_journal, answered.appended]

end Requests

/-- Appends leave the recorded create operation alone. -/
theorem loadCreateOperation_appendSync (cfg : StoreConfig R) (background : Bool) (native : Native)
    (st : FileState H R) (record : R) (expectedRevision : Int) (operationId : String) :
    loadCreateOperation (appendSync cfg background native st record expectedRevision operationId).2 =
      loadCreateOperation st := by
  unfold appendSync
  split
  · rfl
  · rfl
  · rfl
  · split
    · rfl
    · rfl
    · exact loadCreateOperation_tryWriteStoreHead ..
    · exact loadCreateOperation_commitRecords ..

theorem loadCreateOperation_appendBatchSync (cfg : StoreConfig R) (background : Bool)
    (native : Native) (st : FileState H R) (records : List R) (expectedRevision : Int)
    (operationIds : List String) :
    loadCreateOperation
        (appendBatchSync cfg background native st records expectedRevision operationIds).2 =
      loadCreateOperation st := by
  unfold appendBatchSync
  split
  · rfl
  · rfl
  · rfl
  · split
    · rfl
    · split
      · split
        · rfl
        · exact loadCreateOperation_tryWriteStoreHead ..
      · exact loadCreateOperation_commitRecords ..


end

end Loushang.Conversation
