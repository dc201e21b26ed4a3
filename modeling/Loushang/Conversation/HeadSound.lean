import Loushang.Conversation.FileStore

/-!
# What a store head knows about its journal

`HeadFor` is the invariant behind the fast paths of `stores/file.py:740-1091`:
the filter is the one obtained by adding every stable id in order, the recent
records are the last identified ones, and an entry marked unique has no earlier
occurrence. It says nothing about false positives; the unique flag of an evicted
or repeated entry may well be weaker than the journal would allow.
-/
namespace Loushang.Conversation
open Loushang.Lib

section

variable {R : Type} (cfg : StoreConfig R)

/-! ## The identified records of a journal -/

def stableIds (records : List R) : List String := records.filterMap cfg.stableId

/-- Revision, id and digest of every record with a stable id, after `base` others. -/
def stableEntries : Nat → List R → List (Nat × String × String)
  | _, [] => []
  | base, record :: rest =>
    match cfg.stableId record with
    | none => stableEntries (base + 1) rest
    | some id => (base + 1, id, cfg.recordDigest record) :: stableEntries (base + 1) rest

variable {cfg}

variable {record : R} {id : String}

theorem stableId_eq_some :
    cfg.stableId record = some id ↔ cfg.projectedId record = some id ∧ isBlank id.toList = false := by
  simp [StoreConfig.stableId, Option.filter_eq_some_iff]

variable {records : List R}

theorem mem_stableIds : id ∈ stableIds cfg records ↔ ∃ record ∈ records, cfg.stableId record = some id :=
  List.mem_filterMap

theorem stableIds_append (front back : List R) :
    stableIds cfg (front ++ back) = stableIds cfg front ++ stableIds cfg back :=
  List.filterMap_append

theorem stableEntries_append (base : Nat) (front back : List R) :
    stableEntries cfg base (front ++ back) =
      stableEntries cfg base front ++ stableEntries cfg (base + front.length) back := by
  induction front generalizing base with
  | nil => rfl
  | cons record rest ih =>
    have shifted : base + (record :: rest).length = base + 1 + rest.length := by
      simp only [List.length_cons]
      omega
    simp only [List.cons_append, stableEntries, ih, shifted]
    cases cfg.stableId record <;> rfl

theorem map_stableEntries (base : Nat) (records : List R) :
    (stableEntries cfg base records).map (fun entry => entry.2.1) = stableIds cfg records := by
  induction records generalizing base with
  | nil => rfl
  | cons record rest ih =>
    simp only [stableEntries, stableIds, List.filterMap_cons]
    cases cfg.stableId record with
    | none => exact ih (base + 1)
    | some id => simp only [List.map_cons, ih (base + 1), stableIds]

variable {revision : Nat}

theorem mem_stableEntries {base : Nat} {digest : String} :
    (revision, id, digest) ∈ stableEntries cfg base records ↔
      ∃ index record, records[index]? = some record ∧ revision = base + index + 1 ∧
        cfg.stableId record = some id ∧ digest = cfg.recordDigest record := by
  induction records generalizing base with
  | nil => simp [stableEntries]
  | cons record rest ih =>
    have later : (∃ index present, rest[index]? = some present ∧ revision = base + 1 + index + 1 ∧
        cfg.stableId present = some id ∧ digest = cfg.recordDigest present) ↔
        ∃ index present, (record :: rest)[index + 1]? = some present ∧
          revision = base + (index + 1) + 1 ∧ cfg.stableId present = some id ∧
          digest = cfg.recordDigest present := by
      constructor
      all_goals
        rintro ⟨index, present, found, rfl, rest⟩
        exact ⟨index, present, found, by omega, rest⟩
    rw [Nat.or_exists_add_one.symm, ← later, ← ih]
    simp only [stableEntries]
    cases h : cfg.stableId record <;> simp [h, eq_comm]

theorem lt_of_mem_stableEntries {base : Nat} {entry : Nat × String × String}
    (member : entry ∈ stableEntries cfg base records) : base < entry.1 := by
  obtain ⟨index, _, _, position, _⟩ := mem_stableEntries.mp member
  omega

/-- Revisions ascend, so that a suffix of the entries is the latest of them. -/
theorem stableEntries_ascending (cfg : StoreConfig R) (base : Nat) (records : List R) :
    (stableEntries cfg base records).Pairwise fun earlier later => earlier.1 < later.1 := by
  induction records generalizing base with
  | nil => exact List.Pairwise.nil
  | cons record rest ih =>
    simp only [stableEntries]
    cases cfg.stableId record with
    | none => exact ih (base + 1)
    | some id => exact List.pairwise_cons.mpr ⟨fun _ member => lt_of_mem_stableEntries member, ih _⟩

/-! ## The invariant -/

variable (cfg)

def RecentRecord.entry (item : RecentRecord) : Nat × String × String :=
  (item.revision, item.recordId, item.digest)

/-- `filter` and `recent` describe `records`. -/
structure HeadParts (records : List R) (operationFilter : OperationFilter)
    (recent : List RecentRecord) : Prop where
  filterBuilt : cfg.filterSet.addAll [] (stableIds cfg records) = some operationFilter
  recentLatest : recent.map RecentRecord.entry <:+ stableEntries cfg 0 records
  uniqueFirst : ∀ item ∈ recent, item.unique = true →
    ∀ entry ∈ stableEntries cfg 0 records, entry.2.1 = item.recordId → item.revision ≤ entry.1

structure HeadFor (records : List R) (head : StoreHead) : Prop where
  revision : head.revision = records.length
  parts : HeadParts cfg records head.operationFilter head.recentRecords

variable {cfg}

variable {α : Type}

theorem lastItems_suffix (limit : Nat) (items : List α) : lastItems limit items <:+ items :=
  List.drop_suffix _ _

variable {operationFilter : OperationFilter} {recent : List RecentRecord}

/-- Forgetting old entries of the window keeps the invariant. -/
theorem HeadParts.of_suffix {window : List RecentRecord}
    (parts : HeadParts cfg records operationFilter recent) (shorter : window <:+ recent) :
    HeadParts cfg records operationFilter window where
  filterBuilt := parts.filterBuilt
  recentLatest := (shorter.map RecentRecord.entry).trans parts.recentLatest
  uniqueFirst item member := parts.uniqueFirst item (shorter.subset member)

/-- One advanced record without a stable id. -/
theorem HeadParts.snoc_unidentified (parts : HeadParts cfg records operationFilter recent)
    (unidentified : cfg.stableId record = none) :
    HeadParts cfg (records ++ [record]) operationFilter recent := by
  have entries : stableEntries cfg 0 (records ++ [record]) = stableEntries cfg 0 records := by
    simp [stableEntries_append, stableEntries, unidentified]
  have ids : stableIds cfg (records ++ [record]) = stableIds cfg records := by
    simp [stableIds, unidentified]
  exact ⟨ids ▸ parts.filterBuilt, entries ▸ parts.recentLatest, entries ▸ parts.uniqueFirst⟩

/-- One advanced record with a stable id: what the filter did not report has no
earlier occurrence. -/
theorem HeadParts.snoc_identified {grown : OperationFilter}
    (parts : HeadParts cfg records operationFilter recent) (identified : cfg.stableId record = some id)
    (added : cfg.filterSet.add operationFilter id = some grown) :
    HeadParts cfg (records ++ [record]) grown
      (recent ++ [⟨records.length + 1, id, cfg.recordDigest record,
        !cfg.filterSet.mightContain operationFilter id⟩]) := by
  have entries : stableEntries cfg 0 (records ++ [record]) =
      stableEntries cfg 0 records ++ [(records.length + 1, id, cfg.recordDigest record)] := by
    simp [stableEntries_append, stableEntries, identified]
  refine ⟨?_, ?_, ?_⟩
  · have ids : stableIds cfg (records ++ [record]) = stableIds cfg records ++ [id] := by
      simp [stableIds, identified]
    rw [ids, LossySet.addAll_append, parts.filterBuilt]
    simp [LossySet.addAll_cons, added]
  · rw [entries, List.map_append]
    exact List.suffix_append_inj_of_length_eq rfl |>.mpr ⟨parts.recentLatest, rfl⟩
  · intro item member unique entry present same
    rw [entries] at present
    rcases List.mem_append.mp member with old | new
    · rcases List.mem_append.mp present with before | last
      · exact parts.uniqueFirst item old unique entry before same
      · have bounded := List.mem_map_of_mem (f := RecentRecord.entry) old
        obtain ⟨index, _, found, position, _⟩ := mem_stableEntries.mp (parts.recentLatest.subset bounded)
        obtain ⟨inside, _⟩ := List.getElem?_eq_some_iff.mp found
        rw [List.mem_singleton.mp last]
        omega
    · have new := List.mem_singleton.mp new
      subst new
      rcases List.mem_append.mp present with before | last
      · have absent := cfg.filterSet.not_mem_of_not_mightContain parts.filterBuilt
          (a := id) (by simpa using unique)
        rw [← map_stableEntries 0] at absent
        exact absurd (List.mem_map.mpr ⟨entry, before, same⟩) absent
      · rw [List.mem_singleton.mp last]

/-! ## Advancing -/

/-- What `_advance_store_head` is given for one appended record. -/
def StoreConfig.headEntry (cfg : StoreConfig R) (record : R) : Option String × Option String :=
  (cfg.projectedId record, (cfg.projectedId record).map fun _ => cfg.recordDigest record)

variable {appended : List R}

theorem advanceRecords_sound {after : Nat × OperationFilter × List RecentRecord}
    (success : advanceRecords cfg (appended.map cfg.headEntry) (revision, operationFilter, recent) =
      .ok after) (before : HeadParts cfg records operationFilter recent) (current : revision = records.length) :
    after.1 = (records ++ appended).length ∧
      HeadParts cfg (records ++ appended) after.2.1 after.2.2 := by
  induction appended generalizing records revision operationFilter recent with
  | nil =>
    cases success
    simpa using ⟨current, before⟩
  | cons record rest ih =>
    subst current
    rw [List.append_cons]
    simp only [List.map_cons, StoreConfig.headEntry, advanceRecords] at success
    split at success
    · next unidentified =>
      exact ih success (before.snoc_unidentified unidentified) (by simp)
    · next id identified =>
      rw [(stableId_eq_some.mp identified).1] at success
      simp only [Option.map_some] at success
      split at success
      · cases success
      · next grown added =>
        exact ih success (before.snoc_identified identified added) (by simp)

variable {head : StoreHead}

/-- `_advance_store_head` keeps the head true of the grown journal. -/
theorem advanceStoreHead_sound {advanced : StoreHead}
    (success : advanceStoreHead cfg head (appended.map cfg.headEntry) = .ok advanced)
    (before : HeadFor cfg records head) : HeadFor cfg (records ++ appended) advanced := by
  unfold advanceStoreHead at success
  cases h : advanceRecords cfg (appended.map cfg.headEntry)
      (head.revision, head.operationFilter, head.recentRecords) with
  | error detail =>
    rw [h] at success
    cases success
  | ok after =>
    rw [h] at success
    cases success
    obtain ⟨revision, parts⟩ := advanceRecords_sound h before.parts before.revision
    exact ⟨revision, parts.of_suffix (lastItems_suffix _ _)⟩

/-! ## Building -/

/-- Every id the scan saw twice is marked, every other id is not. -/
theorem scanRecords_spec {recentStart index : Nat} {scan after : HeadScan}
    (success : scanRecords cfg recentStart index records scan = some after) :
    cfg.filterSet.addAll scan.operationFilter (stableIds cfg records) = some after.operationFilter ∧
      after.recentRecords = scan.recentRecords ++
        (stableEntries cfg index records).filter (fun entry => recentStart < entry.1) ∧
      ∀ id, id ∉ after.duplicateRecordIds →
        id ∉ scan.duplicateRecordIds ∧ (stableIds cfg records).count id ≤ 1 ∧
          (id ∈ scan.seenRecordIds → id ∉ stableIds cfg records) := by
  induction records generalizing index scan with
  | nil =>
    cases success
    simp [stableIds, stableEntries]
  | cons record rest ih =>
    unfold scanRecords at success
    cases identified : cfg.stableId record with
    | none =>
      rw [identified] at success
      have ids : stableIds cfg (record :: rest) = stableIds cfg rest := by
        simp [stableIds, identified]
      simp only [stableEntries, identified, ids]
      exact ih success
    | some id =>
      rw [identified] at success
      obtain ⟨grown, added, success⟩ := Option.bind_eq_some_iff.mp success
      obtain ⟨filters, recents, duplicates⟩ := ih success
      have ids : stableIds cfg (record :: rest) = id :: stableIds cfg rest := by
        simp [stableIds, identified]
      refine ⟨?_, ?_, ?_⟩
      · rw [ids, LossySet.addAll_cons, added]
        exact filters
      · rw [recents]
        simp only [stableEntries, identified, List.filter_cons, Nat.lt_succ_iff, decide_eq_true_eq]
        split <;> simp
      · intro other unmarked
        obtain ⟨fresh, single, seen⟩ := duplicates other unmarked
        rw [ids]
        by_cases same : id = other
        · subst same
          have once : id ∉ scan.seenRecordIds := by
            intro already
            simp [already] at fresh
          simp only [once, if_false, List.mem_cons, true_or, forall_const] at seen fresh
          simp [fresh, once, List.count_eq_zero.mpr seen]
        · have kept : other ∉ scan.duplicateRecordIds := by
            intro already
            apply fresh
            split <;> simp [already]
          refine ⟨kept, by simpa [List.count_cons, same] using single, ?_⟩
          intro already
          have later := seen (by split <;> simp [already])
          simp [later, Ne.symm same]

variable {items : List α}

theorem eq_of_count_map_le_one {β : Type} [DecidableEq β] {f : α → β} {x y : α}
    (single : (items.map f).count (f x) ≤ 1) (first : x ∈ items) (second : y ∈ items) (same : f y = f x) :
    x = y := by
  induction items with
  | nil => cases first
  | cons item rest ih =>
    have absent : ∀ z ∈ rest, f item = f x → f z ≠ f x := by
      intro z member here there
      simp only [List.map_cons, List.count_cons, here, beq_self_eq_true, if_true] at single
      have positive : 0 < (rest.map f).count (f x) :=
        List.count_pos_iff.mpr (there ▸ List.mem_map_of_mem member)
      omega
    rcases List.mem_cons.mp first with rfl | firstLater <;>
      rcases List.mem_cons.mp second with rfl | secondLater
    · rfl
    · exact absurd same (absent y secondLater rfl)
    · exact absurd rfl (absent x firstLater same)
    · refine ih (le_trans ?_ single) firstLater secondLater
      simp [List.count_cons]

theorem filter_suffix_of_pairwise {p : α → Bool}
    (upward : items.Pairwise fun earlier later => p earlier = true → p later = true) :
    items.filter p <:+ items := by
  induction items with
  | nil => exact List.suffix_rfl
  | cons item rest ih =>
    obtain ⟨here, later⟩ := List.pairwise_cons.mp upward
    cases h : p item with
    | true =>
      have whole : (item :: rest).filter p = item :: rest := by
        refine List.filter_eq_self.mpr ?_
        exact List.forall_mem_cons.mpr ⟨h, fun x deeper => here x deeper h⟩
      exact (congrArg (· <:+ item :: rest) whole).mpr List.suffix_rfl
    | false =>
      rw [List.filter_cons_of_neg (by simp [h])]
      exact (ih later).trans (List.suffix_cons item rest)

variable {token : String}

/-- `_build_store_head` is true of the records it replayed. -/
theorem buildStoreHead_sound {identity : JournalIdentity}
    (success : buildStoreHead cfg token identity records = some head) : HeadFor cfg records head := by
  obtain ⟨scan, scanned, rfl⟩ := Option.map_eq_some_iff.mp success
  obtain ⟨filters, recents, duplicates⟩ := scanRecords_spec scanned
  have latest : lastItems recentRecordLimit scan.recentRecords <:+ stableEntries cfg 0 records := by
    refine (lastItems_suffix _ _).trans ?_
    rw [recents]
    refine filter_suffix_of_pairwise ((stableEntries_ascending cfg 0 records).imp ?_)
    intro earlier later ascending
    simp only [decide_eq_true_eq]
    omega
  refine ⟨rfl, filters, ?_, ?_⟩
  · simpa [List.map_map, Function.comp_def, RecentRecord.entry] using latest
  · intro item member unique entry present same
    obtain ⟨source, inWindow, rfl⟩ := List.mem_map.mp member
    obtain ⟨_, single, _⟩ := duplicates source.2.1 (by simpa using unique)
    rw [← map_stableEntries 0] at single
    have equal : source = entry :=
      eq_of_count_map_le_one (f := fun entry : Nat × String × String => entry.2.1) single
        (latest.subset inWindow) present same
    rw [equal]

/-- The heads a store can come to use for a journal holding `records`. -/
inductive HeadReachable (cfg : StoreConfig R) (token : String) : List R → StoreHead → Prop where
  | built {records : List R} {identity : JournalIdentity} {head : StoreHead}
      (success : buildStoreHead cfg token identity records = some head) :
      HeadReachable cfg token records head
  | advanced {records appended : List R} {head head' : StoreHead}
      (before : HeadReachable cfg token records head)
      (success : advanceStoreHead cfg head (appended.map cfg.headEntry) = .ok head') :
      HeadReachable cfg token (records ++ appended) head'
  | refreshed {records : List R} {head : StoreHead} (identity : JournalIdentity)
      (before : HeadReachable cfg token records head) :
      HeadReachable cfg token records { head with identity := identity }
  | sidecar {records : List R} {head head' : StoreHead} {document : HeadDocument}
      (before : HeadReachable cfg token records head)
      (encoded : encodeStoreHead cfg head = some document)
      (decoded : decodeStoreHead cfg document token = some head') :
      HeadReachable cfg token records head'

theorem HeadReachable.headFor (reachable : HeadReachable cfg token records head) :
    HeadFor cfg records head := by
  induction reachable with
  | built success => exact buildStoreHead_sound success
  | advanced before success ih => exact advanceStoreHead_sound success ih
  | refreshed identity before ih => exact ⟨ih.revision, ih.parts⟩
  | sidecar before encoded decoded ih => exact decode_encodeStoreHead encoded decoded ▸ ih

/-- One unique window entry with the record's digest pins the only occurrence. -/
theorem recentRevision_sound {digest : Option String} (valid : HeadFor cfg records head)
    (found : recentRevision head id digest = some revision) :
    ∃ d, digest = some d ∧ (revision, id, d) ∈ stableEntries cfg 0 records ∧
      ∀ entry ∈ stableEntries cfg 0 records, entry.2.1 = id → entry = (revision, id, d) := by
  unfold recentRevision at found
  split at found
  · next item matching =>
    split at found
    · next agrees =>
      cases found
      have chosen : item ∈ head.recentRecords ∧ item.recordId = id := by
        have member : item ∈ head.recentRecords.filter fun item => item.recordId = id := by
          simp [matching]
        simpa using List.mem_filter.mp member
      obtain ⟨member, rfl⟩ := chosen
      obtain ⟨front, split⟩ := valid.parts.recentLatest
      refine ⟨item.digest, agrees.2.symm, ?_, ?_⟩
      · exact valid.parts.recentLatest.subset (List.mem_map_of_mem (f := RecentRecord.entry) member)
      · intro entry present same
        have notEarlier := valid.parts.uniqueFirst item member agrees.1 entry present same
        have ascending := stableEntries_ascending cfg 0 records
        rw [← split] at present ascending
        rcases List.mem_append.mp present with before | inWindow
        · have earlier := (List.pairwise_append.mp ascending).2.2 entry before item.entry
            (List.mem_map_of_mem member)
          simp only [RecentRecord.entry] at earlier
          omega
        · obtain ⟨other, otherMember, rfl⟩ := List.mem_map.mp inWindow
          have filtered : other ∈ head.recentRecords.filter
              fun candidate => candidate.recordId = item.recordId :=
            List.mem_filter.mpr ⟨otherMember, by simpa [RecentRecord.entry] using same⟩
          rw [matching] at filtered
          rw [List.mem_singleton.mp filtered]
          rfl
    · cases found
  · cases found

end

end Loushang.Conversation
