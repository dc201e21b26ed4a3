import Loushang.Transcript.Partition
import Loushang.Lib.Raises
import Loushang.Lib.Lists

/-!
# Runs of compactions

Planner and replay find the latest checkpoint's boundary on their own. It is the same position, it
never moves back, and the visible records before it are exactly the ones handed to summaries.
-/
namespace Loushang.Transcript
open Loushang.Lib

/-- The ids of the visible records, in path order. -/
def visibleIds (records : List TranscriptRecord) : List String :=
  (records.filter TranscriptRecord.isVisible).map TranscriptRecord.recordId

theorem visibleIds_append (front back : List TranscriptRecord) :
    visibleIds (front ++ back) = visibleIds front ++ visibleIds back := by
  simp [visibleIds]

def ids (records : List TranscriptRecord) : List String := records.map TranscriptRecord.recordId

/-- The id a checkpoint keeps the path from. -/
def TranscriptRecord.keptFrom? (record : TranscriptRecord) : Option String :=
  record.previousSummary?.map PreviousSummary.firstKeptRecordId

theorem latest_previousSummary (records : List TranscriptRecord) :
    latest TranscriptRecord.keptFrom? records =
      (latest TranscriptRecord.previousSummary? records).map fun found =>
        (found.1, found.2.firstKeptRecordId) :=
  latest_map _ _ _

theorem latest_checkpoint (records : List TranscriptRecord) :
    latest TranscriptRecord.keptFrom? records =
      (latest TranscriptRecord.checkpoint? records).map fun found => (found.1, found.2.firstKeptRecordId) := by
  rw [← latest_map]
  congr 1
  funext record
  unfold TranscriptRecord.keptFrom? TranscriptRecord.previousSummary? TranscriptRecord.checkpoint?
  cases record.payload with
  | compactionCheckpoint firstKept summary => rfl
  | agentMessage message => rfl
  | commandExecution shown exclude => rfl
  | branchSummary summary => rfl
  | applicationMessage text => rfl
  | inert => rfl

theorem keptFrom?_of_not_checkpoint {record : TranscriptRecord} (plain : record.isCheckpoint = false) :
    record.keptFrom? = none := by
  unfold TranscriptRecord.isCheckpoint TranscriptRecord.checkpoint? at plain
  unfold TranscriptRecord.keptFrom? TranscriptRecord.previousSummary?
  split at plain
  · cases plain
  · rfl

/-- Up to `start` the visible records were handed over; from there on they are kept. -/
structure Held (t : ActivePath) (start : Nat) : Prop where
  distinct : (ids t.path).Nodup
  named : ∀ record ∈ t.path, isBlankText record.recordId = false
  inside : start ≤ t.path.length
  handed : t.handed.flatten = visibleIds (t.path.take start)
  boundary : match latest TranscriptRecord.keptFrom? t.path with
    | none => start = 0
    | some (index, firstKept) => (ids t.path)[start]? = some firstKept ∧ start < index
  head : latest TranscriptRecord.keptFrom? t.path ≠ none →
    ∃ record, ((t.path.drop start).filter TranscriptRecord.isVisible).head? = some record ∧
      record.role ≠ some "toolResult"

theorem held_empty : Held .empty 0 where
  distinct := List.nodup_nil
  named := fun _ member => by cases member
  inside := Nat.le_refl _
  handed := rfl
  boundary := rfl
  head := fun absent => absurd rfl absent

/-! ## The boundary -/

theorem idxOf?_of_getElem? {names : List String} (distinct : names.Nodup) {index : Nat} {name : String}
    (isAt : names[index]? = some name) : names.idxOf? name = some index := by
  obtain ⟨inside, isName⟩ := List.getElem?_eq_some_iff.mp isAt
  refine List.idxOf?_eq_some_iff.mpr ⟨inside, isName, fun other before same => ?_⟩
  have twice := (List.Nodup.getElem_inj_iff distinct).mp (same.trans isName.symm)
  omega

section

variable {tokens : TokenEstimates} {t : ActivePath} {start : Nat}

/-- The planner starts where the previous compaction stopped. -/
theorem Held.previousSummaryBoundary (held : Held t start) :
    ∃ previous, Transcript.previousSummaryBoundary (recordPorts tokens) turnAwareOptions t.path (ids t.path) =
      .ok (previous, start) := by
  unfold Transcript.previousSummaryBoundary
  have boundary := held.boundary
  rw [latest_previousSummary] at boundary
  have isPort : (recordPorts tokens).previousSummary = some TranscriptRecord.previousSummary? := rfl
  rw [isPort]
  dsimp only
  cases found : latest TranscriptRecord.previousSummary? t.path with
  | none =>
    rw [found] at boundary
    exact ⟨none, by rw [show start = 0 from boundary]⟩
  | some latest =>
    obtain ⟨index, summary⟩ := latest
    rw [found] at boundary
    obtain ⟨isAt, before⟩ := boundary
    have located : ((ids t.path).take index).idxOf? summary.firstKeptRecordId = some start := by
      apply idxOf?_of_getElem? ((List.take_sublist _ _).nodup held.distinct)
      rw [List.getElem?_take_of_lt before]
      exact isAt
    dsimp only
    rw [located]
    exact ⟨_, rfl⟩

/-! ## Replay -/

theorem projectItems_ids (records : List TranscriptRecord) :
    (projectItems replayPorts records).map Prod.snd = visibleIds records := by
  induction records with
  | nil => rfl
  | cons record rest ih =>
    unfold projectItems visibleIds at ih ⊢
    have isPort : replayPorts.projectVisibleItem record = record.contextItem? := rfl
    cases shown : record.contextItem? with
    | none =>
      rw [List.filterMap_cons_none (by rw [isPort, shown]; rfl), ih,
        List.filter_cons_of_neg (by simp [TranscriptRecord.isVisible, shown])]
    | some item =>
      rw [List.filterMap_cons_some (b := (item, record.recordId)) (by rw [isPort, shown]; rfl),
        List.filter_cons_of_pos (by simp [TranscriptRecord.isVisible, shown]), List.map_cons, List.map_cons, ih]

theorem projectItems_items (records : List TranscriptRecord) :
    (projectItems replayPorts records).map Prod.fst = records.filterMap TranscriptRecord.contextItem? := by
  induction records with
  | nil => rfl
  | cons record rest ih =>
    unfold projectItems at ih ⊢
    have isPort : replayPorts.projectVisibleItem record = record.contextItem? := rfl
    cases shown : record.contextItem? with
    | none =>
      rw [List.filterMap_cons_none (by rw [isPort, shown]; rfl), ih, List.filterMap_cons_none shown]
    | some item =>
      rw [List.filterMap_cons_some (b := (item, record.recordId)) (by rw [isPort, shown]; rfl),
        List.filterMap_cons_some shown, List.map_cons, ih]

/-- The checkpoint a replay starts with: its id and its summary as an item. -/
def latestSummary (t : ActivePath) : Option (String × ContextItem) :=
  (latest TranscriptRecord.checkpoint? t.path).map fun found => ((ids t.path).getD found.1 "", found.2.summaryItem)

/-- Replay starts where the latest compaction stopped. -/
theorem Held.replayProjection (held : Held t start) :
    Transcript.replayProjection t.path =
      .ok ⟨((latestSummary t).map Prod.snd).toList ++ (t.path.drop start).filterMap TranscriptRecord.contextItem?,
        (), ((latestSummary t).map Prod.fst).toList ++ visibleIds (t.path.drop start)⟩ := by
  have isIds : replayIds replayPorts t.path = .ok (ids t.path) := by
    unfold replayIds
    have blank : (t.path.map replayPorts.recordId).any isBlankText = false := by
      rw [List.any_eq_false]
      intro id member
      obtain ⟨record, listed, rfl⟩ := List.mem_map.mp member
      rw [Bool.not_eq_true]
      exact held.named record listed
    have distinct : (t.path.map replayPorts.recordId).Nodup := held.distinct
    simp only [blank, Bool.false_eq_true, if_false, distinct, not_true_eq_false]
    rfl
  have boundary := held.boundary
  rw [latest_checkpoint] at boundary
  unfold Transcript.replayProjection replay
  rw [isIds]
  simp only [Bind.bind, Except.bind]
  have isPort : (replayPorts.resolveCheckpoint.bind fun resolve => latest resolve t.path) =
      latest TranscriptRecord.checkpoint? t.path := rfl
  rw [isPort]
  unfold latestSummary
  cases found : latest TranscriptRecord.checkpoint? t.path with
  | none =>
    rw [found] at boundary
    have isStart : start = 0 := boundary
    simp [isStart, projectItems_ids, projectItems_items]
  | some latest =>
    obtain ⟨index, checkpoint⟩ := latest
    rw [found] at boundary
    obtain ⟨isAt, before⟩ := boundary
    have located := idxOf?_of_getElem? held.distinct isAt
    dsimp only
    rw [located]
    dsimp only
    rw [if_pos before]
    obtain ⟨record, isRecord, resolved⟩ := latest_lt found
    have hidden : record.contextItem? = none := by
      unfold TranscriptRecord.checkpoint? at resolved
      unfold TranscriptRecord.contextItem?
      split at resolved
      · rename_i isPayload
        rw [isPayload]
      · cases resolved
    -- the checkpoint itself shows nothing
    have parts : t.path.drop start =
        (t.path.take index).drop start ++ record :: t.path.drop (index + 1) := by
      have atIndex : t.path.drop index = record :: t.path.drop (index + 1) := by
        obtain ⟨inside, isRecord⟩ := List.getElem?_eq_some_iff.mp isRecord
        rw [List.drop_eq_getElem_cons inside, isRecord]
      rw [← atIndex, List.drop_take]
      have later : t.path.drop index = (t.path.drop start).drop (index - start) := by
        rw [List.drop_drop]
        congr 1
        omega
      rw [later, List.take_append_drop]
    have shown : projectItems replayPorts ((t.path.take index).drop start) ++
        projectItems replayPorts (t.path.drop (index + 1)) = projectItems replayPorts (t.path.drop start) := by
      rw [parts]
      unfold projectItems
      rw [List.filterMap_append, List.filterMap_cons_none]
      have isShown : replayPorts.projectVisibleItem record = record.contextItem? := rfl
      rw [isShown, hidden]
      rfl
    rw [shown, projectItems_ids, projectItems_items]
    rfl

/-! ## Steps -/

theorem ids_append (front : List TranscriptRecord) (record : TranscriptRecord) :
    ids (front ++ [record]) = ids front ++ [record.recordId] := by
  simp [ids]

variable {record : TranscriptRecord}

theorem ActivePath.admits_iff :
    t.admits record = true ↔ isBlankText record.recordId = false ∧ record.recordId ∉ ids t.path := by
  unfold ActivePath.admits ids
  rw [Bool.and_eq_true, Bool.not_eq_true', decide_eq_true_eq]

theorem Held.distinct_append (held : Held t start) (admitted : t.admits record = true) :
    (ids (t.path ++ [record])).Nodup ∧ ∀ other ∈ t.path ++ [record], isBlankText other.recordId = false := by
  obtain ⟨named, new⟩ := ActivePath.admits_iff.mp admitted
  constructor
  · rw [ids_append]
    refine nodup_snoc held.distinct ?_
    intro known
    exact new known
  · exact forall_mem_snoc held.named named

/-- An append leaves the boundary where it is. -/
theorem Held.append (held : Held t start) {record : TranscriptRecord} (admitted : t.admits record = true)
    (plain : record.isCheckpoint = false) : Held { t with path := t.path ++ [record] } start := by
  obtain ⟨distinct, named⟩ := held.distinct_append admitted
  have sameLatest : latest TranscriptRecord.keptFrom? (t.path ++ [record]) =
      latest TranscriptRecord.keptFrom? t.path := by
    rw [latest_append, keptFrom?_of_not_checkpoint plain]
  refine ⟨distinct, named, ?_, ?_, ?_, ?_⟩
  · show start ≤ (t.path ++ [record]).length
    rw [List.length_append]
    have inside := held.inside
    omega
  · show t.handed.flatten = visibleIds ((t.path ++ [record]).take start)
    rw [List.take_append_of_le_length held.inside]
    exact held.handed
  · show match latest TranscriptRecord.keptFrom? (t.path ++ [record]) with
      | none => start = 0
      | some (index, firstKept) => (ids (t.path ++ [record]))[start]? = some firstKept ∧ start < index
    rw [sameLatest]
    have boundary := held.boundary
    split at boundary
    · exact boundary
    · refine ⟨?_, boundary.2⟩
      rw [ids_append, List.getElem?_append_left (List.getElem?_eq_some_iff.mp boundary.1).1]
      exact boundary.1
  · intro some
    rw [sameLatest] at some
    obtain ⟨first, isHead, isRole⟩ := held.head some
    refine ⟨first, ?_, isRole⟩
    show ((((t.path ++ [record]).drop start).filter TranscriptRecord.isVisible).head?) = _
    rw [List.drop_append_of_le_length held.inside, List.filter_append, List.head?_append, isHead]
    rfl

variable {records : List TranscriptRecord}

theorem filter_id_eq (distinct : (ids records).Nodup) (member : record ∈ records) :
    (records.filter fun entry => entry.recordId = record.recordId) = [record] := by
  induction records with
  | nil => cases member
  | cons first rest ih =>
    obtain ⟨new, others⟩ := List.nodup_cons.mp distinct
    rcases List.mem_cons.mp member with rfl | later
    · rw [List.filter_cons_of_pos (by simp), List.filter_eq_nil_iff.mpr]
      intro entry listed
      rw [decide_eq_true_eq]
      intro same
      exact new (same ▸ List.mem_map_of_mem listed)
    · rw [List.filter_cons_of_neg, ih others later]
      rw [decide_eq_true_eq]
      intro same
      exact new (same ▸ List.mem_map_of_mem later)

theorem filterMap_filter_visible (records : List TranscriptRecord) :
    (records.filter TranscriptRecord.isVisible).filterMap TranscriptRecord.contextItem? =
      records.filterMap TranscriptRecord.contextItem? := by
  induction records with
  | nil => rfl
  | cons record rest ih =>
    cases shown : record.contextItem? with
    | none =>
      rw [List.filter_cons_of_neg (by simp [TranscriptRecord.isVisible, shown]), ih,
        List.filterMap_cons_none shown]
    | some item =>
      rw [List.filter_cons_of_pos (by simp [TranscriptRecord.isVisible, shown]),
        List.filterMap_cons_some shown, List.filterMap_cons_some shown, ih]

/-- The messages behind the ids of visible records are their context items. -/
theorem messagesOf_visibleIds {chosen : List TranscriptRecord} (distinct : (ids records).Nodup)
    (among : ∀ record ∈ chosen, record ∈ records) :
    messagesOf records (visibleIds chosen) = chosen.filterMap TranscriptRecord.contextItem? := by
  rw [← filterMap_filter_visible]
  have among : ∀ record ∈ chosen.filter TranscriptRecord.isVisible, record ∈ records :=
    fun record member => among record (List.mem_filter.mp member).1
  unfold messagesOf visibleIds
  generalize chosen.filter TranscriptRecord.isVisible = visible at among ⊢
  induction visible with
  | nil => rfl
  | cons record rest ih =>
    rw [List.map_cons, List.flatMap_cons, ih fun other member => among other (List.mem_cons_of_mem _ member),
      filter_id_eq distinct (among record List.mem_cons_self)]
    cases shown : record.contextItem? with
    | none => simp [shown]
    | some item => simp [shown]

theorem role_of_head
    (allowed : isNonCut turnAwareOptions record.role = false ∨ record.separatesCutGroup = false) :
    record.role ≠ some "toolResult" := by
  intro isRole
  rcases allowed with cut | passed
  · rw [isRole] at cut
    cases cut
  · unfold TranscriptRecord.role at isRole
    unfold TranscriptRecord.separatesCutGroup at passed
    split at passed
    · cases passed
    · cases passed
    · rename_i notMessage notCheckpoint
      split at isRole
      · rename_i isMessage
        exact notMessage _ isMessage
      · exact absurd (Option.some.inj isRole) (by decide)
      · exact absurd (Option.some.inj isRole) (by decide)
      · exact absurd (Option.some.inj isRole) (by decide)
      · cases isRole
      · cases isRole

/-- What a committed compaction comes to. -/
theorem Held.compact (held : Held t start) {keepRecentTokens : Int} {preparation : CompactionPreparation}
    {checkpointId summary : String}
    (prepared : prepareTurnAwareCompaction tokens t.path keepRecentTokens = .ok preparation)
    (admitted : t.admits ⟨checkpointId, .compactionCheckpoint preparation.firstKeptEntryId summary⟩ = true) :
    ∃ first, Held ⟨t.path ++ [⟨checkpointId, .compactionCheckpoint preparation.firstKeptEntryId summary⟩],
        t.handed ++ [preparation.plan.summarizedEntryIds ++ preparation.plan.turnPrefixEntryIds]⟩ first ∧
      preparation.plan.keptEntryIds = visibleIds (t.path.drop first) ∧ first ≤ t.path.length ∧
      preparation.plan.summarizedEntryIds ++ preparation.plan.turnPrefixEntryIds =
        visibleIds ((t.path.take first).drop start) ∧
      preparation.messagesToSummarize ++ preparation.turnPrefixMessages =
        ((t.path.take first).drop start).filterMap TranscriptRecord.contextItem? := by
  obtain ⟨distinct, named⟩ := held.distinct_append admitted
  unfold prepareTurnAwareCompaction at prepared
  obtain ⟨entryPlan, planned, rfl⟩ := Except.map_ok_iff.mp prepared
  unfold planTurnAwareCompaction at planned
  obtain ⟨-, planned⟩ := raise_if_ok planned
  obtain ⟨-, planned⟩ := raise_else_ok planned
  obtain ⟨shared, made, rfl⟩ := Except.map_ok_iff.mp planned
  obtain ⟨start', first, isBoundary, parts⟩ := plan_ok made
  obtain ⟨previous, here⟩ := @Held.previousSummaryBoundary tokens t start held
  have sameStart : start' = start := by
    have same := isBoundary.symm.trans here
    exact (Prod.mk.inj (Except.ok.inj same)).2
  subst sameStart
  obtain ⟨kept, isKept, isFirst⟩ := parts.inside
  have inside := (List.getElem?_eq_some_iff.mp isKept).1
  have ordered := parts.ordered
  have handedIds : shared.summarizedRecordIds ++ shared.turnPrefixRecordIds =
      visibleIds ((t.path.take first).drop start') := parts.handedIds
  have shorter : t.path.take start' = (t.path.take first).take start' := by
    rw [List.take_take, Nat.min_eq_left ordered]
  refine ⟨first, ⟨distinct, named, ?_, ?_, ?_, ?_⟩, parts.keptIds, Nat.le_of_lt inside,
    handedIds, ?_⟩
  · show first ≤ (t.path ++ [_]).length
    rw [List.length_append]
    omega
  · show (t.handed ++ [shared.summarizedRecordIds ++ shared.turnPrefixRecordIds]).flatten =
      visibleIds ((t.path ++ [_]).take first)
    rw [List.take_append_of_le_length (Nat.le_of_lt inside), List.flatten_append, List.flatten_singleton,
      held.handed, handedIds, shorter, ← visibleIds_append, List.take_append_drop]
  · show match latest TranscriptRecord.keptFrom? (t.path ++ [_]) with
      | none => first = 0
      | some (index, firstKept) => (ids (t.path ++ [_]))[first]? = some firstKept ∧ first < index
    rw [latest_append]
    refine ⟨?_, inside⟩
    rw [ids_append, List.getElem?_append_left (by simpa [ids] using inside)]
    show (t.path.map TranscriptRecord.recordId)[first]? = some shared.firstKeptRecordId
    rw [List.getElem?_map, isKept, isFirst]
    rfl
  · intro _
    obtain ⟨record, isHead, allowed⟩ := parts.head
    refine ⟨record, ?_, role_of_head (allowed.imp_right fun free => free _ rfl)⟩
    show ((((t.path ++ [_]).drop first).filter TranscriptRecord.isVisible).head?) = _
    rw [List.drop_append_of_le_length (Nat.le_of_lt inside), List.filter_append, List.head?_append]
    have isHead : ((t.path.drop first).filter TranscriptRecord.isVisible).head? = some record := isHead
    rw [isHead]
    rfl
  · show messagesOf t.path shared.summarizedRecordIds ++ messagesOf t.path shared.turnPrefixRecordIds = _
    have split : ∀ front back, messagesOf t.path front ++ messagesOf t.path back =
        messagesOf t.path (front ++ back) := by
      intro front back
      simp [messagesOf]
    rw [split, handedIds]
    exact messagesOf_visibleIds held.distinct fun record member =>
      List.mem_of_mem_take (List.mem_of_mem_drop member)

/-- What a step comes to: a compaction hands one slice of the path over, and replay then shows its
summary and what it kept. -/
def Settles (tokens : TokenEstimates) (t : ActivePath) (input : TranscriptInput) : Prop :=
  match input, t.step tokens input with
  | .compact _ checkpointId summary, (some preparation, t') =>
    (∃ start first,
      preparation.plan.summarizedEntryIds ++ preparation.plan.turnPrefixEntryIds =
        visibleIds ((t.path.take first).drop start) ∧
      preparation.messagesToSummarize ++ preparation.turnPrefixMessages =
        ((t.path.take first).drop start).filterMap TranscriptRecord.contextItem?) ∧
    t'.handed = t.handed ++ [preparation.plan.summarizedEntryIds ++ preparation.plan.turnPrefixEntryIds] ∧
    replayProjection t'.path =
      .ok ⟨.told (compactionSummaryPrefix ++ summary ++ compactionSummarySuffix) ::
          messagesOf t.path preparation.plan.keptEntryIds,
        (), checkpointId :: preparation.plan.keptEntryIds⟩
  | _, (_, t') => t'.handed = t.handed

theorem Held.step (held : Held t start) (input : TranscriptInput) :
    Settles tokens t input ∧ ∃ start, Held (t.step tokens input).2 start := by
  cases input with
  | append record =>
    unfold Settles ActivePath.step
    dsimp only
    by_cases admitted : (t.admits record && !record.isCheckpoint) = true
    · rw [if_pos admitted]
      rw [Bool.and_eq_true, Bool.not_eq_true'] at admitted
      exact ⟨rfl, start, held.append admitted.1 admitted.2⟩
    · rw [if_neg admitted]
      exact ⟨rfl, start, held⟩
  | compact keepRecentTokens checkpointId summary =>
    unfold Settles ActivePath.step
    dsimp only
    cases prepared : prepareTurnAwareCompaction tokens t.path keepRecentTokens with
    | error fault => exact ⟨rfl, start, held⟩
    | ok preparation =>
      dsimp only
      by_cases admitted :
          t.admits ⟨checkpointId, .compactionCheckpoint preparation.firstKeptEntryId summary⟩ = true
      · rw [if_pos admitted]
        obtain ⟨first, next, isKept, inside, handed, messages⟩ := @Held.compact tokens t start held _ _ checkpointId summary prepared admitted
        refine ⟨⟨⟨start, first, handed, messages⟩, rfl, ?_⟩, first, next⟩
        rw [next.replayProjection]
        have isLatest : latestSummary ⟨t.path ++
            [⟨checkpointId, .compactionCheckpoint preparation.firstKeptEntryId summary⟩],
            t.handed ++ [preparation.plan.summarizedEntryIds ++ preparation.plan.turnPrefixEntryIds]⟩ =
            some (checkpointId, .told (compactionSummaryPrefix ++ summary ++ compactionSummarySuffix)) := by
          unfold latestSummary
          rw [latest_append]
          simp [TranscriptRecord.checkpoint?, ids]
        rw [isLatest]
        rw [List.drop_append_of_le_length inside, visibleIds_append, ← isKept, List.filterMap_append, isKept,
          messagesOf_visibleIds held.distinct fun record member => List.mem_of_mem_drop member]
        simp [visibleIds, TranscriptRecord.isVisible, TranscriptRecord.contextItem?]
      · rw [if_neg admitted]
        exact ⟨rfl, start, held⟩

/-- Ids handed over lie before the boundary, ids kept after it. -/
theorem Held.apart (held : Held t start) {index : Nat} (isAt : t.path[index]? = some record) :
    (record.recordId ∈ visibleIds (t.path.take start) → index < start) ∧
      (record.recordId ∈ visibleIds (t.path.drop start) → start ≤ index) := by
  have split : (ids (t.path.take start) ++ ids (t.path.drop start)).Nodup := by
    have whole : ids (t.path.take start) ++ ids (t.path.drop start) = ids t.path := by
      unfold ids
      rw [← List.map_append, List.take_append_drop]
    rw [whole]
    exact held.distinct
  have twice := (List.nodup_append.mp split).2.2
  have known : ∀ {records id}, id ∈ visibleIds records → id ∈ ids records := by
    intro records id member
    obtain ⟨other, listed, same⟩ := List.mem_map.mp member
    exact List.mem_map.mpr ⟨other, (List.mem_filter.mp listed).1, same⟩
  constructor
  · intro member
    by_contra far
    have late : record ∈ t.path.drop start := by
      refine List.mem_of_getElem? (i := index - start) ?_
      rw [List.getElem?_drop, show start + (index - start) = index by omega]
      exact isAt
    exact twice _ (known member) _ (List.mem_map_of_mem late) rfl
  · intro member
    by_contra near
    have early : record ∈ t.path.take start := by
      refine List.mem_of_getElem? (i := index) ?_
      rw [List.getElem?_take_of_lt (by omega)]
      exact isAt
    exact twice _ (List.mem_map_of_mem early) _ (known member) rfl

/-- What is kept after a compaction does not start with a tool result. -/
theorem Held.between (held : Held t start) {front between back : List TranscriptRecord}
    {call result : TranscriptRecord} (isPath : t.path = front ++ call :: between ++ result :: back)
    (isResult : result.role = some "toolResult")
    (summarized : call.recordId ∈ t.handed.flatten)
    (kept : result.recordId ∈ visibleIds (t.path.drop start)) :
    ∃ record ∈ between, record.isVisible = true ∧ record.role ≠ some "toolResult" ∧
      record.recordId ∈ visibleIds (t.path.drop start) := by
  have isCall : t.path[front.length]? = some call := by
    rw [isPath]
    simp
  have isResultAt : t.path[front.length + 1 + between.length]? = some result := by
    rw [isPath, show front.length + 1 + between.length = (front ++ call :: between).length by
      simp only [List.length_append, List.length_cons]
      omega]
    rw [List.getElem?_append_right (Nat.le_refl _), Nat.sub_self]
    rfl
  rw [held.handed] at summarized
  have early := (held.apart isCall).1 summarized
  have late := (held.apart isResultAt).2 kept
  have compacted : latest TranscriptRecord.keptFrom? t.path ≠ none := by
    intro absent
    have boundary := held.boundary
    rw [absent] at boundary
    omega
  obtain ⟨first, isHead, isRole⟩ := held.head compacted
  have later : t.path.drop start = between.drop (start - (front.length + 1)) ++ result :: back := by
    have past : start = (front ++ [call]).length + (start - (front.length + 1)) := by
      rw [List.length_append, List.length_singleton]
      omega
    rw [isPath, show front ++ call :: between ++ result :: back =
      (front ++ [call]) ++ (between ++ result :: back) by simp, past, List.drop_length_add_append,
      List.drop_append_of_le_length (by omega)]
    congr 2
    rw [List.length_append, List.length_singleton]
    omega
  rw [later, List.filter_append] at isHead
  cases among : (between.drop (start - (front.length + 1))).filter TranscriptRecord.isVisible with
  | nil =>
    have shown : result.isVisible = true := by
      unfold TranscriptRecord.role at isResult
      unfold TranscriptRecord.isVisible TranscriptRecord.contextItem?
      split at isResult
      · rfl
      · exact absurd (Option.some.inj isResult) (by decide)
      · exact absurd (Option.some.inj isResult) (by decide)
      · exact absurd (Option.some.inj isResult) (by decide)
      · cases isResult
      · cases isResult
    rw [among, List.nil_append, List.filter_cons_of_pos shown] at isHead
    cases isHead
    exact absurd isResult isRole
  | cons record rest =>
    rw [among] at isHead
    cases isHead
    have member : first ∈ (between.drop (start - (front.length + 1))).filter TranscriptRecord.isVisible := by
      rw [among]
      exact List.mem_cons_self
    obtain ⟨dropped, shown⟩ := List.mem_filter.mp member
    refine ⟨first, List.mem_of_mem_drop dropped, shown, isRole, ?_⟩
    rw [later, visibleIds_append]
    exact List.mem_append_left _ (List.mem_map_of_mem member)

end

/-- After any appends and compactions, every visible record is either in what replay shows or was
handed to exactly one summary, in consecutive slices; right after a compaction replay shows its
summary and what it kept. A tool result outlives its call only behind a record that is no tool
result. -/
theorem compaction_runs (tokens : TokenEstimates) (inputs : List TranscriptInput) :
    let t := (compactedTranscript tokens).final .empty inputs
    (∃ first,
      visibleIds t.path = t.handed.flatten ++ visibleIds (t.path.drop first) ∧ (visibleIds t.path).Nodup ∧
      replayProjection t.path =
        .ok ⟨((latestSummary t).map Prod.snd).toList ++
            (t.path.drop first).filterMap TranscriptRecord.contextItem?,
          (), ((latestSummary t).map Prod.fst).toList ++ visibleIds (t.path.drop first)⟩ ∧
      ∀ front call between result back text callIds callId shown,
        t.path = front ++ call :: between ++ result :: back →
        call.payload = .agentMessage (.assistant text callIds) →
        result.payload = .agentMessage (.toolResult callId shown) → callId ∈ callIds →
        call.recordId ∈ t.handed.flatten → result.recordId ∈ visibleIds (t.path.drop first) →
        ∃ record ∈ between, record.isVisible = true ∧ record.role ≠ some "toolResult" ∧
          record.recordId ∈ visibleIds (t.path.drop first)) ∧
    (compactedTranscript tokens).AllSteps (Settles tokens) .empty inputs := by
  intro t
  obtain ⟨settled, start, held⟩ := @Machine.AllSteps.of_invariant _ _ _ (compactedTranscript tokens)
    (fun t => ∃ start, Held t start) (fun _ _ => True) (Settles tokens)
    (by
      rintro t input ⟨start, held⟩ -
      exact held.step input)
    _ _ ⟨0, held_empty⟩ (Machine.AllSteps.true _ _ inputs)
  refine ⟨⟨start, ?_, ?_, held.replayProjection, ?_⟩, settled⟩
  · rw [held.handed, ← visibleIds_append, List.take_append_drop]
  · exact (List.filter_sublist.map _).nodup held.distinct
  · intro front call between result back text callIds callId shown isPath _ isResult _ summarized kept
    refine held.between isPath ?_ summarized kept
    unfold TranscriptRecord.role
    rw [isResult]
    rfl

/-- Every record costs one token, whatever it shows. -/
def oneTokenEach : TokenEstimates := ⟨fun _ => 1, List.length⟩

/-- A command that ran while a tool call was pending. -/
def commandDuringCall : List TranscriptInput :=
  [.append ⟨"1", .agentMessage (.user "list the files")⟩,
    .append ⟨"2", .agentMessage (.assistant "" ["call"])⟩,
    .append ⟨"3", .commandExecution "pwd" false⟩,
    .append ⟨"4", .agentMessage (.toolResult "call" "a.txt")⟩,
    .compact 2 "5" "the user asked for the files"]

/-- The command is where the compaction cuts: the call is summarized and its result is kept. -/
theorem result_outlives_call :
    let t := (compactedTranscript oneTokenEach).final .empty commandDuringCall
    t.handed = [["1", "2"]] ∧
      (replayProjection t.path).map ReplayProjection.itemRecordIds = .ok ["5", "3", "4"] ∧
      ∃ call ∈ t.path, call.payload = .agentMessage (.assistant "" ["call"]) ∧ call.recordId = "2" ∧
        ∃ result ∈ t.path, result.payload = .agentMessage (.toolResult "call" "a.txt") ∧
          result.recordId = "4" := by
  decide

end Loushang.Transcript
