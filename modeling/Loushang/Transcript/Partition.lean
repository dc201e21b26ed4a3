import Loushang.Transcript.Compaction
import Loushang.Lib.Folds
import Loushang.Lib.Raises

/-!
# What a plan partitions

The records before the cut and the records from it on, in terms of positions in the path: the
facts are the visible records, and the cut is a position that no tool result is at.
-/
namespace Loushang.Transcript
open Loushang.Lib

/-! ## Scanning for the latest record -/

variable {R C : Type}

theorem latest_append (resolve : R → Option C) (records : List R) (record : R) :
    latest resolve (records ++ [record]) =
      match resolve record with
      | some found => some (records.length, found)
      | none => latest resolve records := by
  unfold latest
  rw [List.zipIdx_append, List.reverse_append]
  cases found : resolve record with
  | none => simp [found]
  | some value => simp [found]

theorem latest_map {D : Type} (resolve : R → Option C) (f : C → D) (records : List R) :
    latest (fun record => (resolve record).map f) records =
      (latest resolve records).map fun found => (found.1, f found.2) := by
  induction records using List.reverseRecOn with
  | nil => rfl
  | append_singleton earlier record ih =>
    rw [latest_append, latest_append, ih]
    cases resolve record with
    | none => rfl
    | some found => rfl

theorem latest_lt {resolve : R → Option C} {records : List R} {index : Nat} {found : C}
    (isLatest : latest resolve records = some (index, found)) :
    ∃ record, records[index]? = some record ∧ resolve record = some found := by
  induction records using List.reverseRecOn with
  | nil => cases isLatest
  | append_singleton earlier record ih =>
    rw [latest_append] at isLatest
    split at isLatest
    · rename_i value resolved
      cases isLatest
      exact ⟨record, by simp, resolved⟩
    · obtain ⟨other, isAt, resolved⟩ := ih isLatest
      refine ⟨other, ?_, resolved⟩
      rw [List.getElem?_append_left (List.getElem?_eq_some_iff.mp isAt).1]
      exact isAt

/-! ## The facts -/

section

variable {R S : Type} {ports : RecordPorts R S} {options : PlannerOptions}

variable {index : Nat} {facts : List (RecordFact R)}

theorem recordFacts_cons {record : R} {rest : List R}
    (made : recordFacts ports (record :: rest) index = .ok facts) :
    ports.isVisible record = true ∧ (∃ later, recordFacts ports rest (index + 1) = .ok later ∧
        facts = ⟨record, ports.recordId record, ports.role record, ports.estimateTokens record, index⟩ :: later) ∨
      ports.isVisible record = false ∧ recordFacts ports rest (index + 1) = .ok facts := by
  unfold recordFacts at made
  split at made
  · rename_i isVisible
    obtain ⟨-, made⟩ := raise_if_ok made
    obtain ⟨-, made⟩ := raise_if_ok made
    cases more : recordFacts ports rest (index + 1) with
    | error fault =>
      rw [more] at made
      cases made
    | ok later =>
      rw [more] at made
      cases made
      exact .inl ⟨isVisible, later, rfl, rfl⟩
  · rename_i isVisible
    exact .inr ⟨by simpa using isVisible, made⟩

variable {records : List R} {fact : RecordFact R}

/-- A fact is about the visible record at its source index. -/
theorem recordFacts_mem (made : recordFacts ports records index = .ok facts) (member : fact ∈ facts) :
    index ≤ fact.sourceIndex ∧ records[fact.sourceIndex - index]? = some fact.record ∧
      ports.isVisible fact.record = true ∧ fact.recordId = ports.recordId fact.record ∧
      fact.role = ports.role fact.record := by
  induction records generalizing index facts with
  | nil =>
    cases made
    cases member
  | cons record rest ih =>
    rcases recordFacts_cons made with ⟨isVisible, later, more, rfl⟩ | ⟨-, more⟩
    · rcases List.mem_cons.mp member with rfl | further
      · exact ⟨Nat.le_refl _, by simp, isVisible, rfl, rfl⟩
      · obtain ⟨low, isAt, rest⟩ := ih more further
        refine ⟨by omega, ?_, rest⟩
        rw [show fact.sourceIndex - index = fact.sourceIndex - (index + 1) + 1 by omega]
        simpa using isAt
    · obtain ⟨low, isAt, rest⟩ := ih more member
      refine ⟨by omega, ?_, rest⟩
      rw [show fact.sourceIndex - index = fact.sourceIndex - (index + 1) + 1 by omega]
      simpa using isAt

/-- The facts from a position on are the visible records from there on. -/
theorem recordFacts_kept (made : recordFacts ports records index = .ok facts) (first : Nat) :
    (facts.filter fun fact => first ≤ fact.sourceIndex).map RecordFact.record =
      (records.drop (first - index)).filter ports.isVisible := by
  induction records generalizing index facts with
  | nil =>
    cases made
    simp
  | cons record rest ih =>
    by_cases late : first ≤ index
    · have here : first - index = 0 := by omega
      have there : first - (index + 1) = 0 := by omega
      rcases recordFacts_cons made with ⟨isVisible, later, more, rfl⟩ | ⟨notVisible, more⟩
      · have ih := ih more
        rw [there, List.drop_zero] at ih
        rw [here, List.drop_zero, List.filter_cons_of_pos isVisible, ← ih]
        simp [late]
      · have ih := ih more
        rw [there] at ih
        rw [here, ih]
        simp [notVisible]
    · have here : first - index = first - (index + 1) + 1 := by omega
      rw [here, List.drop_succ_cons]
      rcases recordFacts_cons made with ⟨isVisible, later, more, rfl⟩ | ⟨notVisible, more⟩
      · rw [← ih more]
        simp [late]
      · rw [ih more]

/-- The facts before the first one from a position on are the visible records before it. -/
theorem recordFacts_before (made : recordFacts ports records index = .ok facts) (first : Nat) :
    (facts.take (facts.findIdx fun fact => first ≤ fact.sourceIndex)).map RecordFact.record =
      (records.take (first - index)).filter ports.isVisible := by
  induction records generalizing index facts with
  | nil =>
    cases made
    simp
  | cons record rest ih =>
    by_cases late : first ≤ index
    · have here : first - index = 0 := by omega
      have there : first - (index + 1) = 0 := by omega
      rcases recordFacts_cons made with ⟨isVisible, later, more, rfl⟩ | ⟨notVisible, more⟩
      · rw [here]
        simp [List.findIdx_cons, late]
      · have ih := ih more
        rw [there] at ih
        rw [here, ih]
        simp
    · have here : first - index = first - (index + 1) + 1 := by omega
      rw [here, List.take_succ_cons]
      rcases recordFacts_cons made with ⟨isVisible, later, more, rfl⟩ | ⟨notVisible, more⟩
      · rw [List.filter_cons_of_pos isVisible, ← ih more]
        simp [List.findIdx_cons, late]
      · rw [ih more]
        simp [notVisible]

/-! ## The cut -/

variable {keepRecentTokens : Nat}

theorem findCutIndex_ok {cut : Nat} (found : findCutIndex options facts keepRecentTokens = .ok cut) :
    ∃ fact, facts[cut]? = some fact ∧ isNonCut options fact.role = false := by
  have eligible : ∀ point, point ∈ (facts.zipIdx.filter fun entry => !isNonCut options entry.1.role).map Prod.snd →
      ∃ fact, facts[point]? = some fact ∧ isNonCut options fact.role = false := by
    intro point member
    obtain ⟨⟨fact, index⟩, listed, rfl⟩ := List.mem_map.mp member
    obtain ⟨isAt, allowed⟩ := List.mem_filter.mp listed
    exact ⟨fact, List.mem_zipIdx_iff_getElem?.mp isAt, by simpa using allowed⟩
  unfold findCutIndex at found
  split at found
  · cases found
  · rename_i first more points
    rw [points] at eligible
    split at found
    · cases found
      exact eligible _ List.mem_cons_self
    · rename_i scan _
      cases found
      cases reached : (first :: more).find? (scan ≤ ·) with
      | some point => exact eligible _ (List.mem_of_find?_eq_some reached)
      | none =>
        refine eligible _ ?_
        rw [Option.getD_none, List.getLastD_cons]
        exact List.getLastD_mem_cons

theorem expandOver_le (separates : R → Bool) (records : List R) :
    expandOver separates records ≤ records.length := by
  induction records with
  | nil => exact Nat.le_refl _
  | cons previous earlier ih =>
    unfold expandOver
    split
    · exact Nat.zero_le _
    · exact Nat.succ_le_succ ih

theorem expandOver_passes {separates : R → Bool} {offset : Nat} {record : R}
    (passed : offset < expandOver separates records) (isAt : records[offset]? = some record) :
    separates record = false := by
  induction records generalizing offset with
  | nil => cases isAt
  | cons previous earlier ih =>
    unfold expandOver at passed
    split at passed
    · cases passed
    · rename_i free
      cases offset with
      | zero =>
        cases isAt
        simpa using free
      | succ offset => exact ih (Nat.lt_of_succ_lt_succ passed) (by simpa using isAt)

/-- The records that go with the cut lie after the boundary and separate nothing. -/
theorem expandCutGroup_spec {records : List R} {start cut : Nat} (low : start ≤ cut)
    (within : cut ≤ records.length) :
    start ≤ expandCutGroup ports records start cut ∧ expandCutGroup ports records start cut ≤ cut ∧
      ∀ separates, ports.separatesCutGroup = some separates → ∀ index record,
        expandCutGroup ports records start cut ≤ index → index < cut → records[index]? = some record →
          separates record = false := by
  unfold expandCutGroup
  cases isPort : ports.separatesCutGroup with
  | none =>
    refine ⟨low, Nat.le_refl _, fun separates isNone => by cases isNone⟩
  | some separates =>
    have bound := expandOver_le separates ((records.take cut).drop start).reverse
    rw [List.length_reverse, List.length_drop, List.length_take] at bound
    refine ⟨?_, Nat.sub_le _ _, ?_⟩
    · dsimp only
      omega
    · intro other isOther index record high below isAt
      cases isOther
      dsimp only at high
      have passed : cut - 1 - index <
          expandOver separates ((records.take cut).drop start).reverse := by omega
      apply expandOver_passes passed
      rw [List.getElem?_reverse]
      · rw [List.getElem?_drop, List.getElem?_take_of_lt]
        · rw [← isAt]
          congr 1
          simp only [List.length_drop, List.length_take]
          omega
        · simp only [List.length_drop, List.length_take]
          omega
      · simp only [List.length_drop, List.length_take]
        omega

/-! ## The plan -/

/-- What a plan comes to, by positions: it keeps the visible records from `first` on and hands over
those from `start` to `first`. -/
structure Partitions (ports : RecordPorts R S) (options : PlannerOptions) (records : List R)
    (made : CompactionPlan R S) (start first : Nat) : Prop where
  ordered : start ≤ first
  inside : ∃ record, records[first]? = some record ∧ made.firstKeptRecordId = ports.recordId record
  handedIds : made.summarizedRecordIds ++ made.turnPrefixRecordIds =
    (((records.take first).drop start).filter ports.isVisible).map ports.recordId
  keptIds : made.keptRecordIds = ((records.drop first).filter ports.isVisible).map ports.recordId
  head : ∃ record, ((records.drop first).filter ports.isVisible).head? = some record ∧
    (isNonCut options (ports.role record) = false ∨
      ∀ separates, ports.separatesCutGroup = some separates → separates record = false)

theorem map_recordId {chosen : List (RecordFact R)} (made : recordFacts ports records index = .ok facts)
    (among : ∀ fact ∈ chosen, fact ∈ facts) :
    chosen.map RecordFact.recordId = (chosen.map RecordFact.record).map ports.recordId := by
  rw [List.map_map]
  exact List.map_congr_left fun fact member => (recordFacts_mem made (among fact member)).2.2.2.1

/-- The history and the turn prefix are the facts before the effective cut. -/
theorem take_history {facts : List (RecordFact R)} {cut historyEnd : Nat} {isSplit : Bool}
    (isEnd : historyEnd = if isSplit then (findTurnStartIndex options facts cut).getD cut else cut) :
    facts.take historyEnd ++ (if isSplit then (facts.take cut).drop historyEnd else []) = facts.take cut := by
  cases isSplit with
  | false => simp [isEnd]
  | true =>
    have low : historyEnd ≤ cut := by
      rw [isEnd, if_pos rfl]
      unfold findTurnStartIndex
      cases found : (facts.take (cut + 1)).zipIdx.reverse.find? fun entry => isTurnStart options entry.1.role with
      | none => exact Nat.le_refl _
      | some entry =>
        have member := List.mem_reverse.mp (List.mem_of_find?_eq_some found)
        have isAt := List.mem_zipIdx_iff_getElem?.mp member
        have inside := (List.getElem?_eq_some_iff.mp isAt).1
        rw [List.length_take] at inside
        show entry.2 ≤ cut
        omega
    have shorter : facts.take historyEnd = (facts.take cut).take historyEnd := by
      rw [List.take_take, Nat.min_eq_left low]
    rw [if_pos rfl, shorter, List.take_append_drop]

theorem planAround_partitions {previous : Option (SummaryBoundary S)} {start cut : Nat}
    (made : recordFacts ports (records.drop start) start = .ok facts) (isCut : facts[cut]? = some fact)
    (allowed : isNonCut options fact.role = false) :
    Partitions ports options records
      (planAround ports options records (records.map ports.recordId) previous start facts fact.sourceIndex
        keepRecentTokens) start (expandCutGroup ports records start fact.sourceIndex) := by
  obtain ⟨low, isAt, isVisible, -, isRole⟩ := recordFacts_mem made (List.mem_of_getElem? isCut)
  have isAt : records[fact.sourceIndex]? = some fact.record := by
    rw [← isAt, List.getElem?_drop]
    congr 1
    omega
  have within := (List.getElem?_eq_some_iff.mp isAt).1
  obtain ⟨above, below, free⟩ := @expandCutGroup_spec R S ports _ _ _ low (Nat.le_of_lt within)
  let first := expandCutGroup ports records start fact.sourceIndex
  have keptFacts := recordFacts_kept made first
  have beforeFacts := recordFacts_before made first
  have later : (records.drop start).drop (first - start) = records.drop first := by
    rw [List.drop_drop]
    congr 1
    omega
  have earlier : (records.drop start).take (first - start) = (records.take first).drop start := by
    rw [List.drop_take]
  rw [later] at keptFacts
  rw [earlier] at beforeFacts
  refine ⟨above, ?_, ?_, ?_, ?_⟩
  · have inside : first < records.length := by omega
    refine ⟨records[first], List.getElem?_eq_getElem inside, ?_⟩
    show (records.map ports.recordId).getD first "" = ports.recordId records[first]
    rw [List.getD_eq_getElem?_getD, List.getElem?_map, List.getElem?_eq_getElem inside]
    rfl
  · rw [← beforeFacts, ← map_recordId made fun _ member => List.mem_of_mem_take member,
      ← @take_history R options _ _ _ _ rfl, List.map_append]
    rfl
  · rw [← keptFacts, ← map_recordId made fun _ member => (List.mem_filter.mp member).1]
    rfl
  · -- the cut's own record is kept, and what is kept before it separates nothing
    have split : records.drop first = (records.drop first).take (fact.sourceIndex - first) ++
        fact.record :: records.drop (fact.sourceIndex + 1) := by
      have cutHere : (records.drop first).drop (fact.sourceIndex - first) =
          fact.record :: records.drop (fact.sourceIndex + 1) := by
        rw [List.drop_drop, show first + (fact.sourceIndex - first) = fact.sourceIndex by omega]
        rw [List.drop_eq_getElem_cons within, ← (List.getElem?_eq_some_iff.mp isAt).2]
      rw [← cutHere, List.take_append_drop]
    rw [split, List.filter_append, List.filter_cons_of_pos isVisible]
    cases passed : ((records.drop first).take (fact.sourceIndex - first)).filter ports.isVisible with
    | nil => exact ⟨fact.record, rfl, .inl (isRole ▸ allowed)⟩
    | cons record rest =>
      refine ⟨record, rfl, .inr fun separates isPort => ?_⟩
      have member : record ∈ (records.drop first).take (fact.sourceIndex - first) := by
        have among : record ∈ ((records.drop first).take (fact.sourceIndex - first)).filter ports.isVisible := by
          rw [passed]
          exact List.mem_cons_self
        exact (List.mem_filter.mp among).1
      obtain ⟨offset, isThere⟩ := List.mem_iff_getElem?.mp member
      have short := (List.getElem?_eq_some_iff.mp isThere).1
      rw [List.length_take, List.length_drop] at short
      rw [List.getElem?_take_of_lt (by omega), List.getElem?_drop] at isThere
      exact free separates isPort (first + offset) record (by omega) (by omega) isThere

/-- A plan partitions the visible records behind the previous boundary. -/
theorem plan_ok {keepRecentTokens : Int} {made : CompactionPlan R S}
    (planned : plan ports options records keepRecentTokens = .ok made) :
    ∃ start first, previousSummaryBoundary ports options records (records.map ports.recordId) =
      .ok (made.previousSummary, start) ∧ Partitions ports options records made start first := by
  unfold plan at planned
  obtain ⟨-, planned⟩ := raise_if_ok planned
  simp only [Bind.bind] at planned
  cases isIds : validatedRecordIds ports records with
  | error fault => simp [isIds, Except.bind] at planned
  | ok ids =>
    have sameIds : ids = records.map ports.recordId := by
      unfold validatedRecordIds at isIds
      dsimp only at isIds
      split at isIds
      · cases isIds
      · split at isIds
        · cases isIds
        · cases isIds
          rfl
    simp only [isIds, Except.bind] at planned
    rw [sameIds] at planned
    cases isBoundary : previousSummaryBoundary ports options records (records.map ports.recordId) with
    | error fault => simp [isBoundary] at planned
    | ok found =>
      obtain ⟨previous, start⟩ := found
      simp only [isBoundary] at planned
      cases isFacts : recordFacts ports (records.drop start) start with
      | error fault => simp [isFacts] at planned
      | ok facts =>
        simp only [isFacts] at planned
        obtain ⟨-, planned⟩ := raise_if_ok planned
        cases isCut : findCutIndex options facts keepRecentTokens.toNat with
        | error fault => simp [isCut] at planned
        | ok cut =>
          simp only [isCut] at planned
          obtain ⟨fact, isFact, allowed⟩ := findCutIndex_ok isCut
          rw [isFact] at planned
          cases planned
          exact ⟨start, _, rfl, planAround_partitions isFacts isFact allowed⟩

end

end Loushang.Transcript
