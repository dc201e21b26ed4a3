import Loushang.Facts.Runs
import Mathlib.Logic.Relation

/-!
# Bitemporal selection

Retirement looks one successor ahead. Because a fact has one successor at most and a
successor is never recorded earlier, what is selected is the tip of each chain of
predecessors at the recording cut.
-/
namespace Loushang.Facts
open Loushang.Lib Relation

/-! ## Chains in a journal -/

/-- The later fact names the earlier one as its predecessor. -/
def Succeeds (facts : List StoredFact) (earlier later : StoredFact) : Prop :=
  earlier ∈ facts ∧ later ∈ facts ∧ later.fact.predecessorId = some earlier.fact.factId

/-- Both facts come from one first fact by succession. -/
def SameChain (facts : List StoredFact) (one other : StoredFact) : Prop :=
  ∃ first, ReflTransGen (Succeeds facts) first one ∧ ReflTransGen (Succeeds facts) first other

/-- Recorded by the cut, while nothing after it in its chain is. -/
def LastOfChain (facts : List StoredFact) (recordedAt : ℚ) (item : StoredFact) : Prop :=
  item.fact.recordedAt ≤ recordedAt ∧
    ∀ later, TransGen (Succeeds facts) item later → recordedAt < later.fact.recordedAt

/-- What journal validation establishes of chains. -/
structure Linked (facts : List StoredFact) : Prop where
  identity : (identities (facts.map StoredFact.fact)).length ≤ 1
  ascending : (facts.map StoredFact.sequence).Pairwise (· < ·)
  recorded : ∀ earlier later, Succeeds facts earlier later →
    earlier.fact.recordedAt ≤ later.fact.recordedAt
  onlySuccessor : ∀ earlier one other, Succeeds facts earlier one → Succeeds facts earlier other →
    one = other

variable {front : List StoredFact} {lineage : Lineage} {entry : StoredFact}

theorem note_known {factId : Uuid} (known : (front.foldl Lineage.note lineage).known.get? factId = some entry) :
    lineage.known.get? factId = some entry ∨ entry ∈ front ∧ entry.fact.factId = factId := by
  induction front generalizing lineage with
  | nil => exact Or.inl known
  | cons first rest ih =>
    rcases ih known with before | ⟨member, same⟩
    · rw [Lineage.note, Dict.get?_set] at before
      split at before
      · next same =>
        cases before
        exact Or.inr ⟨List.mem_cons_self, same.symm⟩
      · exact Or.inl before
    · exact Or.inr ⟨List.mem_cons_of_mem _ member, same⟩

theorem note_successors {predecessorId : Uuid} :
    predecessorId ∈ (front.foldl Lineage.note lineage).successors.keys ↔
      predecessorId ∈ lineage.successors.keys ∨
        ∃ entry ∈ front, entry.fact.predecessorId = some predecessorId := by
  induction front generalizing lineage with
  | nil => simp
  | cons first rest ih =>
    rw [List.foldl_cons, ih, Lineage.note]
    cases link : first.fact.predecessorId with
    | none => simp [link]
    | some other =>
      simp only [Dict.mem_keys_set, List.mem_cons, exists_eq_or_imp, link, Option.some.injEq]
      tauto

/-- Each fact was admitted behind the facts before it. -/
theorem admitted_of_split {back : List StoredFact}
    (valid : validateEntries 1 (front ++ entry :: back) .empty = .ok lineage) :
    Admitted (1 + front.length) entry (front.foldl Lineage.note .empty) := by
  rw [validateEntries_append] at valid
  cases before : validateEntries 1 front .empty with
  | error error =>
    rw [before] at valid
    cases valid
  | ok lineage' =>
    rw [before, validateEntries_lineage before] at valid
    exact (validateEntries_cons.mp valid).1

section

variable {contentDigest : FactBatch → String}

theorem recorded_of_lineage {predecessor successor : FactRecord}
    (fine : validateFactLineage predecessor successor = .ok ()) :
    predecessor.recordedAt ≤ successor.recordedAt := by
  unfold validateFactLineage at fine
  split at fine
  · cases fine
  · split at fine
    · cases fine
    · split at fine
      · cases fine
      · split at fine
        · cases fine
        · next inOrder => exact not_lt.mp inOrder

theorem Holds.linked {store : MemoryFactStore} {history : List FactBatch}
    (holds : Holds contentDigest store history) : Linked store.facts := by
  obtain ⟨lineage, valid⟩ := holds.lineage
  have distinct := (validateEntries_ids valid).1
  have admitted : ∀ front entry back, store.facts = front ++ entry :: back →
      Admitted (1 + front.length) entry (front.foldl Lineage.note .empty) := by
    intro front entry back split
    rw [split] at valid
    exact admitted_of_split valid
  refine ⟨?_, ?_, ?_, ?_⟩
  · rw [holds.facts, map_fact_numbered]
    exact holds.identity
  · rw [holds.facts, map_sequence_numbered]
    exact List.pairwise_lt_range'
  · rintro earlier later ⟨here, there, link⟩
    obtain ⟨front, back, split⟩ := List.append_of_mem there
    obtain ⟨_, predecessor, known, fine⟩ := (admitted front later back split).predecessor _ link
    rcases note_known known with absurd' | ⟨member, same⟩
    · cases absurd'
    · have inside : predecessor ∈ store.facts := by
        rw [split]
        exact List.mem_append_left _ member
      rw [← List.inj_on_of_nodup_map distinct inside here same]
      exact recorded_of_lineage fine
  · rintro earlier one other ⟨_, here, link⟩ ⟨_, there, link'⟩
    by_contra different
    -- the later of the two in the journal finds the other's link taken
    have taken : ∀ {first second : StoredFact} {front middle : List StoredFact},
        first ∈ front → store.facts = front ++ second :: middle →
        first.fact.predecessorId = some earlier.fact.factId →
        second.fact.predecessorId = some earlier.fact.factId → False := by
      intro first second front middle member split one two
      obtain ⟨only, _⟩ := (admitted front second middle split).predecessor _ two
      exact only (note_successors.mpr (Or.inr ⟨first, member, one⟩))
    obtain ⟨front, back, split⟩ := List.append_of_mem there
    rw [split] at here
    rcases List.mem_append.mp here with before | rest
    · exact taken before split link link'
    · rcases List.mem_cons.mp rest with same | after
      · exact different same
      · obtain ⟨middle, last, split'⟩ := List.append_of_mem after
        refine @taken other one (front ++ other :: middle) last (by simp) ?_ link' link
        rw [split, split', List.append_assoc]
        rfl

/-! ## Tips -/

variable {facts : List StoredFact}

theorem Linked.recorded_of_path (linked : Linked facts) {earlier later : StoredFact}
    (path : ReflTransGen (Succeeds facts) earlier later) :
    earlier.fact.recordedAt ≤ later.fact.recordedAt := by
  induction path with
  | refl => exact le_refl _
  | tail _ link ih => exact le_trans ih (linked.recorded _ _ link)

/-- One look ahead is enough. -/
theorem Linked.lastOfChain_iff (linked : Linked facts) {item : StoredFact} (member : item ∈ facts)
    (recordedAt : ℚ) :
    LastOfChain facts recordedAt item ↔ item.fact.recordedAt ≤ recordedAt ∧
      item.fact.factId ∉ (facts.filter fun item => item.fact.recordedAt ≤ recordedAt).filterMap
        fun item => item.fact.predecessorId := by
  have retired : item.fact.factId ∈ (facts.filter fun item => item.fact.recordedAt ≤ recordedAt).filterMap
      (fun item => item.fact.predecessorId) ↔
        ∃ later, Succeeds facts item later ∧ later.fact.recordedAt ≤ recordedAt := by
    simp only [List.mem_filterMap, List.mem_filter, decide_eq_true_eq]
    constructor
    · rintro ⟨later, ⟨there, recorded⟩, link⟩
      exact ⟨later, ⟨member, there, link⟩, recorded⟩
    · rintro ⟨later, ⟨_, there, link⟩, recorded⟩
      exact ⟨later, ⟨there, recorded⟩, link⟩
  rw [retired, LastOfChain]
  refine and_congr_right fun _ => ⟨fun open_ => ?_, fun none_ later path => ?_⟩
  · rintro ⟨later, link, recorded⟩
    exact absurd recorded (not_le.mpr (open_ later (TransGen.single link)))
  · obtain ⟨next, link, rest⟩ := TransGen.head'_iff.mp path
    have beyond : recordedAt < next.fact.recordedAt := by
      by_contra within
      exact none_ ⟨next, link, not_lt.mp within⟩
    exact lt_of_lt_of_le beyond (linked.recorded_of_path rest)

variable {recordedAt : ℚ}

/-- Two tips of one chain are the same fact. -/
theorem Linked.tip_unique (linked : Linked facts) {one other : StoredFact}
    (here : LastOfChain facts recordedAt one) (there : LastOfChain facts recordedAt other)
    (chain : SameChain facts one other) : one = other := by
  obtain ⟨first, path, path'⟩ := chain
  have functional : Relator.RightUnique (Succeeds facts) := fun earlier one other =>
    linked.onlySuccessor earlier one other
  have apart : ∀ {a b : StoredFact}, LastOfChain facts recordedAt a → LastOfChain facts recordedAt b →
      ReflTransGen (Succeeds facts) a b → a = b := by
    intro a b tip tip' path
    rcases reflTransGen_iff_eq_or_transGen.mp path with same | beyond
    · exact same.symm
    · exact absurd tip'.1 (not_le.mpr (tip.2 b beyond))
  rcases ReflTransGen.total_of_right_unique functional path path' with forward | backward
  · exact apart here there forward
  · exact (apart there here backward).symm

theorem Linked.select (linked : Linked facts) (validAt recordedAt : ℚ) :
    ∃ selected, selectFactsAsOf facts validAt recordedAt = .ok selected ∧ selected.Sublist facts ∧
      ∀ item, item ∈ selected ↔
        item ∈ facts ∧ LastOfChain facts recordedAt item ∧ item.fact.isValidAt validAt = true := by
  unfold selectFactsAsOf
  rw [if_neg (Nat.not_lt.mpr linked.identity)]
  refine ⟨_, rfl, List.filter_sublist, fun item => ?_⟩
  rw [List.mem_filter]
  refine and_congr_right fun member => ?_
  rw [linked.lastOfChain_iff member, Bool.and_eq_true, Bool.and_eq_true, decide_eq_true_eq,
    decide_eq_true_eq]
  tauto

/-- Facts recorded after the cut are neither selected nor retire anything. -/
theorem selectFactsAsOf_append {more : List StoredFact} (linked : Linked facts)
    (linked' : Linked (facts ++ more)) (validAt : ℚ)
    (beyond : ∀ item ∈ more, recordedAt < item.fact.recordedAt) :
    selectFactsAsOf (facts ++ more) validAt recordedAt = selectFactsAsOf facts validAt recordedAt := by
  have late : more.filter (fun item => item.fact.recordedAt ≤ recordedAt) = [] := by
    rw [List.filter_eq_nil_iff]
    intro item member
    simpa using beyond item member
  unfold selectFactsAsOf
  rw [if_neg (Nat.not_lt.mpr linked.identity), if_neg (Nat.not_lt.mpr linked'.identity)]
  simp only [List.filter_append, late, List.append_nil]
  congr 1
  refine (congrArg _ (List.filter_eq_nil_iff.mpr ?_)).trans (List.append_nil _)
  intro item member
  simp [not_le.mpr (beyond item member)]

variable (contentDigest) in
/-- From the empty store, after any requests and at any cut: the selection is the tips that
are valid, in sequence order, at most one of a chain, and no accepted batch recorded after
the cut changes it. -/
theorem selection_is_tips (requests : List CommitRequest) (validAt recordedAt : ℚ) :
    let store := (factStore contentDigest).final .empty requests
    ∃ selected, selectFactsAsOf store.facts validAt recordedAt = .ok selected ∧
      (selected.map StoredFact.sequence).Pairwise (· < ·) ∧
      (∀ item, item ∈ selected ↔ item ∈ store.facts ∧
        LastOfChain store.facts recordedAt item ∧ item.fact.isValidAt validAt = true) ∧
      (∀ one ∈ selected, ∀ other ∈ selected, SameChain store.facts one other → one = other) ∧
      ∀ request commit store', store.commitFactBatch contentDigest request = (.ok commit, store') →
        (∀ fact ∈ request.batch.facts, recordedAt < fact.recordedAt) →
        selectFactsAsOf store'.facts validAt recordedAt = .ok selected := by
  intro store
  obtain ⟨history, holds⟩ := (Holds.empty contentDigest).final requests
  rw [List.nil_append] at holds
  have linked := holds.linked
  obtain ⟨selected, success, inOrder, tips⟩ := linked.select validAt recordedAt
  refine ⟨selected, success, linked.ascending.sublist (inOrder.map _), tips, ?_, ?_⟩
  · intro one here other there chain
    exact linked.tip_unique ((tips one).mp here).2.1 ((tips other).mp there).2.1 chain
  · intro request commit store' accepted beyond
    have outcome := commitFactBatch_outcome holds request
    rw [accepted] at outcome
    generalize hAnswer : (Except.ok commit : Except FactError FactCommit) = answer at outcome
    cases outcome with
    | refused error => exact success
    | replayed _ _ _ => exact success
    | fresh _ new holds' =>
      have grown : store'.facts = store.facts ++ numbered (1 + (allFacts history).length)
          request.batch.facts := by
        rw [holds'.facts, holds.facts, allFacts, List.flatMap_append, numbered_append]
        simp [allFacts]
      have linked' := holds'.linked
      rw [grown] at linked' ⊢
      rw [selectFactsAsOf_append linked linked' validAt, success]
      intro item member
      have listed := List.mem_map_of_mem (f := StoredFact.fact) member
      rw [map_fact_numbered] at listed
      exact beyond item.fact listed

end

/-! ## A correction recorded later -/

/-- The name once more, recorded at 3. -/
def correctionBatch : FactBatch where
  batchId := "correct-1"
  facts := [{ sampleFact 3 (.property "demo.core.person.name" (.str "Ada L.")) (by decide) with
    recordedAt := 3
    corrects := some 2
    interval := rfl
    oneEdge := Or.inl rfl
    notSelf := by decide }]
  text := by decide
  nonempty := by simp
  oneIdentity := by decide
  distinct := by decide

/-- At cut 2 the correction does not show. -/
theorem selection_is_tips_sample :
    ∃ selected, selectFactsAsOf ((factStore sampleDigest).final .empty [.commit sampleBatch]).facts 5 2 =
        .ok selected ∧
      selectFactsAsOf (((factStore sampleDigest).final .empty [.commit sampleBatch]).commitFactBatch
        sampleDigest (.commit correctionBatch)).2.facts 5 2 = .ok selected := by
  have accepted : (((factStore sampleDigest).final .empty [.commit sampleBatch]).commitFactBatch
      sampleDigest (.commit correctionBatch)).1 = .ok ⟨"correct-1", 3, 3, 1, false⟩ := by
    decide
  obtain ⟨selected, success, _, _, _, stable⟩ := selection_is_tips sampleDigest [.commit sampleBatch] 5 2
  exact ⟨selected, success, stable _ _ _ (Prod.ext accepted rfl) (by decide)⟩

end Loushang.Facts
