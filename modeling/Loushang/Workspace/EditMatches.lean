import Loushang.Lib.Folds
import Loushang.Workspace.EditFrame
import Mathlib.Data.List.Chain
import Mathlib.Data.List.Pairwise

/-!
# Where edits match

An edit is made where its text is first found, after a count of the fuzzy form without
overlap. The text is unmistakable there when its form in the base is not empty, stands
nowhere inside the found place, and is not lost to the count by the fuzzy form.
-/
namespace Loushang.Workspace
open Lib

variable {nfkc : Text → Text}

/-! ## Plans and their order -/

/-- A successful plan, without its index. -/
theorem planEdit_ok_iff {base : Text} {edit : EditEntry} {index : Nat} {planned : PlannedEdit} :
    planEdit nfkc base edit index = .ok planned ↔
      ∃ start, (fuzzyFindText nfkc base edit.oldText).index = some start ∧
        countOccurrences nfkc base edit.oldText ≤ 1 ∧
        planned = ⟨⟨start, start + (fuzzyFindText nfkc base edit.oldText).matchLength, edit.newText⟩, index⟩ := by
  unfold planEdit
  dsimp only
  split
  · next missing => simp [missing]
  · next start found =>
    rw [found]
    split
    · next many =>
      simp only [reduceCtorEq, false_iff, Option.some.injEq, exists_eq_left', not_and]
      omega
    · next few =>
      simp only [Except.ok.injEq, Option.some.injEq, exists_eq_left']
      constructor
      · rintro rfl
        exact ⟨by omega, rfl⟩
      · exact fun known => known.2.symm

/-- What is cut for an edit that is found. -/
def cutFor (nfkc : Text → Text) (base : Text) (edit : EditEntry) : Option (Cut CodePoint) :=
  if countOccurrences nfkc base edit.oldText ≤ 1 then
    (fuzzyFindText nfkc base edit.oldText).index.map fun start =>
      ⟨start, start + (fuzzyFindText nfkc base edit.oldText).matchLength, edit.newText⟩
  else none

variable {entries : List (EditEntry × Nat)} {planned : List PlannedEdit}

theorem planEdits_cuts {base : Text} (plans : planEdits nfkc base entries = .ok planned) :
    entries.map (fun entry => cutFor nfkc base entry.1) = planned.map fun plan => some plan.cut := by
  induction entries generalizing planned with
  | nil =>
    cases plans
    rfl
  | cons entry rest ih =>
    obtain ⟨first, here, more⟩ := Except.bind_ok_iff.mp plans
    obtain ⟨others, later, result⟩ := Except.bind_ok_iff.mp more
    cases result
    obtain ⟨start, found, few, rfl⟩ := planEdit_ok_iff.mp here
    rw [List.map_cons, List.map_cons, ih later, cutFor, if_pos few, found]
    rfl

theorem planEdits_of_cuts {base : Text} (all : ∀ entry ∈ entries, (cutFor nfkc base entry.1).isSome) :
    ∃ planned, planEdits nfkc base entries = .ok planned := by
  induction entries with
  | nil => exact ⟨[], rfl⟩
  | cons entry rest ih =>
    obtain ⟨others, later⟩ := ih fun other member => all other (List.mem_cons_of_mem _ member)
    have here := all entry List.mem_cons_self
    unfold cutFor at here
    split at here
    · next few =>
      rw [Option.isSome_map] at here
      obtain ⟨start, found⟩ := Option.isSome_iff_exists.mp here
      have first := (@planEdit_ok_iff nfkc base entry.1 entry.2 _).mpr ⟨start, found, few, rfl⟩
      exact ⟨_, by rw [planEdits, first, later]; rfl⟩
    · cases here

/-- The overlap check looks at the cuts alone. -/
theorem checkDisjoint_iff :
    checkDisjoint planned = .ok () ↔
      (planned.map PlannedEdit.cut).IsChain fun previous current => previous.stop ≤ current.start := by
  induction planned with
  | nil => simp [checkDisjoint]
  | cons previous rest ih =>
    cases rest with
    | nil => simp [checkDisjoint]
    | cons current more =>
      rw [checkDisjoint, List.map_cons, List.map_cons, List.isChain_cons_cons, ← List.map_cons, ← ih]
      split
      · simp only [reduceCtorEq, false_iff, not_and]
        omega
      · next apart =>
        exact ⟨fun checked => ⟨by omega, checked⟩, And.right⟩

theorem checkOldTexts_iff : checkOldTexts entries = .ok () ↔ ∀ entry ∈ entries, entry.1.oldText ≠ [] := by
  induction entries with
  | nil => simp [checkOldTexts]
  | cons entry rest ih =>
    rw [checkOldTexts, List.forall_mem_cons, ← ih]
    split
    · next empty => simp [empty]
    · next visible => simp [visible]

/-- The base of a call. -/
def baseOf (nfkc : Text → Text) (content : Text) (edits : List EditEntry) : Text :=
  baseContent nfkc content (edits.map EditEntry.normalized)

variable {content : Text} {edits : List EditEntry} {applied : AppliedEditsResult}

/-- What a call that returns has gone through. -/
theorem applyEdits_ok_iff :
    applyEditsToNormalizedContent nfkc content edits = .ok applied ↔
      (∀ edit ∈ edits, normalizeToLf edit.oldText ≠ []) ∧
        ∃ planned, planEdits nfkc (baseOf nfkc content edits) (edits.map EditEntry.normalized).zipIdx =
            .ok planned ∧
          checkDisjoint (sortPlanned planned) = .ok () ∧
          applied = ⟨baseOf nfkc content edits,
            applyCuts ((sortPlanned planned).map PlannedEdit.cut) (baseOf nfkc content edits)⟩ ∧
          applied.newContent ≠ applied.baseContent := by
  have visible : (∀ edit ∈ edits, normalizeToLf edit.oldText ≠ []) ↔
      checkOldTexts (edits.map EditEntry.normalized).zipIdx = .ok () := by
    rw [checkOldTexts_iff]
    constructor
    · intro all entry member
      have inside : entry.1 ∈ edits.map EditEntry.normalized := by
        rw [← List.zipIdx_map_fst 0 (edits.map EditEntry.normalized)]
        exact List.mem_map_of_mem member
      obtain ⟨edit, there, same⟩ := List.mem_map.mp inside
      rw [← same]
      exact all edit there
    · intro all edit member
      have inside : edit.normalized ∈ (edits.map EditEntry.normalized).zipIdx.map Prod.fst := by
        rw [List.zipIdx_map_fst]
        exact List.mem_map_of_mem member
      obtain ⟨entry, there, same⟩ := List.mem_map.mp inside
      have here := all entry there
      rw [same] at here
      exact here
  rw [visible]
  unfold applyEditsToNormalizedContent
  dsimp only
  constructor
  · intro applies
    obtain ⟨_, checked, more⟩ := Except.bind_ok_iff.mp applies
    obtain ⟨planned, plans, more⟩ := Except.bind_ok_iff.mp more
    obtain ⟨_, disjoint, more⟩ := Except.bind_ok_iff.mp more
    split at more
    · cases more
    · next changed =>
      cases more
      exact ⟨checked, planned, plans, disjoint, rfl, changed⟩
  · rintro ⟨checked, planned, plans, disjoint, rfl, changed⟩
    change planEdits nfkc (baseContent nfkc content (edits.map EditEntry.normalized)) _ = _ at plans
    rw [checked, plans]
    change (checkDisjoint (sortPlanned planned) >>= _) = _
    rw [disjoint]
    exact if_neg changed

/-- Cuts of some length that do not overlap are told apart by where they begin. -/
theorem sorted_cuts (long : ∀ plan ∈ planned, plan.cut.start < plan.cut.stop)
    (disjoint : checkDisjoint (sortPlanned planned) = .ok ()) :
    ((sortPlanned planned).map PlannedEdit.cut).Pairwise fun a b => a.start < b.start := by
  have chain := checkDisjoint_iff.mp disjoint
  have inside : ∀ cut ∈ (sortPlanned planned).map PlannedEdit.cut, cut.start < cut.stop := by
    intro cut member
    obtain ⟨plan, there, rfl⟩ := List.mem_map.mp member
    exact long plan ((List.mergeSort_perm _ _).mem_iff.mp there)
  have ascending : ((sortPlanned planned).map PlannedEdit.cut).IsChain fun a b => a.start < b.start :=
    chain.imp_of_mem_imp fun a b here _ apart => Nat.lt_of_lt_of_le (inside a here) apart
  exact List.isChain_iff_pairwise.mp ascending

/-- Plans with the same cuts, of some length and without overlap, are cut alike. -/
theorem sorted_cuts_eq {others : List PlannedEdit}
    (same : (planned.map PlannedEdit.cut).Perm (others.map PlannedEdit.cut))
    (long : ∀ plan ∈ planned, plan.cut.start < plan.cut.stop)
    (disjoint : checkDisjoint (sortPlanned planned) = .ok ()) :
    (sortPlanned others).map PlannedEdit.cut = (sortPlanned planned).map PlannedEdit.cut := by
  have apart := sorted_cuts long disjoint
  have perm : ((sortPlanned others).map PlannedEdit.cut).Perm ((sortPlanned planned).map PlannedEdit.cut) :=
    ((List.mergeSort_perm _ _).map _).trans (same.symm.trans ((List.mergeSort_perm _ _).map _).symm)
  have ordered : ((sortPlanned others).map PlannedEdit.cut).Pairwise fun a b => a.start ≤ b.start := by
    rw [List.pairwise_map]
    have sorted := @List.pairwise_mergeSort PlannedEdit (fun first second =>
        decide (first.cut.start ≤ second.cut.start))
      (fun a b c => by simp only [decide_eq_true_eq]; exact Nat.le_trans)
      (fun a b => by simp only [Bool.or_eq_true, decide_eq_true_eq]; exact Nat.le_total _ _) others
    exact sorted.imp fun before => by simpa only [decide_eq_true_eq] using before
  refine List.Perm.eq_of_pairwise ?_ ordered (apart.imp Nat.le_of_lt) perm
  intro a b here there below above
  by_contra different
  have strict : ∀ {x y : Cut CodePoint}, x ∈ (sortPlanned planned).map PlannedEdit.cut →
      y ∈ (sortPlanned planned).map PlannedEdit.cut → x ≠ y → x.start ≠ y.start := by
    intro x y first second unequal
    have symmetric : Std.Symm fun x y : Cut CodePoint => x.start ≠ y.start := ⟨fun _ _ => Ne.symm⟩
    exact (apart.imp Nat.ne_of_lt).forall first second unequal
  exact strict (perm.mem_iff.mp here) there different (Nat.le_antisymm below above)

/-- Edits that match some text may be listed in any order. -/
theorem applyEdits_perm {others : List EditEntry} (same : others.Perm edits) (long : ∀ edit ∈ edits, ∀ cut,
      cutFor nfkc (baseOf nfkc content edits) edit.normalized = some cut → cut.start < cut.stop)
    (applies : applyEditsToNormalizedContent nfkc content edits = .ok applied) :
    applyEditsToNormalizedContent nfkc content others = .ok applied := by
  obtain ⟨visible, planned, plans, disjoint, result, changed⟩ := applyEdits_ok_iff.mp applies
  have bases : baseOf nfkc content others = baseOf nfkc content edits := by
    unfold baseOf baseContent
    rw [(same.map EditEntry.normalized).any_eq]
  have cuts := planEdits_cuts plans
  have listed : ∀ list : List EditEntry, (list.map EditEntry.normalized).zipIdx.map
      (fun entry => cutFor nfkc (baseOf nfkc content edits) entry.1) =
        list.map fun edit => cutFor nfkc (baseOf nfkc content edits) edit.normalized := by
    intro list
    calc (list.map EditEntry.normalized).zipIdx.map
          (fun entry => cutFor nfkc (baseOf nfkc content edits) entry.1)
        = ((list.map EditEntry.normalized).zipIdx.map Prod.fst).map
            (cutFor nfkc (baseOf nfkc content edits)) := by rw [List.map_map]; rfl
      _ = _ := by rw [List.zipIdx_map_fst, List.map_map]; rfl
  rw [listed] at cuts
  have found : ∀ entry ∈ (others.map EditEntry.normalized).zipIdx,
      (cutFor nfkc (baseOf nfkc content edits) entry.1).isSome := by
    intro entry member
    have here := List.mem_map_of_mem (f := fun entry : EditEntry × Nat =>
      cutFor nfkc (baseOf nfkc content edits) entry.1) member
    rw [listed] at here
    have there := (same.map fun edit => cutFor nfkc (baseOf nfkc content edits) edit.normalized).mem_iff.mp here
    rw [cuts] at there
    obtain ⟨plan, _, equal⟩ := List.mem_map.mp there
    rw [← equal]
    rfl
  obtain ⟨planned', plans'⟩ := planEdits_of_cuts found
  have cuts' := planEdits_cuts plans'
  rw [listed] at cuts'
  have perm : (planned.map PlannedEdit.cut).Perm (planned'.map PlannedEdit.cut) := by
    have somes := (same.map fun edit => cutFor nfkc (baseOf nfkc content edits) edit.normalized).symm
    rw [cuts, cuts'] at somes
    have plain := somes.filterMap id
    simpa only [List.filterMap_map, Function.comp_def, id, List.filterMap_eq_map'] using plain
  have wide : ∀ plan ∈ planned, plan.cut.start < plan.cut.stop := by
    intro plan member
    have here : some plan.cut ∈ planned.map fun plan => some plan.cut := List.mem_map_of_mem member
    rw [← cuts] at here
    obtain ⟨edit, there, equal⟩ := List.mem_map.mp here
    exact long edit there plan.cut equal
  have equal := sorted_cuts_eq perm wide disjoint
  refine applyEdits_ok_iff.mpr ⟨fun edit member => visible edit (same.mem_iff.mp member), planned', ?_, ?_, ?_, changed⟩
  · rw [bases]
    exact plans'
  · rw [checkDisjoint_iff, equal, ← checkDisjoint_iff]
    exact disjoint
  · rw [bases, equal]
    exact result

/-! ## Unmistakable texts -/

section
variable (nfkc : Text → Text) (content : Text) (edits : List EditEntry)

/-- The base is the fuzzy form of the content. -/
def fuzzyBase : Bool :=
  (edits.map EditEntry.normalized).any fun edit => (fuzzyFindText nfkc content edit.oldText).usedFuzzyMatch

/-- The old text of an edit under the normalization of the base. -/
def comparedText (edit : EditEntry) : Text :=
  if fuzzyBase nfkc content edits then normalizeForFuzzyMatch nfkc (normalizeToLf edit.oldText)
  else normalizeToLf edit.oldText

/-- Each old text stands at one place of the base and is not empty, and the edits make the same
content in every order. -/
structure AppliedUniquely (applied : AppliedEditsResult) : Prop where
  unique : ∀ edit ∈ edits, comparedText nfkc content edits edit ≠ [] ∧
    ∃ start, StandsAt (comparedText nfkc content edits edit) applied.baseContent start ∧
      ∀ other, StandsAt (comparedText nfkc content edits edit) applied.baseContent other → other = start
  ordered : ∀ others : List EditEntry, others.Perm edits → ∃ again,
    applyEditsToNormalizedContent nfkc content others = .ok again ∧ again.newContent = applied.newContent

/-- The compared text is not empty and is found; it does not begin again inside the place where it is
found first; and in the content itself, where it stands twice without overlap so does its fuzzy form. -/
structure Unmistakable (edit : EditEntry) : Prop where
  visible : comparedText nfkc content edits edit ≠ []
  found : (findSub (comparedText nfkc content edits edit) (baseOf nfkc content edits)).isSome
  apart : ∀ start ∈ findSub (comparedText nfkc content edits edit) (baseOf nfkc content edits),
    ∀ inner, start < inner → inner < start + (comparedText nfkc content edits edit).length →
      ¬ StandsAt (comparedText nfkc content edits edit) (baseOf nfkc content edits) inner
  counted : fuzzyBase nfkc content edits = false →
    1 < countFrom (normalizeToLf edit.oldText) 0 content →
      1 < countOccurrences nfkc content (normalizeToLf edit.oldText)

end

section
variable {content : Text} {edits : List EditEntry} {applied : AppliedEditsResult}

theorem baseOf_eq : baseOf nfkc content edits =
    if fuzzyBase nfkc content edits then normalizeForFuzzyMatch nfkc content else content := rfl

/-- An edit of a call that returns is found, and counted at most once. -/
theorem cutFor_isSome (applies : applyEditsToNormalizedContent nfkc content edits = .ok applied) :
    ∀ edit ∈ edits, ∃ start,
      (fuzzyFindText nfkc (baseOf nfkc content edits) (normalizeToLf edit.oldText)).index = some start ∧
      countOccurrences nfkc (baseOf nfkc content edits) (normalizeToLf edit.oldText) ≤ 1 := by
  obtain ⟨_, planned, plans, _⟩ := applyEdits_ok_iff.mp applies
  intro edit member
  have inside : edit.normalized ∈ (edits.map EditEntry.normalized).zipIdx.map Prod.fst := by
    rw [List.zipIdx_map_fst]
    exact List.mem_map_of_mem member
  obtain ⟨entry, there, same⟩ := List.mem_map.mp inside
  have here := List.mem_map_of_mem (f := fun entry : EditEntry × Nat =>
    cutFor nfkc (baseOf nfkc content edits) entry.1) there
  rw [planEdits_cuts plans] at here
  obtain ⟨plan, _, cut⟩ := List.mem_map.mp here
  rw [same, cutFor] at cut
  split at cut
  · next few =>
    obtain ⟨start, found, _⟩ := Option.map_eq_some_iff.mp cut.symm
    exact ⟨start, found, few⟩
  · cases cut

/-- A text that is compared and not empty has a match of some length. -/
theorem cut_long (applies : applyEditsToNormalizedContent nfkc content edits = .ok applied)
    (visible : ∀ edit ∈ edits, comparedText nfkc content edits edit ≠ []) :
    ∀ edit ∈ edits, ∀ cut, cutFor nfkc (baseOf nfkc content edits) edit.normalized = some cut →
      cut.start < cut.stop := by
  intro edit member cut made
  unfold cutFor at made
  obtain ⟨-, made⟩ := Option.ite_none_right_eq_some.mp made
  obtain ⟨start, found, rfl⟩ := Option.map_eq_some_iff.mp made
  have written := (applyEdits_ok_iff.mp applies).1 edit member
  have compared := visible edit member
  have length : (fuzzyFindText nfkc (baseOf nfkc content edits) edit.normalized.oldText).matchLength ≠ 0 := by
    rcases fuzzyFindText_spec found with ⟨_, exact, _⟩ | ⟨used, fuzzy, _⟩
    · rw [exact]
      exact fun zero => written (List.eq_nil_of_length_eq_zero zero)
    · rw [fuzzy]
      intro zero
      unfold comparedText at compared
      cases based : fuzzyBase nfkc content edits with
      | true =>
        rw [based, if_pos rfl] at compared
        exact compared (List.eq_nil_of_length_eq_zero zero)
      | false =>
        -- the base is the content, where every edit is found exactly
        rw [baseOf_eq, based, if_neg Bool.false_ne_true] at used
        have unused := List.any_eq_false.mp based edit.normalized (List.mem_map_of_mem member)
        exact unused used
  exact Nat.lt_add_of_pos_right (Nat.pos_of_ne_zero length)

/-- What a call that returns has counted: the compared text stands once without overlap, unless
the fuzzy form loses a place of the content. -/
theorem countFrom_compared (settled : ∀ text, nfkc (cleanLines (nfkc text)) = cleanLines (nfkc text))
    (applies : applyEditsToNormalizedContent nfkc content edits = .ok applied) {edit : EditEntry}
    (member : edit ∈ edits) (visible : comparedText nfkc content edits edit ≠ [])
    (counted : fuzzyBase nfkc content edits = false →
      1 < countFrom (normalizeToLf edit.oldText) 0 content →
        1 < countOccurrences nfkc content (normalizeToLf edit.oldText)) :
    countFrom (comparedText nfkc content edits edit) 0 (baseOf nfkc content edits) ≤ 1 := by
  obtain ⟨_, _, few⟩ := cutFor_isSome applies edit member
  rw [baseOf_eq] at few ⊢
  unfold comparedText at visible ⊢
  cases based : fuzzyBase nfkc content edits with
  | true =>
    simp only [based, if_true] at few visible ⊢
    unfold countOccurrences at few
    rw [if_neg visible, normalizeForFuzzyMatch_idem settled] at few
    exact few
  | false =>
    simp only [based, Bool.false_eq_true, if_false] at few visible ⊢
    by_contra many
    have := counted based (by omega)
    omega

/-- A call that returns has applied its edits uniquely exactly when each of them is unmistakable. -/
theorem applied_uniquely_iff (settled : ∀ text, nfkc (cleanLines (nfkc text)) = cleanLines (nfkc text))
    (applies : applyEditsToNormalizedContent nfkc content edits = .ok applied) :
    AppliedUniquely nfkc content edits applied ↔ ∀ edit ∈ edits, Unmistakable nfkc content edits edit := by
  obtain ⟨_, _, _, _, result, _⟩ := applyEdits_ok_iff.mp applies
  have based : applied.baseContent = baseOf nfkc content edits := by rw [result]
  constructor
  · rintro ⟨unique, _⟩ edit member
    obtain ⟨visible, start, stands, only⟩ := unique edit member
    rw [based] at stands only
    refine ⟨visible, ?_, ?_, ?_⟩
    · cases found : findSub (comparedText nfkc content edits edit) (baseOf nfkc content edits) with
      | none => exact absurd stands (findSub_eq_none found start)
      | some _ => rfl
    · intro first found inner after _ again
      have here := only first (findSub_standsAt found).1
      have there := only inner again
      omega
    · intro exact twice
      have same : comparedText nfkc content edits edit = normalizeToLf edit.oldText := by
        rw [comparedText, exact, if_neg Bool.false_ne_true]
      have content_ : baseOf nfkc content edits = content := by
        rw [baseOf_eq, exact, if_neg Bool.false_ne_true]
      rw [same, content_] at only
      rw [same] at visible
      obtain ⟨first, second, here, there, apart⟩ := (one_lt_countFrom_iff visible).mp twice
      have length : (normalizeToLf edit.oldText).length ≠ 0 := fun zero =>
        visible (List.eq_nil_of_length_eq_zero zero)
      have := only first here
      have := only second there
      omega
  · intro all
    refine ⟨fun edit member => ?_, fun others same => ?_⟩
    · obtain ⟨visible, found, apart, counted⟩ := all edit member
      obtain ⟨start, first⟩ := Option.isSome_iff_exists.mp found
      obtain ⟨stands, least⟩ := findSub_standsAt first
      rw [based]
      refine ⟨visible, start, stands, fun other there => ?_⟩
      have after := least other there
      by_contra different
      by_cases inside : other < start + (comparedText nfkc content edits edit).length
      · exact apart start first other (by omega) inside there
      · have twice := (one_lt_countFrom_iff visible).mpr ⟨start, other, stands, there, by omega⟩
        have once := countFrom_compared settled applies member visible counted
        omega
    · exact ⟨applied, applyEdits_perm same (cut_long applies fun edit member => (all edit member).visible)
        applies, rfl⟩

end

/-! ## Overlapping places -/

def oneWord : List EditEntry := [⟨textOf "b", textOf "x"⟩]

theorem applied_uniquely_iff_oneWord :
    ∃ applied, applyEditsToNormalizedContent spaceForNoBreak (textOf "abc") oneWord = .ok applied ∧
      AppliedUniquely spaceForNoBreak (textOf "abc") oneWord applied := by
  have applies : applyEditsToNormalizedContent spaceForNoBreak (textOf "abc") oneWord =
      .ok ⟨textOf "abc", textOf "axc"⟩ := by decide +kernel
  refine ⟨_, applies, (applied_uniquely_iff spaceForNoBreak_settled applies).mpr ?_⟩
  intro edit member
  obtain rfl := List.mem_singleton.mp member
  have compared : comparedText spaceForNoBreak (textOf "abc") oneWord ⟨textOf "b", textOf "x"⟩ = textOf "b" := by
    decide
  refine ⟨?_, by decide, ?_, by decide⟩
  · rw [compared]
    decide
  · intro start _ inner after inside
    rw [compared] at inside
    have length : (textOf "b").length = 1 := by decide
    omega

def doubled : List EditEntry := [⟨textOf "aa", textOf "b"⟩]

/-- In `aaa` the text `aa` stands at two places, and the edit is made at the first. -/
theorem doubled_applied_twice :
    ∃ applied, applyEditsToNormalizedContent spaceForNoBreak (textOf "aaa") doubled = .ok applied ∧
      ¬ AppliedUniquely spaceForNoBreak (textOf "aaa") doubled applied := by
  refine ⟨⟨textOf "aaa", textOf "ba"⟩, by decide +kernel, ?_⟩
  rintro ⟨unique, _⟩
  obtain ⟨_, start, _, only⟩ := unique ⟨textOf "aa", textOf "b"⟩ List.mem_cons_self
  have compared : comparedText spaceForNoBreak (textOf "aaa") doubled ⟨textOf "aa", textOf "b"⟩ =
      textOf "aa" := by decide
  rw [compared] at only
  have first := only 0 ⟨by decide, by decide⟩
  have second := only 1 ⟨by decide, by decide⟩
  omega

end Loushang.Workspace
