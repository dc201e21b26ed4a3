import Loushang.Lib.Marker
import Loushang.Workspace.EditDiff

/-!
# Edits replace what they match

The result of `apply_text_edits` is the text with disjoint regions replaced, one for each edit. The
text is the file's own when every edit is found exactly, and its fuzzy form when one is not; line
ends outside the regions become those the file begins with.
-/
namespace Loushang.Workspace
open Lib

/-! ## Line ends -/

@[simp] theorem normalizeToLf_nil : normalizeToLf [] = [] := rfl

theorem normalizeToLf_crlf (rest : Text) :
    normalizeToLf (cr :: lf :: rest) = lf :: normalizeToLf rest := by
  unfold normalizeToLf
  rw [replaceSub_singleton, replaceSub_singleton]
  rfl

variable {point : CodePoint}

theorem normalizeToLf_char (other : point ≠ cr) (rest : Text) :
    normalizeToLf (point :: rest) = point :: normalizeToLf rest := by
  have here : replaceSub [cr, lf] [lf] (point :: rest) = point :: replaceSub [cr, lf] [lf] rest := by
    unfold replaceSub
    rw [replaceFrom, if_neg]
    rw [List.isPrefixOf_iff_prefix]
    intro stands
    exact other (List.cons_prefix_cons.mp stands).1.symm
  unfold normalizeToLf
  rw [replaceSub_singleton, replaceSub_singleton, here, List.flatMap_cons, if_neg other]
  rfl

theorem normalizeToLf_cr {rest : Text} (lone : rest.head? ≠ some lf) :
    normalizeToLf (cr :: rest) = lf :: normalizeToLf rest := by
  have here : replaceSub [cr, lf] [lf] (cr :: rest) = cr :: replaceSub [cr, lf] [lf] rest := by
    unfold replaceSub
    rw [replaceFrom, if_neg]
    rw [List.isPrefixOf_iff_prefix]
    intro stands
    obtain ⟨more, same⟩ := (List.cons_prefix_cons.mp stands).2
    rw [← same] at lone
    exact lone rfl
  unfold normalizeToLf
  rw [replaceSub_singleton, replaceSub_singleton, here, List.flatMap_cons, if_pos rfl]
  rfl

/-- A text is read by line ends and other characters. -/
theorem text_cases (text : Text) :
    text = [] ∨ (∃ rest, text = cr :: lf :: rest) ∨ (∃ rest, text = cr :: rest ∧ rest.head? ≠ some lf) ∨
      ∃ point rest, text = point :: rest ∧ point ≠ cr := by
  cases text with
  | nil => exact Or.inl rfl
  | cons point rest =>
    right
    by_cases isCr : point = cr
    · subst isCr
      by_cases pair : rest.head? = some lf
      · left
        cases rest with
        | nil => cases pair
        | cons next more =>
          rw [List.head?_cons, Option.some.injEq] at pair
          exact ⟨more, by rw [pair]⟩
      · exact Or.inr (Or.inl ⟨rest, rfl, pair⟩)
    · exact Or.inr (Or.inr ⟨point, rest, rfl, isCr⟩)

/-- Where the LF form is split, the text is, and never inside a CRLF. -/
theorem normalizeToLf_preimage (text front back : Text) (split : normalizeToLf text = front ++ back) :
    ∃ front' back', text = front' ++ back' ∧ normalizeToLf front' = front ∧ normalizeToLf back' = back := by
  induction front generalizing text with
  | nil => exact ⟨[], text, rfl, rfl, split⟩
  | cons point more ih =>
    rcases text_cases text with rfl | ⟨rest, rfl⟩ | ⟨rest, rfl, lone⟩ | ⟨other, rest, rfl, different⟩
    · cases split
    · rw [normalizeToLf_crlf, List.cons_append, List.cons.injEq] at split
      obtain ⟨front', back', rfl, same, after⟩ := ih rest split.2
      exact ⟨cr :: lf :: front', back', rfl, by rw [normalizeToLf_crlf, same, split.1], after⟩
    · rw [normalizeToLf_cr lone, List.cons_append, List.cons.injEq] at split
      obtain ⟨front', back', rfl, same, after⟩ := ih rest split.2
      have still : front'.head? ≠ some lf := by
        intro pair
        apply lone
        rw [List.head?_append, pair]
        rfl
      exact ⟨cr :: front', back', rfl, by rw [normalizeToLf_cr still, same, split.1], after⟩
    · rw [normalizeToLf_char different, List.cons_append, List.cons.injEq] at split
      obtain ⟨front', back', rfl, same, after⟩ := ih rest split.2
      exact ⟨other :: front', back', rfl, by rw [normalizeToLf_char different, same, split.1], after⟩

theorem restoreLineEndings_append (front back : Text) (ending : LineEnding) :
    restoreLineEndings (front ++ back) ending =
      restoreLineEndings front ending ++ restoreLineEndings back ending := by
  cases ending with
  | lf => rfl
  | crlf =>
    unfold restoreLineEndings
    rw [replaceSub_singleton, replaceSub_singleton, replaceSub_singleton, List.flatMap_append]

theorem restoreLineEndings_nil (ending : LineEnding) : restoreLineEndings [] ending = [] := by
  cases ending <;> rfl

/-- The text with every line end written as `ending`. -/
def withLineEndings (ending : LineEnding) (text : Text) : Text :=
  restoreLineEndings (normalizeToLf text) ending

theorem restoreLineEndings_char (other : point ≠ lf) (rest : Text) (ending : LineEnding) :
    restoreLineEndings (point :: rest) ending = point :: restoreLineEndings rest ending := by
  cases ending with
  | lf => rfl
  | crlf =>
    unfold restoreLineEndings
    rw [replaceSub_singleton, replaceSub_singleton, List.flatMap_cons, if_neg other]
    rfl

/-! ## The byte order mark -/

theorem stripBom_cases (content : Text) :
    (stripBom content).bom ++ (stripBom content).text = content ∧
      ((stripBom content).bom = [] ∨ (stripBom content).bom = [bomMark]) := by
  unfold stripBom
  split
  · split
    · next same => exact ⟨by rw [same]; rfl, Or.inr rfl⟩
    · exact ⟨rfl, Or.inl rfl⟩
  · exact ⟨rfl, Or.inl rfl⟩

theorem restoreLineEndings_bom (content back : Text) (ending : LineEnding) :
    restoreLineEndings ((stripBom content).bom ++ back) ending =
      (stripBom content).bom ++ restoreLineEndings back ending := by
  rcases (stripBom_cases content).2 with none | mark
  · rw [none]
    rfl
  · rw [mark]
    exact restoreLineEndings_char (by decide) back ending

theorem withLineEndings_bom (content back : Text) (ending : LineEnding) :
    withLineEndings ending ((stripBom content).bom ++ back) =
      (stripBom content).bom ++ withLineEndings ending back := by
  unfold withLineEndings
  rw [← restoreLineEndings_bom]
  congr 1
  rcases (stripBom_cases content).2 with none | mark
  · rw [none]
    rfl
  · rw [mark]
    exact normalizeToLf_char (by decide) back

/-! ## The fuzzy form -/

theorem smartQuoteTranslation_idem (point : CodePoint) :
    smartQuoteTranslation (smartQuoteTranslation point) = smartQuoteTranslation point := by
  unfold smartQuoteTranslation
  dsimp only
  split
  · rfl
  split
  · rfl
  split
  · rfl
  split
  · rfl
  · rfl

theorem smartQuoteTranslation_eq_lf (same : smartQuoteTranslation point = lf) : point = lf := by
  unfold smartQuoteTranslation at same
  dsimp only at same
  split at same
  · cases same
  split at same
  · cases same
  split at same
  · cases same
  split at same
  · cases same
  · exact same

/-- Only spaces become spaces. -/
theorem isSpaceCode_smartQuoteTranslation (visible : isSpaceCode point = false) :
    isSpaceCode (smartQuoteTranslation point) = false := by
  unfold smartQuoteTranslation
  dsimp only
  split
  · rfl
  split
  · rfl
  split
  · rfl
  split
  · next blank =>
    unfold isSpaceCode at visible
    simp only [Bool.or_eq_false_iff, Bool.and_eq_false_iff, decide_eq_false_iff_not, beq_eq_false_iff_ne]
      at visible
    omega
  · exact visible

theorem dropWhile_of_head {A : Type} {p : A → Bool} {items : List A}
    (stays : ∀ first, items.head? = some first → p first = false) : items.dropWhile p = items := by
  cases items with
  | nil => rfl
  | cons first rest => rw [List.dropWhile_cons, stays first rfl, if_neg Bool.false_ne_true]

/-- A line that was stripped and translated has nothing left to strip. -/
theorem rstrip_translated (line : Text) :
    rstrip ((rstrip line).map smartQuoteTranslation) = (rstrip line).map smartQuoteTranslation := by
  have still : ((rstrip line).map smartQuoteTranslation).reverse.dropWhile
      (fun point : CodePoint => isSpaceCode point) = ((rstrip line).map smartQuoteTranslation).reverse := by
    apply dropWhile_of_head
    intro first found
    unfold rstrip at found
    rw [← List.map_reverse, List.reverse_reverse, List.head?_map, Option.map_eq_some_iff] at found
    obtain ⟨point, here, rfl⟩ := found
    apply isSpaceCode_smartQuoteTranslation
    have stops := List.head?_dropWhile_not (fun point : CodePoint => isSpaceCode point) line.reverse
    rw [here] at stops
    exact stops
  rw [rstrip, still, List.reverse_reverse]

theorem map_intercalate_lf (lines : List Text) :
    (List.intercalate [lf] lines).map smartQuoteTranslation =
      List.intercalate [lf] (lines.map (List.map smartQuoteTranslation)) := by
  induction lines with
  | nil => rfl
  | cons line rest ih =>
    cases rest with
    | nil => simp [List.intercalate]
    | cons next rest =>
      rw [List.intercalate_cons_cons, List.map_append, List.map_append, ih]
      exact List.intercalate_cons_cons.symm

theorem not_mem_of_mem_splitOn {text line : Text} (member : line ∈ text.splitOn lf) : lf ∉ line := by
  induction text generalizing line with
  | nil =>
    rw [List.splitOn_nil, List.mem_singleton] at member
    rw [member]
    exact List.not_mem_nil
  | cons point rest ih =>
    rw [List.splitOn_cons_eq_if_modifyHead] at member
    split at member
    · rcases List.mem_cons.mp member with rfl | later
      · exact List.not_mem_nil
      · exact ih later
    · next other =>
      cases pieces : rest.splitOn lf with
      | nil => exact absurd pieces (List.splitOn_ne_nil lf rest)
      | cons first more =>
        rw [pieces, List.modifyHead_cons] at member
        rcases List.mem_cons.mp member with rfl | later
        · intro inside
          rcases List.mem_cons.mp inside with here | deeper
          · exact other (by rw [← here]; exact BEq.rfl)
          · exact ih (by rw [pieces]; exact List.mem_cons_self) deeper
        · exact ih (by rw [pieces]; exact List.mem_cons_of_mem _ later)

theorem not_mem_rstrip_translated {line : Text} (unbroken : lf ∉ line) :
    lf ∉ (rstrip line).map smartQuoteTranslation := by
  intro inside
  obtain ⟨point, member, same⟩ := List.mem_map.mp inside
  rw [smartQuoteTranslation_eq_lf same] at member
  apply unbroken
  rw [rstrip, List.mem_reverse] at member
  exact List.mem_reverse.mp ((List.dropWhile_suffix _).subset member)

theorem cleanLines_idem (text : Text) : cleanLines (cleanLines text) = cleanLines text := by
  have lines : ∀ text : Text, cleanLines text = List.intercalate [lf]
      ((text.splitOn lf).map fun line => (rstrip line).map smartQuoteTranslation) := by
    intro text
    unfold cleanLines
    rw [map_intercalate_lf, List.map_map]
    rfl
  rw [lines (cleanLines text), lines text, List.splitOn_intercalate, List.map_map]
  · congr 1
    apply List.map_congr_left
    intro line _
    dsimp only [Function.comp]
    rw [rstrip_translated, List.map_map]
    congr 1
    funext point
    exact smartQuoteTranslation_idem point
  · intro line member
    obtain ⟨before, split, rfl⟩ := List.mem_map.mp member
    exact not_mem_rstrip_translated (not_mem_of_mem_splitOn split)
  · rw [ne_eq, List.map_eq_nil_iff]
    exact List.splitOn_ne_nil lf text

/-! ## Plans -/

section Plans

variable {nfkc : Text → Text}

/-- Fuzzy forms are fixed when NFKC leaves a text alone that came from it without its trailing spaces
and with plain punctuation. -/
theorem normalizeForFuzzyMatch_idem (settled : ∀ text, nfkc (cleanLines (nfkc text)) = cleanLines (nfkc text))
    (text : Text) : normalizeForFuzzyMatch nfkc (normalizeForFuzzyMatch nfkc text) =
      normalizeForFuzzyMatch nfkc text := by
  unfold normalizeForFuzzyMatch
  rw [settled, cleanLines_idem]

theorem region_of_findSub {piece text : Text} {index : Nat} (found : findSub piece text = some index)
    (new : Text) : (Cut.mk index (index + piece.length) new).region text = piece := by
  have spec := (findSub_spec found).2
  unfold Cut.region
  rw [List.drop_take, Nat.add_sub_cancel_left]
  exact spec

/-- A plan lies inside the base and covers the old text, or its fuzzy form. -/
structure Planned (nfkc : Text → Text) (base : Text) (edit : EditEntry) (planned : PlannedEdit) : Prop where
  text : planned.cut.text = edit.newText
  ordered : planned.cut.start ≤ planned.cut.stop
  bound : planned.cut.stop ≤ base.length
  region : planned.cut.region base = edit.oldText ∨
    (fuzzyFindText nfkc base edit.oldText).usedFuzzyMatch = true ∧
      planned.cut.region base = normalizeForFuzzyMatch nfkc edit.oldText

variable {content : Text}

/-- A match is exact, or one of the fuzzy forms. -/
theorem fuzzyFindText_spec {oldText : Text} {start : Nat}
    (found : (fuzzyFindText nfkc content oldText).index = some start) :
    ((fuzzyFindText nfkc content oldText).usedFuzzyMatch = false ∧
      (fuzzyFindText nfkc content oldText).matchLength = oldText.length ∧
      findSub oldText content = some start) ∨
    ((fuzzyFindText nfkc content oldText).usedFuzzyMatch = true ∧
      (fuzzyFindText nfkc content oldText).matchLength = (normalizeForFuzzyMatch nfkc oldText).length ∧
      findSub (normalizeForFuzzyMatch nfkc oldText) (normalizeForFuzzyMatch nfkc content) = some start) := by
  unfold fuzzyFindText at found ⊢
  cases exact : findSub oldText content with
  | some index =>
    rw [exact] at found
    exact Or.inl ⟨rfl, rfl, found⟩
  | none =>
    rw [exact] at found
    dsimp only at found ⊢
    cases fuzzy : findSub (normalizeForFuzzyMatch nfkc oldText) (normalizeForFuzzyMatch nfkc content) with
    | none =>
      rw [fuzzy] at found
      cases found
    | some index =>
      rw [fuzzy] at found
      exact Or.inr ⟨rfl, rfl, found⟩

variable {base : Text}

theorem planEdit_planned {edit : EditEntry} {index : Nat} {planned : PlannedEdit}
    (fixed : (fuzzyFindText nfkc base edit.oldText).usedFuzzyMatch = true →
      normalizeForFuzzyMatch nfkc base = base) (plans : planEdit nfkc base edit index = .ok planned) :
    Planned nfkc base edit planned := by
  unfold planEdit at plans
  dsimp only at plans
  split at plans
  · cases plans
  next start found =>
  split at plans
  · cases plans
  cases plans
  rcases fuzzyFindText_spec found with ⟨_, length, stands⟩ | ⟨used, length, stands⟩
  · rw [length]
    exact ⟨rfl, Nat.le_add_right _ _, (findSub_spec stands).1, Or.inl (region_of_findSub stands _)⟩
  · rw [fixed used] at stands
    rw [length]
    exact ⟨rfl, Nat.le_add_right _ _, (findSub_spec stands).1,
      Or.inr ⟨used, region_of_findSub stands _⟩⟩

variable {planned : List PlannedEdit}

theorem planEdits_planned {entries : List (EditEntry × Nat)} (fixed : ∀ edit ∈ entries.map Prod.fst,
      (fuzzyFindText nfkc base edit.oldText).usedFuzzyMatch = true → normalizeForFuzzyMatch nfkc base = base)
    (plans : planEdits nfkc base entries = .ok planned) :
    List.Forall₂ (Planned nfkc base) (entries.map Prod.fst) planned := by
  induction entries generalizing planned with
  | nil =>
    cases plans
    exact .nil
  | cons entry rest ih =>
    unfold planEdits at plans
    cases first : planEdit nfkc base entry.1 entry.2 with
    | error e =>
      rw [first] at plans
      cases plans
    | ok one =>
      rw [first] at plans
      cases others : planEdits nfkc base rest with
      | error e =>
        rw [others] at plans
        cases plans
      | ok more =>
        rw [others] at plans
        cases plans
        exact .cons (planEdit_planned (fixed _ List.mem_cons_self) first)
          (ih (fun edit member => fixed edit (List.mem_cons_of_mem _ member)) others)

/-- Plans that the overlap check lets through ascend. -/
theorem checkDisjoint_ascending {limit start : Nat}
    (bounds : ∀ plan ∈ planned, plan.cut.start ≤ plan.cut.stop ∧ plan.cut.stop ≤ limit)
    (within : start ≤ limit) (after : ∀ first, planned.head? = some first → start ≤ first.cut.start)
    (disjoint : checkDisjoint planned = .ok ()) : Ascending limit start (planned.map PlannedEdit.cut) := by
  induction planned generalizing start with
  | nil => exact within
  | cons plan rest ih =>
    obtain ⟨ordered, bound⟩ := bounds plan List.mem_cons_self
    refine ⟨after plan rfl, ordered, ?_⟩
    apply ih (fun other member => bounds other (List.mem_cons_of_mem _ member)) bound
    · intro next found
      cases rest with
      | nil => cases found
      | cons current more =>
        cases found
        unfold checkDisjoint at disjoint
        split at disjoint
        · cases disjoint
        · omega
    · cases rest with
      | nil => rfl
      | cons current more =>
        unfold checkDisjoint at disjoint
        split at disjoint
        · cases disjoint
        · exact disjoint

variable {edits : List EditEntry}

theorem Planned.bounds (all : List.Forall₂ (Planned nfkc base) edits planned) :
    ∀ plan ∈ planned, plan.cut.start ≤ plan.cut.stop ∧ plan.cut.stop ≤ base.length := by
  induction all with
  | nil => exact fun _ member => absurd member List.not_mem_nil
  | cons first _ ih =>
    exact List.forall_mem_cons.mpr ⟨⟨first.ordered, first.bound⟩, ih⟩

/-- The new content is the base with the regions of the edits replaced. -/
theorem applyEdits_replaced {applied : AppliedEditsResult} (fixed : ∀ edit ∈ edits.map EditEntry.normalized,
      (fuzzyFindText nfkc (baseContent nfkc content (edits.map EditEntry.normalized))
        edit.oldText).usedFuzzyMatch = true →
      normalizeForFuzzyMatch nfkc (baseContent nfkc content (edits.map EditEntry.normalized)) =
        baseContent nfkc content (edits.map EditEntry.normalized))
    (applies : applyEditsToNormalizedContent nfkc content edits = .ok applied) :
    Replaced id (fun edit : EditEntry => normalizeToLf edit.newText)
      (fun edit region => region = normalizeToLf edit.oldText ∨
        (fuzzyFindText nfkc (baseContent nfkc content (edits.map EditEntry.normalized))
          (normalizeToLf edit.oldText)).usedFuzzyMatch = true ∧
        region = normalizeForFuzzyMatch nfkc (normalizeToLf edit.oldText))
      edits (baseContent nfkc content (edits.map EditEntry.normalized)) applied.newContent := by
  unfold applyEditsToNormalizedContent at applies
  dsimp only at applies
  generalize baseContent nfkc content (edits.map EditEntry.normalized) = base at fixed applies ⊢
  cases checks : checkOldTexts (edits.map EditEntry.normalized).zipIdx with
  | error e =>
    rw [checks] at applies
    cases applies
  | ok _ =>
    rw [checks] at applies
    cases plans : planEdits nfkc base (edits.map EditEntry.normalized).zipIdx with
    | error e =>
      rw [plans] at applies
      cases applies
    | ok planned =>
      rw [plans] at applies
      cases disjoint : checkDisjoint (sortPlanned planned) with
      | error e =>
        change (checkDisjoint (sortPlanned planned) >>= _) = _ at applies
        rw [disjoint] at applies
        cases applies
      | ok _ =>
        change (checkDisjoint (sortPlanned planned) >>= _) = _ at applies
        rw [disjoint] at applies
        split at applies
        · cases applies
        cases applies
        have all := planEdits_planned (by rw [List.zipIdx_map_fst]; exact fixed) plans
        rw [List.zipIdx_map_fst] at all
        have bounds : ∀ plan ∈ sortPlanned planned,
            plan.cut.start ≤ plan.cut.stop ∧ plan.cut.stop ≤ base.length :=
          fun plan member => Planned.bounds all plan ((List.mergeSort_perm _ _).mem_iff.mp member)
        have ascending := checkDisjoint_ascending bounds (Nat.zero_le _) (fun _ _ => Nat.zero_le _) disjoint
        refine applyCuts_replaced (((List.mergeSort_perm planned _)).map PlannedEdit.cut) ?_ ascending
        rw [List.forall₂_map_left_iff] at all
        rw [List.forall₂_map_right_iff]
        exact all.imp fun edit plan planned => ⟨planned.text, planned.region⟩

end Plans

/-- Some edit is not found exactly in the text, but in its fuzzy form. -/
def usesFuzzy (nfkc : Text → Text) (content : Text) (edits : List EditEntry) : Bool :=
  edits.any fun edit =>
    (fuzzyFindText nfkc (normalizeToLf (stripBom content).text) (normalizeToLf edit.oldText)).usedFuzzyMatch

/-- What the file begins its lines' ends with. -/
def fileEnding (content : Text) : LineEnding := detectLineEnding (stripBom content).text

/-- When every edit is found exactly, the regions are regions of the file's own text. -/
theorem exact_replaced {nfkc : Text → Text} {content : Text} {edits : List EditEntry}
    {applied : AppliedEditsResult} (exact : usesFuzzy nfkc content edits = false)
    (chosen : baseContent nfkc (normalizeToLf (stripBom content).text) (edits.map EditEntry.normalized) =
      normalizeToLf (stripBom content).text)
    (edited : applyEditsToNormalizedContent nfkc (normalizeToLf (stripBom content).text) edits = .ok applied) :
    Replaced (withLineEndings (fileEnding content))
        (fun edit : EditEntry => withLineEndings (fileEnding content) edit.newText)
        (fun edit region => normalizeToLf region = normalizeToLf edit.oldText) edits content
        ((stripBom content).bom ++ restoreLineEndings applied.newContent (fileEnding content)) ∧
      (withLineEndings (fileEnding content) content = content →
        Replaced id (fun edit : EditEntry => withLineEndings (fileEnding content) edit.newText)
          (fun edit region => region = withLineEndings (fileEnding content) edit.oldText)
          edits content ((stripBom content).bom ++ restoreLineEndings applied.newContent (fileEnding content))) := by
  have unused : ∀ edit ∈ edits, (fuzzyFindText nfkc (normalizeToLf (stripBom content).text)
      (normalizeToLf edit.oldText)).usedFuzzyMatch = false := by
    intro edit member
    exact eq_false_of_ne_true (List.any_eq_false.mp exact edit member)
  have replaced := applyEdits_replaced (by
    rw [chosen]
    intro edit member used
    obtain ⟨before, here, rfl⟩ := List.mem_map.mp member
    rw [show before.normalized.oldText = normalizeToLf before.oldText from rfl, unused before here] at used
    cases used) edited
  rw [chosen] at replaced
  have found : Replaced id (fun edit : EditEntry => normalizeToLf edit.newText)
      (fun edit region => region = normalizeToLf edit.oldText) edits
      (normalizeToLf (stripBom content).text) applied.newContent := by
    apply replaced.imp
    intro edit member region found
    apply found.resolve_right
    rw [unused edit member]
    exact fun both => Bool.false_ne_true both.1
  have split := (stripBom_cases content).1
  constructor
  · have restored := found.mapTarget (fun text => restoreLineEndings text (fileEnding content))
      (restoreLineEndings_nil _) (fun front back => restoreLineEndings_append front back _)
    have lifted := restored.lift normalizeToLf normalizeToLf_preimage
    have whole := lifted.prepend (stripBom content).bom
      (fun back => withLineEndings_bom content back (fileEnding content))
    rw [split] at whole
    exact whole
  · intro uniform
    have restored := found.mapBoth (fun text => restoreLineEndings text (fileEnding content))
      (restoreLineEndings_nil _) (fun front back => restoreLineEndings_append front back _)
    have body : restoreLineEndings (normalizeToLf (stripBom content).text) (fileEnding content) =
        (stripBom content).text := by
      have same : (stripBom content).bom ++ withLineEndings (fileEnding content) (stripBom content).text =
          (stripBom content).bom ++ (stripBom content).text := by
        rw [← withLineEndings_bom, split, uniform]
      exact List.append_cancel_left same
    rw [body] at restored
    have whole := @Replaced.prepend _ _ id _ _ _ _ _ (stripBom content).bom (fun _ => rfl) restored
    rw [split] at whole
    apply whole.imp
    intro edit _ region agree
    obtain ⟨before, rfl, rfl⟩ := agree
    rfl

/-- What edits leave: the gaps between the regions keep every character, and their line ends become the
file's; a file with that line end alone keeps everything. -/
theorem applyTextEdits_replaced (nfkc : Text → Text)
    (settled : ∀ text, nfkc (cleanLines (nfkc text)) = cleanLines (nfkc text))
    (content : Text) (edits : List EditEntry) (result : Text)
    (applies : applyTextEdits nfkc content edits = .ok result) :
    (usesFuzzy nfkc content edits = false →
      Replaced (withLineEndings (fileEnding content))
        (fun edit : EditEntry => withLineEndings (fileEnding content) edit.newText)
        (fun edit region => normalizeToLf region = normalizeToLf edit.oldText) edits content result ∧
      (withLineEndings (fileEnding content) content = content →
        Replaced id (fun edit : EditEntry => withLineEndings (fileEnding content) edit.newText)
          (fun edit region => region = withLineEndings (fileEnding content) edit.oldText)
          edits content result)) ∧
    (usesFuzzy nfkc content edits = true →
      Replaced (fun gap => restoreLineEndings gap (fileEnding content))
        (fun edit : EditEntry => withLineEndings (fileEnding content) edit.newText)
        (fun edit region => region = normalizeToLf edit.oldText ∨
          region = normalizeForFuzzyMatch nfkc (normalizeToLf edit.oldText)) edits
        ((stripBom content).bom ++
          normalizeForFuzzyMatch nfkc (normalizeToLf (stripBom content).text)) result) := by
  unfold applyTextEdits at applies
  dsimp only at applies
  cases edited : applyEditsToNormalizedContent nfkc (normalizeToLf (stripBom content).text) edits with
  | error e =>
    rw [edited] at applies
    cases applies
  | ok applied =>
    rw [edited] at applies
    cases applies
    have chosen : baseContent nfkc (normalizeToLf (stripBom content).text) (edits.map EditEntry.normalized) =
        if usesFuzzy nfkc content edits then
          normalizeForFuzzyMatch nfkc (normalizeToLf (stripBom content).text)
        else normalizeToLf (stripBom content).text := by
      unfold baseContent usesFuzzy
      rw [List.any_map]
      rfl
    constructor
    · intro exact
      rw [exact, if_neg Bool.false_ne_true] at chosen
      exact exact_replaced exact chosen edited
    · intro fuzzy
      rw [fuzzy, if_pos rfl] at chosen
      have fixed := normalizeForFuzzyMatch_idem settled (normalizeToLf (stripBom content).text)
      have replaced := applyEdits_replaced (by rw [chosen]; exact fun _ _ _ => fixed) edited
      rw [chosen] at replaced
      have restored := replaced.mapTarget (fun text => restoreLineEndings text (fileEnding content))
        (restoreLineEndings_nil _) (fun front back => restoreLineEndings_append front back _)
      have whole := restored.prepend (stripBom content).bom
        (fun back => restoreLineEndings_bom content back (fileEnding content))
      exact whole.imp fun edit _ region found => found.imp (fun same => same) (fun both => both.2)

def textOf (text : String) : Text := (PyStr.ofString text).points

/-- NFKC on a text whose only character outside ASCII is the no-break space. -/
def spaceForNoBreak (text : Text) : Text := text.map fun point => if point = 0xa0 then 0x20 else point

theorem smartQuoteTranslation_ne_noBreak (point : CodePoint) : smartQuoteTranslation point ≠ 0xa0 := by
  unfold smartQuoteTranslation
  dsimp only
  split
  · decide
  split
  · decide
  split
  · decide
  split
  · decide
  · next other =>
    rintro rfl
    exact other (Or.inl rfl)

theorem spaceForNoBreak_settled (text : Text) :
    spaceForNoBreak (cleanLines (spaceForNoBreak text)) = cleanLines (spaceForNoBreak text) := by
  unfold spaceForNoBreak cleanLines
  rw [List.map_map]
  apply List.map_congr_left
  intro point _
  exact if_neg (smartQuoteTranslation_ne_noBreak point)

/-- A no-break space makes the edit a fuzzy one. -/
def pricedFile : Text := textOf "price\u00a0= 1  \r\nsum = 2\r\n"

def repriced : List EditEntry := [⟨textOf "price = 1", textOf "price = 3"⟩]

theorem applyTextEdits_replaced_repriced :
    ∃ result, applyTextEdits spaceForNoBreak pricedFile repriced = .ok result ∧
      Replaced (fun gap => restoreLineEndings gap (fileEnding pricedFile))
        (fun edit : EditEntry => withLineEndings (fileEnding pricedFile) edit.newText)
        (fun edit region => region = normalizeToLf edit.oldText ∨
          region = normalizeForFuzzyMatch spaceForNoBreak (normalizeToLf edit.oldText)) repriced
        ((stripBom pricedFile).bom ++
          normalizeForFuzzyMatch spaceForNoBreak (normalizeToLf (stripBom pricedFile).text)) result :=
  ⟨textOf "price = 3\r\nsum = 2\r\n", by decide +kernel,
    (applyTextEdits_replaced spaceForNoBreak spaceForNoBreak_settled pricedFile repriced _
      (by decide +kernel)).2 (by decide +kernel)⟩

/-- A file with two kinds of line ends. -/
def mixedFile : Text := textOf "a\r\nb\nc"

def renamed : List EditEntry := [⟨textOf "a", textOf "x"⟩]

/-- The line end after `b` becomes a CRLF, though no edit matches it. -/
theorem mixed_line_ends_rewritten :
    ∃ result, applyTextEdits spaceForNoBreak mixedFile renamed = .ok result ∧
      ¬ Replaced id (fun edit : EditEntry => withLineEndings (fileEnding mixedFile) edit.newText)
        (fun _ _ => True) renamed mixedFile result := by
  refine ⟨textOf "x\r\nb\r\nc", by decide +kernel, ?_⟩
  rintro ⟨pieces, tail, perm, source, target, _⟩
  obtain ⟨piece, rfl⟩ : ∃ piece, pieces = [piece] := by
    rw [← List.length_eq_one_iff, ← List.length_map, perm.length_eq]
    rfl
  obtain ⟨gap, region, item⟩ := piece
  have same : item = ⟨textOf "a", textOf "x"⟩ := List.singleton_perm_singleton.mp perm
  subst same
  have written : withLineEndings (fileEnding mixedFile) (textOf "x") = textOf "x" := by decide
  rw [List.flatMap_singleton] at source target
  dsimp only [id] at source target
  rw [written] at target
  cases gap with
  | cons point rest =>
    -- the first characters of the two texts differ
    have first : (mixedFile.head?, (textOf "x\r\nb\r\nc").head?) = (some point, some point) := by
      rw [source, target]
      rfl
    rw [Prod.mk.injEq] at first
    exact absurd (first.1.trans first.2.symm) (by decide)
  | nil =>
    have rest : tail = textOf "\r\nb\r\nc" := (List.cons.inj target).2.symm
    have length : region = [] := by
      have lengths := congrArg List.length source
      rw [List.length_append, rest] at lengths
      have short : mixedFile.length = 6 ∧ (textOf "\r\nb\r\nc").length = 6 := by decide
      rw [short.1, List.nil_append, short.2] at lengths
      exact List.eq_nil_of_length_eq_zero (by omega)
    rw [length, rest] at source
    exact absurd source (by decide)

/-! ## Line ends there and back -/

theorem cr_not_mem_normalizeToLf (text : Text) : cr ∉ normalizeToLf text := by
  rw [normalizeToLf, replaceSub_singleton, List.mem_flatMap]
  rintro ⟨other, _, here⟩
  split at here
  · exact absurd (List.mem_singleton.mp here) (by decide)
  · next different => exact different (List.mem_singleton.mp here).symm

theorem restoreLineEndings_lf (rest : Text) (ending : LineEnding) :
    restoreLineEndings (lf :: rest) ending = ending.text ++ restoreLineEndings rest ending := by
  rw [← List.singleton_append, restoreLineEndings_append]
  cases ending <;> rfl

theorem detectLineEnding_char (inside : point ≠ cr ∧ point ≠ lf) (rest : Text) :
    detectLineEnding (point :: rest) = detectLineEnding rest := by
  have noPair : ¬ [cr, lf] <+: point :: rest := fun front => inside.1 (List.cons_prefix_cons.mp front).1.symm
  have noLf : ¬ [lf] <+: point :: rest := fun front => inside.2 (List.cons_prefix_cons.mp front).1.symm
  unfold detectLineEnding
  rw [findSub_cons, findSub_cons, if_neg noPair, if_neg noLf]
  cases findSub [cr, lf] rest <;> cases findSub [lf] rest <;> simp

theorem detectLineEnding_crlf (rest : Text) : detectLineEnding (cr :: lf :: rest) = .crlf := by
  have pair : findSub [cr, lf] (cr :: lf :: rest) = some 0 := findSub_front (List.prefix_append [cr, lf] rest)
  have first : findSub [lf] (lf :: rest) = some 0 := findSub_front (List.prefix_append [lf] rest)
  have later : findSub [lf] (cr :: lf :: rest) = some 1 := by
    rw [findSub_cons, first, if_neg (fun front => absurd (List.cons_prefix_cons.mp front).1 (by decide))]
    rfl
  unfold detectLineEnding
  rw [pair, later]
  rfl

theorem detectLineEnding_lf {text : Text} (clean : cr ∉ text) : detectLineEnding text = .lf := by
  have absent : findSub [cr, lf] text = none := findSub_of_not_mem List.mem_cons_self clean
  unfold detectLineEnding
  rw [absent]

/-- Texts with one kind of line end are the LF texts, and are told by their first line end:
normalizing and restoring are inverse to each other between them. -/
theorem line_ends_round_trip (ending : LineEnding) :
    (∀ text, restoreLineEndings (normalizeToLf text) ending = text ↔
      ∃ plain, cr ∉ plain ∧ restoreLineEndings plain ending = text) ∧
    ∀ plain, cr ∉ plain → normalizeToLf (restoreLineEndings plain ending) = plain ∧
      (lf ∈ plain → detectLineEnding (restoreLineEndings plain ending) = ending) := by
  have back : ∀ plain, cr ∉ plain → normalizeToLf (restoreLineEndings plain ending) = plain := by
    intro plain clean
    induction plain with
    | nil => cases ending <;> rfl
    | cons first rest ih =>
      obtain ⟨other, clean⟩ := List.ne_and_not_mem_of_not_mem_cons clean
      by_cases isLf : first = lf
      · rw [isLf, restoreLineEndings_lf]
        cases ending with
        | crlf => exact (normalizeToLf_crlf _).trans (congrArg _ (ih clean))
        | lf => exact (normalizeToLf_char (by decide) _).trans (congrArg _ (ih clean))
      · rw [restoreLineEndings_char isLf, normalizeToLf_char other.symm, ih clean]
  refine ⟨fun text => ⟨fun same => ⟨_, cr_not_mem_normalizeToLf text, same⟩, ?_⟩, fun plain clean =>
    ⟨back plain clean, fun member => ?_⟩⟩
  · rintro ⟨plain, clean, rfl⟩
    rw [back plain clean]
  · cases ending with
    | lf => exact detectLineEnding_lf clean
    | crlf =>
      induction plain with
      | nil => cases member
      | cons first rest ih =>
        obtain ⟨other, clean⟩ := List.ne_and_not_mem_of_not_mem_cons clean
        by_cases isLf : first = lf
        · rw [isLf, restoreLineEndings_lf]
          exact detectLineEnding_crlf _
        · rw [restoreLineEndings_char isLf, detectLineEnding_char ⟨other.symm, isLf⟩]
          exact ih clean ((List.mem_cons.mp member).resolve_left (Ne.symm isLf))

end Loushang.Workspace
