import Mathlib.Data.List.Forall2
import Mathlib.Data.List.Perm.Basic

/-!
# Cutting texts

Search for a piece of a text, replacement of pieces, and a text with disjoint regions replaced:
what a list of cuts made from the last to the first leaves of a text.
-/
namespace Loushang.Lib

section Search

variable {A : Type} [DecidableEq A]

/-- The least index at which `piece` stands. -/
def findSub (piece : List A) : List A → Option Nat
  | [] => if piece = [] then some 0 else none
  | a :: rest =>
    if piece.isPrefixOf (a :: rest) then some 0 else (findSub piece rest).map (· + 1)

/-- `piece` replaced by `new` from the left, `skip` characters being part of the last match. -/
def replaceFrom (piece new : List A) : Nat → List A → List A
  | _, [] => []
  | skip + 1, _ :: rest => replaceFrom piece new skip rest
  | 0, a :: rest =>
    if piece.isPrefixOf (a :: rest) then new ++ replaceFrom piece new (piece.length - 1) rest
    else a :: replaceFrom piece new 0 rest

/-- Every match of a non-empty `piece`, from the left, replaced by `new`. -/
def replaceSub (piece new text : List A) : List A := replaceFrom piece new 0 text

/-- The matches of a non-empty `piece`, from the left and without overlap. -/
def countFrom (piece : List A) : Nat → List A → Nat
  | _, [] => 0
  | skip + 1, _ :: rest => countFrom piece skip rest
  | 0, a :: rest =>
    if piece.isPrefixOf (a :: rest) then countFrom piece (piece.length - 1) rest + 1
    else countFrom piece 0 rest

variable {piece text : List A} {index : Nat}

theorem findSub_spec (found : findSub piece text = some index) :
    index + piece.length ≤ text.length ∧ (text.drop index).take piece.length = piece := by
  induction text generalizing index with
  | nil =>
    unfold findSub at found
    split at found
    · next empty =>
      cases found
      subst empty
      exact ⟨Nat.le_refl _, rfl⟩
    · cases found
  | cons a rest ih =>
    unfold findSub at found
    split at found
    · next stands =>
      cases found
      obtain ⟨more, split⟩ := List.isPrefixOf_iff_prefix.mp stands
      rw [← split, List.drop_zero, List.take_left, List.length_append]
      exact ⟨by omega, rfl⟩
    · rw [Option.map_eq_some_iff] at found
      obtain ⟨before, deeper, rfl⟩ := found
      obtain ⟨bound, same⟩ := ih deeper
      rw [List.length_cons, List.drop_succ_cons]
      exact ⟨by omega, same⟩

/-- A text holds no piece that has a character it lacks. -/
theorem findSub_of_not_mem {a : A} (inside : a ∈ piece) (outside : a ∉ text) : findSub piece text = none := by
  cases found : findSub piece text with
  | none => rfl
  | some index =>
    obtain ⟨_, there⟩ := findSub_spec found
    rw [← there] at inside
    exact absurd (List.mem_of_mem_drop (List.mem_of_mem_take inside)) outside

/-- `piece` stands in the text at an index. -/
def StandsAt (piece text : List A) (index : Nat) : Prop :=
  index ≤ text.length ∧ piece <+: text.drop index

omit [DecidableEq A] in
theorem StandsAt.succ {rest : List A} {a : A} :
    StandsAt piece (a :: rest) (index + 1) ↔ StandsAt piece rest index := by
  unfold StandsAt
  rw [List.length_cons, List.drop_succ_cons, Nat.add_le_add_iff_right]

omit [DecidableEq A] in
theorem StandsAt.add {skip : Nat} (bound : skip ≤ text.length) :
    StandsAt piece text (skip + index) ↔ StandsAt piece (text.drop skip) index := by
  unfold StandsAt
  rw [List.drop_drop, List.length_drop]
  exact and_congr_left fun _ => by omega

/-- The search ends at the first index where the piece stands. -/
theorem findSub_standsAt (found : findSub piece text = some index) :
    StandsAt piece text index ∧ ∀ other, StandsAt piece text other → index ≤ other := by
  induction text generalizing index with
  | nil =>
    unfold findSub at found
    split at found
    · next empty =>
      cases found
      subst empty
      exact ⟨⟨Nat.le_refl _, List.prefix_refl _⟩, fun _ _ => Nat.zero_le _⟩
    · cases found
  | cons a rest ih =>
    unfold findSub at found
    split at found
    · next stands =>
      cases found
      exact ⟨⟨Nat.zero_le _, List.isPrefixOf_iff_prefix.mp stands⟩, fun _ _ => Nat.zero_le _⟩
    · next absent =>
      obtain ⟨before, deeper, rfl⟩ := Option.map_eq_some_iff.mp found
      obtain ⟨stands, first⟩ := ih deeper
      refine ⟨StandsAt.succ.mpr stands, fun other there => ?_⟩
      cases other with
      | zero => exact absurd (List.isPrefixOf_iff_prefix.mpr there.2) absent
      | succ other => exact Nat.succ_le_succ (first other (StandsAt.succ.mp there))

theorem findSub_eq_none (absent : findSub piece text = none) (index : Nat) : ¬ StandsAt piece text index := by
  induction text generalizing index with
  | nil =>
    unfold findSub at absent
    split at absent
    · cases absent
    · next some_ =>
      rintro ⟨_, stands⟩
      rw [List.drop_nil, List.prefix_nil] at stands
      exact some_ stands
  | cons a rest ih =>
    unfold findSub at absent
    split at absent
    · cases absent
    · next other =>
      rw [Option.map_eq_none_iff] at absent
      cases index with
      | zero => exact fun stands => other (List.isPrefixOf_iff_prefix.mpr stands.2)
      | succ index => exact fun stands => ih absent index (StandsAt.succ.mp stands)

theorem countFrom_skip (piece : List A) (skip : Nat) (text : List A) :
    countFrom piece skip text = countFrom piece 0 (text.drop skip) := by
  induction text generalizing skip with
  | nil =>
    rw [List.drop_nil]
    cases skip <;> rfl
  | cons a rest ih =>
    cases skip with
    | zero => rfl
    | succ skip => rw [countFrom, ih, List.drop_succ_cons]

/-- A match is counted, and the count goes on behind it. -/
theorem countFrom_eq (visible : piece ≠ []) (text : List A) :
    countFrom piece 0 text =
      match findSub piece text with
      | none => 0
      | some start => countFrom piece 0 (text.drop (start + piece.length)) + 1 := by
  have length : piece.length ≠ 0 := fun zero => visible (List.eq_nil_of_length_eq_zero zero)
  induction text with
  | nil =>
    rw [findSub, if_neg visible]
    rfl
  | cons a rest ih =>
    rw [countFrom, findSub]
    split
    · simp only
      rw [countFrom_skip, Nat.zero_add]
      obtain ⟨less, same⟩ := Nat.exists_eq_succ_of_ne_zero length
      rw [same, List.drop_succ_cons]
      rfl
    · rw [ih]
      cases findSub piece rest with
      | none => rfl
      | some start =>
        simp only [Option.map_some]
        rw [show start + 1 + piece.length = start + piece.length + 1 by omega, List.drop_succ_cons]

/-- More than one is counted where the piece stands twice without overlap. -/
theorem one_lt_countFrom_iff (visible : piece ≠ []) :
    1 < countFrom piece 0 text ↔
      ∃ first second, StandsAt piece text first ∧ StandsAt piece text second ∧
        first + piece.length ≤ second := by
  rw [countFrom_eq visible]
  cases found : findSub piece text with
  | none =>
    simp only [Nat.not_lt_zero, false_iff]
    rintro ⟨first, _, stands, _⟩
    exact findSub_eq_none found first stands
  | some start =>
    simp only [Nat.lt_add_one_iff, Nat.succ_le_iff]
    obtain ⟨here, least⟩ := findSub_standsAt found
    have bound : start + piece.length ≤ text.length := (findSub_spec found).1
    rw [countFrom_eq visible]
    constructor
    · intro more
      cases again : findSub piece (text.drop (start + piece.length)) with
      | none =>
        rw [again] at more
        exact absurd more (Nat.lt_irrefl 0)
      | some next =>
        exact ⟨start, start + piece.length + next, here,
          (StandsAt.add bound).mpr (findSub_standsAt again).1, Nat.le_add_right _ _⟩
    · rintro ⟨first, second, stands, standsToo, apart⟩
      have behind : start + piece.length ≤ second := by
        have := least first stands
        omega
      have there : StandsAt piece (text.drop (start + piece.length)) (second - (start + piece.length)) := by
        rw [← StandsAt.add bound, Nat.add_sub_cancel' behind]
        exact standsToo
      cases again : findSub piece (text.drop (start + piece.length)) with
      | none => exact absurd there (findSub_eq_none again _)
      | some next => exact Nat.succ_pos _

/-- One character is replaced wherever it stands. -/
theorem replaceSub_singleton (a : A) (new text : List A) :
    replaceSub [a] new text = text.flatMap fun b => if b = a then new else [b] := by
  unfold replaceSub
  induction text with
  | nil => rfl
  | cons b rest ih =>
    rw [replaceFrom, List.flatMap_cons, List.length_singleton, Nat.sub_self, ih]
    by_cases same : b = a
    · subst same
      rw [if_pos rfl, if_pos]
      rw [List.isPrefixOf_iff_prefix]
      exact List.prefix_append [b] rest
    · rw [if_neg same, if_neg]
      · rfl
      · rw [List.isPrefixOf_iff_prefix]
        intro stands
        exact same (List.cons_prefix_cons.mp stands).1.symm

end Search

variable {A B : Type}

/-- A region of a text by its bounds, and what is written there. -/
structure Cut (A : Type) where
  start : Nat
  stop : Nat
  text : List A

def Cut.region (cut : Cut A) (text : List A) : List A := (text.take cut.stop).drop cut.start

def Cut.apply (cut : Cut A) (text : List A) : List A :=
  text.take cut.start ++ cut.text ++ text.drop cut.stop

/-- The cuts made one after the other, the last one first. -/
def applyCuts (cuts : List (Cut A)) (text : List A) : List A :=
  cuts.reverse.foldl (fun text cut => cut.apply text) text

/-- Each cut begins where the one before it ends, or later. -/
def Ascending (limit : Nat) : Nat → List (Cut A) → Prop
  | start, [] => start ≤ limit
  | start, cut :: rest => start ≤ cut.start ∧ cut.start ≤ cut.stop ∧ Ascending limit cut.stop rest

theorem Ascending.le {limit start : Nat} {cuts : List (Cut A)} (ascending : Ascending limit start cuts) :
    start ≤ limit := by
  induction cuts generalizing start with
  | nil => exact ascending
  | cons cut rest ih =>
    obtain ⟨before, ordered, later⟩ := ascending
    have := ih later
    omega

/-- A stretch that is kept, the region after it, and the item that replaces the region. -/
structure Piece (A B : Type) where
  gap : List A
  region : List A
  item : B

/-- `target` is `source` with disjoint regions replaced, one for each item; `kept` is what becomes of
the text between them. -/
def Replaced (kept : List A → List A) (written : B → List A) (matched : B → List A → Prop)
    (items : List B) (source target : List A) : Prop :=
  ∃ (pieces : List (Piece A B)) (tail : List A),
    (pieces.map Piece.item).Perm items ∧
    source = (pieces.flatMap fun piece => piece.gap ++ piece.region) ++ tail ∧
    target = (pieces.flatMap fun piece => kept piece.gap ++ written piece.item) ++ kept tail ∧
    ∀ piece ∈ pieces, matched piece.item piece.region

section Replaced

variable {kept : List A → List A} {written : B → List A} {matched : B → List A → Prop}
  {items : List B} {source target : List A}

theorem applyCuts_cons (cut : Cut A) (rest : List (Cut A)) (text : List A) :
    applyCuts (cut :: rest) text = cut.apply (applyCuts rest text) := by
  unfold applyCuts
  rw [List.reverse_cons, List.foldl_append]
  rfl

/-- The text before a later bound is what lies before an earlier one and what lies between. -/
theorem take_append_between {i j : Nat} (ordered : i ≤ j) (text : List A) :
    text.take i ++ (text.take j).drop i = text.take j := by
  have front : text.take i = (text.take j).take i := by rw [List.take_take, Nat.min_eq_left ordered]
  rw [front, List.take_append_drop]

variable {text : List A}

theorem drop_eq_between {i j : Nat} (ordered : i ≤ j) (bound : j ≤ text.length) :
    text.drop i = (text.take j).drop i ++ text.drop j := by
  have whole : text.drop i = (text.take j ++ text.drop j).drop i := by rw [List.take_append_drop]
  rw [whole, List.drop_append_of_le_length]
  rw [List.length_take]
  omega

variable {cuts : List (Cut A)}

/-- Ascending cuts leave the text with their regions replaced. -/
theorem applyCuts_pieces {start : Nat}
    (agree : List.Forall₂ (fun item cut => cut.text = written item ∧ matched item (cut.region text))
      items cuts) (ascending : Ascending text.length start cuts) :
    ∃ (pieces : List (Piece A B)) (tail : List A),
      pieces.map Piece.item = items ∧
      text.drop start = (pieces.flatMap fun piece => piece.gap ++ piece.region) ++ tail ∧
      applyCuts cuts text =
        text.take start ++ ((pieces.flatMap fun piece => piece.gap ++ written piece.item) ++ tail) ∧
      ∀ piece ∈ pieces, matched piece.item piece.region := by
  induction agree generalizing start with
  | nil =>
    exact ⟨[], text.drop start, rfl, rfl, (List.take_append_drop start text).symm,
      fun _ member => absurd member List.not_mem_nil⟩
  | @cons item cut items' rest first others ih =>
    obtain ⟨before, ordered, later⟩ := ascending
    have bound : cut.stop ≤ text.length := later.le
    obtain ⟨pieces, tail, same, source, target, found⟩ := ih later
    refine ⟨⟨(text.take cut.start).drop start, cut.region text, item⟩ :: pieces, tail, ?_, ?_, ?_, ?_⟩
    · rw [List.map_cons, same]
    · rw [List.flatMap_cons, List.append_assoc, ← source, List.append_assoc,
        drop_eq_between before (Nat.le_trans ordered bound), drop_eq_between ordered bound]
      rfl
    · have shorter : (text.take cut.stop).length = cut.stop := by
        rw [List.length_take]
        omega
      rw [applyCuts_cons, target, Cut.apply, List.take_append_of_le_length (by omega), List.take_take,
        Nat.min_eq_left ordered, List.drop_left' shorter, List.flatMap_cons, first.1]
      conv_lhs => rw [← take_append_between before text]
      simp only [List.append_assoc]
    · exact List.forall_mem_cons.mpr ⟨first.2, found⟩

/-- The items may be listed in another order than their cuts. -/
theorem applyCuts_replaced {sorted : List (Cut A)} (perm : sorted.Perm cuts)
    (agree : List.Forall₂ (fun item cut => cut.text = written item ∧ matched item (cut.region text))
      items cuts) (ascending : Ascending text.length 0 sorted) :
    Replaced id written matched items text (applyCuts sorted text) := by
  have reordered := List.forall₂_comp_perm_eq_perm_comp_forall₂ (r := fun item cut =>
    cut.text = written item ∧ matched item (Cut.region cut text))
  have either : (Relation.Comp (List.Forall₂ fun item cut =>
      cut.text = written item ∧ matched item (Cut.region cut text)) List.Perm) items sorted :=
    ⟨cuts, agree, perm.symm⟩
  rw [reordered] at either
  obtain ⟨items', perm', matches'⟩ := either
  obtain ⟨pieces, tail, same, source, target, found⟩ := applyCuts_pieces matches' ascending
  exact ⟨pieces, tail, same ▸ perm'.symm, source, target, found⟩

theorem flatMap_append_map {C D : Type} {f : List C → List D} (empty : f [] = [])
    (splits : ∀ front back, f (front ++ back) = f front ++ f back) {E : Type} (g : E → List C) (items : List E) :
    f (items.flatMap g) = items.flatMap fun item => f (g item) := by
  induction items with
  | nil => exact empty
  | cons item rest ih => rw [List.flatMap_cons, List.flatMap_cons, splits, ih]

theorem Replaced.imp {matched' : B → List A → Prop}
    (implies : ∀ item ∈ items, ∀ region, matched item region → matched' item region)
    (replaced : Replaced kept written matched items source target) :
    Replaced kept written matched' items source target := by
  obtain ⟨pieces, tail, perm, origin, result, found⟩ := replaced
  refine ⟨pieces, tail, perm, origin, result, ?_⟩
  intro piece member
  exact implies _ (perm.mem_iff.mp (List.mem_map_of_mem member)) _ (found piece member)

/-- What is done to every character of the result is done to the gaps and to what is written. -/
theorem Replaced.mapTarget (f : List A → List A) (empty : f [] = [])
    (splits : ∀ front back, f (front ++ back) = f front ++ f back)
    (replaced : Replaced kept written matched items source target) :
    Replaced (fun gap => f (kept gap)) (fun item => f (written item)) matched items source (f target) := by
  obtain ⟨pieces, tail, perm, origin, result, found⟩ := replaced
  refine ⟨pieces, tail, perm, origin, ?_, found⟩
  rw [result, splits, flatMap_append_map empty splits]
  simp only [splits]

/-- Texts that agree after a translation that splits nowhere: the regions may be read in either. -/
theorem Replaced.mapBoth (f : List A → List A) (empty : f [] = [])
    (splits : ∀ front back, f (front ++ back) = f front ++ f back)
    (replaced : Replaced id written matched items source target) :
    Replaced id (fun item => f (written item))
      (fun item region => ∃ before, region = f before ∧ matched item before) items (f source) (f target) := by
  obtain ⟨pieces, tail, perm, origin, result, found⟩ := replaced
  refine ⟨pieces.map fun piece => ⟨f piece.gap, f piece.region, piece.item⟩, f tail, ?_, ?_, ?_, ?_⟩
  · rw [List.map_map]
    exact perm
  · rw [origin, splits, flatMap_append_map empty splits, List.flatMap_map]
    simp only [splits]
  · rw [result, splits, flatMap_append_map empty splits, List.flatMap_map]
    simp only [splits, id]
  · intro piece member
    obtain ⟨before, here, rfl⟩ := List.mem_map.mp member
    exact ⟨before.region, rfl, found before here⟩

/-- The regions of a translated text are regions of the text. -/
theorem Replaced.lift (f : List A → List A) {origin : List A}
    (preimage : ∀ text front back, f text = front ++ back →
      ∃ front' back', text = front' ++ back' ∧ f front' = front ∧ f back' = back)
    (replaced : Replaced kept written matched items (f origin) target) :
    Replaced (fun gap => kept (f gap)) written (fun item region => matched item (f region)) items origin
      target := by
  obtain ⟨pieces, tail, perm, same, rfl, found⟩ := replaced
  have lifted : ∃ (pieces' : List (Piece A B)) (tail' : List A),
      pieces'.map Piece.item = pieces.map Piece.item ∧
      origin = (pieces'.flatMap fun piece => piece.gap ++ piece.region) ++ tail' ∧
      (pieces.flatMap fun piece => kept piece.gap ++ written piece.item) ++ kept tail =
        (pieces'.flatMap fun piece => kept (f piece.gap) ++ written piece.item) ++ kept (f tail') ∧
      ∀ piece ∈ pieces', matched piece.item (f piece.region) := by
    induction pieces generalizing origin items with
    | nil =>
      refine ⟨[], origin, rfl, rfl, ?_, fun _ member => absurd member List.not_mem_nil⟩
      rw [same]
      rfl
    | cons piece rest ih =>
      rw [List.flatMap_cons, List.append_assoc, List.append_assoc] at same
      obtain ⟨gap, more, rfl, gapSame, moreSame⟩ := preimage origin _ _ same
      obtain ⟨region, after, rfl, regionSame, afterSame⟩ := preimage more _ _ moreSame
      obtain ⟨pieces', tail', items', source', target', found'⟩ :=
        ih (List.Perm.refl _) afterSame (fun other member => found other (List.mem_cons_of_mem _ member))
      refine ⟨⟨gap, region, piece.item⟩ :: pieces', tail', ?_, ?_, ?_, ?_⟩
      · rw [List.map_cons, List.map_cons, items']
      · rw [List.flatMap_cons, source']
        simp only [List.append_assoc]
      · rw [List.flatMap_cons, List.flatMap_cons, List.append_assoc, target', gapSame]
        simp only [List.append_assoc]
      · intro other member
        rcases List.mem_cons.mp member with rfl | deeper
        · rw [regionSame]
          exact found piece List.mem_cons_self
        · exact found' other deeper
  obtain ⟨pieces', tail', items', source', target', found'⟩ := lifted
  exact ⟨pieces', tail', items' ▸ perm, source', target', found'⟩

/-- A beginning that is kept. -/
theorem Replaced.prepend (front : List A) (keeps : ∀ back, kept (front ++ back) = front ++ kept back)
    (replaced : Replaced kept written matched items source target) :
    Replaced kept written matched items (front ++ source) (front ++ target) := by
  obtain ⟨pieces, tail, perm, rfl, rfl, found⟩ := replaced
  cases pieces with
  | nil => exact ⟨[], front ++ tail, perm, rfl, (keeps tail).symm, fun _ member => absurd member List.not_mem_nil⟩
  | cons piece rest =>
    refine ⟨⟨front ++ piece.gap, piece.region, piece.item⟩ :: rest, tail, perm, ?_, ?_, ?_⟩
    · simp only [List.flatMap_cons, List.append_assoc]
    · simp only [List.flatMap_cons, List.append_assoc, keeps]
    · exact List.forall_mem_cons.mpr
        ⟨found piece List.mem_cons_self, fun other deeper => found other (List.mem_cons_of_mem _ deeper)⟩

end Replaced

end Loushang.Lib
