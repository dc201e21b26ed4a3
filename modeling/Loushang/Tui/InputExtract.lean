import Loushang.Tui.InputReader

/-!
# Sequences and more text

`_extract_complete_sequences` stops before a sequence that is not complete. More text behind a
sequence does not change it, so what is found in a longer text starts with what is found in a
shorter one.
-/
namespace Loushang.Tui
open Loushang.Lib

section Next
variable {chars : Characters} {text more sequence rest : Text}

theorem wrapped_length {found : Text} (matched : matchingAltWrappedLegacySequence text = some found) :
    found <+: text ∧ found ∈ altWrappedLegacyKeySequences.map Prod.fst := by
  unfold matchingAltWrappedLegacySequence at matched
  have front : found.isPrefixOf text = true :=
    @List.find?_some Text (fun sequence => sequence.isPrefixOf text) _ _ matched
  exact ⟨List.isPrefixOf_iff_prefix.mp front, List.mem_of_find?_eq_some matched⟩

/-- The wrapped sequences are equally long and different, so a text starts with at most one. -/
theorem wrapped_unique {found other : Text} (first : found ∈ altWrappedLegacyKeySequences.map Prod.fst)
    (second : other ∈ altWrappedLegacyKeySequences.map Prod.fst) (front : found <+: text)
    (alsoFront : other <+: text) : found = other := by
  have length : ∀ sequence ∈ altWrappedLegacyKeySequences.map Prod.fst, sequence.length = 4 := by decide
  have inside := List.prefix_of_prefix_length_le front alsoFront
    (by rw [length found first, length other second])
  exact inside.eq_of_length (by rw [length found first, length other second])

theorem wrapped_append {found : Text} (matched : matchingAltWrappedLegacySequence text = some found) :
    matchingAltWrappedLegacySequence (text ++ more) = some found := by
  obtain ⟨front, listed⟩ := wrapped_length matched
  have longer : found <+: text ++ more := front.trans (List.prefix_append _ _)
  cases again : matchingAltWrappedLegacySequence (text ++ more) with
  | none =>
    unfold matchingAltWrappedLegacySequence at again
    have fails := List.find?_eq_none.mp again found listed
    exact absurd (List.isPrefixOf_iff_prefix.mpr longer) fails
  | some other =>
    obtain ⟨otherFront, otherListed⟩ := wrapped_length again
    rw [wrapped_unique listed otherListed longer otherFront]

/-- A text that is neither a wrapped sequence nor the beginning of one stays so. -/
theorem notWrapped_append (long : 2 ≤ text.length)
    (plain : completeAltWrappedLegacyStatus text = .notEscape) :
    completeAltWrappedLegacyStatus (text ++ more) = .notEscape := by
  unfold completeAltWrappedLegacyStatus at plain ⊢
  split at plain
  · next single =>
    rw [if_pos]
    rw [Bool.not_eq_true'] at single ⊢
    rw [← Bool.not_eq_true, List.isPrefixOf_iff_prefix] at single ⊢
    intro double
    exact single (List.prefix_of_prefix_length_le double (List.prefix_append _ _) long)
  · next double =>
    split at plain
    · cases plain
    next unmatched =>
    split at plain
    · cases plain
    next unbegun =>
    split
    · rfl
    split
    · next matched =>
      obtain ⟨found, again⟩ := Option.isSome_iff_exists.mp matched
      obtain ⟨front, listed⟩ := wrapped_length again
      rcases List.prefix_or_prefix_of_prefix front (List.prefix_append text more) with inside | longer
      · apply absurd _ unmatched
        unfold matchingAltWrappedLegacySequence
        rw [List.find?_isSome]
        exact ⟨found, listed, List.isPrefixOf_iff_prefix.mpr inside⟩
      · apply absurd _ unbegun
        rw [List.any_eq_true]
        exact ⟨found, listed, List.isPrefixOf_iff_prefix.mpr longer⟩
    split
    · next begun =>
      obtain ⟨found, listed, front⟩ := List.any_eq_true.mp begun
      apply absurd _ unbegun
      rw [List.any_eq_true]
      refine ⟨found, listed, ?_⟩
      rw [List.isPrefixOf_iff_prefix] at front ⊢
      exact (List.prefix_append text more).trans front
    · rfl

theorem sequenceEnd_spec {stop : Nat} :
    sequenceEnd chars text = some stop ↔
      completeEscapeStatus chars (text.take stop) ≠ .incomplete ∧ (1 ≤ stop ∧ stop ≤ text.length) ∧
        ∀ earlier, 1 ≤ earlier → earlier < stop →
          completeEscapeStatus chars (text.take earlier) = .incomplete := by
  unfold sequenceEnd
  rw [List.find?_range'_eq_some]
  simp only [bne_iff_ne, List.mem_range'_1, Bool.not_eq_true', bne_eq_false_iff_eq]
  constructor
  · intro ⟨ended, bound, before⟩
    exact ⟨ended, ⟨by omega, by omega⟩, before⟩
  · intro ⟨ended, bound, before⟩
    exact ⟨ended, ⟨by omega, by omega⟩, before⟩

theorem sequenceEnd_append {stop : Nat} (ended : sequenceEnd chars text = some stop) :
    sequenceEnd chars (text ++ more) = some stop := by
  obtain ⟨complete, ⟨positive, bound⟩, before⟩ := sequenceEnd_spec.mp ended
  refine sequenceEnd_spec.mpr ⟨?_, ⟨positive, ?_⟩, ?_⟩
  · rw [List.take_append_of_le_length bound]
    exact complete
  · rw [List.length_append]
    omega
  · intro earlier positive early
    rw [List.take_append_of_le_length (by omega)]
    exact before earlier positive early

/-- A sequence is the front of the text. -/
theorem nextSequence_split (found : nextSequence chars text = some (sequence, rest)) :
    text = sequence ++ rest ∧ sequence ≠ [] := by
  unfold nextSequence at found
  split at found
  · cases found
  next point behind =>
  split at found
  · cases found
    exact ⟨rfl, List.cons_ne_nil _ _⟩
  next escape =>
  have isEscape : point = esc := not_not.mp escape
  split at found
  · obtain ⟨wrapped, matched, same⟩ := Option.map_eq_some_iff.mp found
    obtain ⟨⟨back, front⟩, listed⟩ := wrapped_length matched
    cases same
    have nonempty : ∀ sequence ∈ altWrappedLegacyKeySequences.map Prod.fst, sequence ≠ [] := by decide
    refine ⟨?_, nonempty _ listed⟩
    rw [← front, List.drop_left]
  · cases found
  · obtain ⟨stop, ended, same⟩ := Option.map_eq_some_iff.mp found
    split at same
    · cases same
      rw [isEscape]
      exact ⟨rfl, List.cons_ne_nil _ _⟩
    · cases same
      obtain ⟨_, ⟨positive, _⟩, _⟩ := sequenceEnd_spec.mp ended
      refine ⟨(List.take_append_drop _ _).symm, ?_⟩
      intro empty
      rw [List.take_eq_nil_iff] at empty
      rcases empty with zero | empty
      · omega
      · cases empty

/-- Two escapes alone are the beginning of a wrapped sequence. -/
theorem escEsc_tail {stop : Nat} (plain : completeAltWrappedLegacyStatus text = .notEscape)
    (pair : text.take stop = [esc, esc]) : text.drop stop ≠ [] := by
  intro ended
  have whole : text = [esc, esc] := by
    rw [← List.take_append_drop stop text, pair, ended, List.append_nil]
  rw [whole] at plain
  revert plain
  decide

theorem startsEscapeTail_append (nonempty : text ≠ []) :
    startsEscapeTail (text ++ more) = startsEscapeTail text := by
  cases text with
  | nil => exact absurd rfl nonempty
  | cons point behind => rfl

/-- More text behind a sequence does not change it. -/
theorem nextSequence_append (found : nextSequence chars text = some (sequence, rest)) (more : Text) :
    nextSequence chars (text ++ more) = some (sequence, rest ++ more) := by
  cases text with
  | nil => cases found
  | cons point behind =>
    unfold nextSequence at found
    dsimp only at found
    rw [List.cons_append]
    unfold nextSequence
    dsimp only
    by_cases escape : point ≠ esc
    · rw [if_pos escape] at found ⊢
      cases found
      rfl
    rw [if_neg escape] at found ⊢
    rw [← List.cons_append]
    cases status : completeAltWrappedLegacyStatus (point :: behind) with
    | complete =>
      rw [status] at found
      obtain ⟨wrapped, matched, same⟩ := Option.map_eq_some_iff.mp found
      cases same
      have longer := @wrapped_append _ more _ matched
      have again : completeAltWrappedLegacyStatus (point :: behind ++ more) = .complete := by
        unfold completeAltWrappedLegacyStatus at status ⊢
        split at status
        · cases status
        next double =>
        rw [if_neg, if_pos]
        · rw [longer]
          rfl
        · intro single
          apply double
          rw [Bool.not_eq_true'] at single ⊢
          rw [← Bool.not_eq_true, List.isPrefixOf_iff_prefix] at single ⊢
          intro front
          exact single (front.trans (List.prefix_append _ _))
      rw [again]
      rw [longer, Option.map_some, List.drop_append_of_le_length (wrapped_length matched).1.length_le]
    | incomplete =>
      rw [status] at found
      cases found
    | notEscape =>
      rw [status] at found
      obtain ⟨stop, ended, same⟩ := Option.map_eq_some_iff.mp found
      obtain ⟨complete, ⟨positive, bound⟩, _⟩ := sequenceEnd_spec.mp ended
      have long : 2 ≤ (point :: behind).length := by
        cases behind with
        | nil =>
          -- An escape alone is not complete.
          have one : stop = 1 := by
            rw [List.length_singleton] at bound
            omega
          rw [one, not_not.mp escape] at complete
          exact absurd rfl complete
        | cons second back =>
          rw [List.length_cons, List.length_cons]
          omega
      rw [notWrapped_append long status]
      rw [sequenceEnd_append ended, Option.map_some, List.take_append_of_le_length bound,
        List.drop_append_of_le_length bound]
      by_cases pair : (point :: behind).take stop = [esc, esc]
      · rw [startsEscapeTail_append (escEsc_tail status pair)]
        split at same
        · next tail =>
          rw [if_pos tail]
          cases same
          rfl
        · next tail =>
          rw [if_neg tail]
          cases same
          rfl
      · rw [if_neg (fun both => pair both.1)] at same ⊢
        cases same
        rfl

end Next

section Extract
variable {chars : Characters} {text more : Text}

theorem nextSequence_length {sequence rest : Text}
    (found : nextSequence chars text = some (sequence, rest)) : rest.length < text.length := by
  obtain ⟨split, nonempty⟩ := nextSequence_split found
  have := List.length_pos_iff.mpr nonempty
  rw [split, List.length_append]
  omega

theorem extractFrom_enough {fuel : Nat} (enough : text.length ≤ fuel) :
    extractFrom chars fuel text = extractFrom chars text.length text := by
  induction fuel using Nat.strong_induction_on generalizing text with
  | _ fuel ih =>
    cases next : nextSequence chars text with
    | none =>
      have stays : ∀ turns, extractFrom chars turns text = ([], text) := by
        intro turns
        cases turns with
        | zero => rfl
        | succ turns =>
          rw [extractFrom, next]
      rw [stays, stays]
    | some found =>
      obtain ⟨sequence, rest⟩ := found
      have shorter := nextSequence_length next
      obtain ⟨turns, same⟩ : ∃ turns, text.length = turns + 1 := ⟨text.length - 1, by omega⟩
      obtain ⟨fuel, rfl⟩ : ∃ before, fuel = before + 1 := ⟨fuel - 1, by omega⟩
      rw [same, extractFrom, extractFrom, next]
      dsimp only
      rw [ih fuel (by omega) (by omega)]
      by_cases more : turns < fuel + 1
      · rw [ih turns more (by omega)]
      · omega

theorem extract_none (stuck : nextSequence chars text = none) :
    extractCompleteSequences chars text = ([], text) := by
  unfold extractCompleteSequences
  cases length : text.length with
  | zero => rfl
  | succ turns => rw [extractFrom, stuck]

theorem extract_some {sequence rest : Text} (found : nextSequence chars text = some (sequence, rest)) :
    extractCompleteSequences chars text =
      (sequence :: (extractCompleteSequences chars rest).1, (extractCompleteSequences chars rest).2) := by
  have shorter := nextSequence_length found
  unfold extractCompleteSequences
  obtain ⟨turns, same⟩ : ∃ turns, text.length = turns + 1 := ⟨text.length - 1, by omega⟩
  rw [same, extractFrom, found]
  dsimp only
  rw [@extractFrom_enough chars rest turns (by omega)]

/-- What is found in a longer text: what is found in the front, and what is found in the remainder
with the text behind it. -/
theorem extract_append (chars : Characters) (text more : Text) :
    extractCompleteSequences chars (text ++ more) =
      ((extractCompleteSequences chars text).1 ++
          (extractCompleteSequences chars ((extractCompleteSequences chars text).2 ++ more)).1,
        (extractCompleteSequences chars ((extractCompleteSequences chars text).2 ++ more)).2) := by
  induction length : text.length using Nat.strong_induction_on generalizing text with
  | _ length ih =>
    cases next : nextSequence chars text with
    | none =>
      rw [extract_none next]
      rfl
    | some found =>
      obtain ⟨sequence, rest⟩ := found
      have shorter := nextSequence_length next
      rw [extract_some next, extract_some (nextSequence_append next more),
        ih rest.length (by omega) rest rfl]
      rfl

/-- No sequence is complete at the start of a remainder. -/
theorem extract_remainder (chars : Characters) (text : Text) :
    nextSequence chars (extractCompleteSequences chars text).2 = none ∧
      (extractCompleteSequences chars text).2 <:+ text := by
  induction length : text.length using Nat.strong_induction_on generalizing text with
  | _ length ih =>
    cases next : nextSequence chars text with
    | none =>
      rw [extract_none next]
      exact ⟨next, List.suffix_rfl⟩
    | some found =>
      obtain ⟨sequence, rest⟩ := found
      have shorter := nextSequence_length next
      obtain ⟨split, _⟩ := nextSequence_split next
      obtain ⟨stuck, ends⟩ := ih rest.length (by omega) rest rfl
      rw [extract_some next]
      refine ⟨stuck, ends.trans ?_⟩
      rw [split]
      exact List.suffix_append _ _

/-- What has to wait had to wait before. -/
theorem waiting_front (stuck : nextSequence chars (text ++ more) = none) :
    nextSequence chars text = none := by
  cases next : nextSequence chars text with
  | none => rfl
  | some found =>
    rw [nextSequence_append next more] at stuck
    cases stuck

end Extract

/-- The beginning of a paste's marker has to wait for the rest. -/
theorem pasteStart_waits (chars : Characters) {length : Nat} (short : length < 6) :
    nextSequence chars (bracketedPasteStart.take length) = none := by
  have longest : nextSequence chars (bracketedPasteStart.take 5) = none := rfl
  have split : bracketedPasteStart.take 5 =
      bracketedPasteStart.take length ++ (bracketedPasteStart.take 5).drop length := by
    have front : (bracketedPasteStart.take 5).take length = bracketedPasteStart.take length := by
      rw [List.take_take, Nat.min_eq_left (by omega)]
    rw [← front, List.take_append_drop]
  rw [split] at longest
  exact waiting_front longest

end Loushang.Tui
