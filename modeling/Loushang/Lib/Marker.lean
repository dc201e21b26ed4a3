import Loushang.Lib.Splice
import Mathlib.Data.List.Infix

/-!
# Markers in a text that arrives in pieces

Where the search for a marker stands when more text comes: a match stays, and a text without one
can be cut down to the end that a marker may begin with.
-/
namespace Loushang.Lib

section Marker

variable {A : Type} [DecidableEq A] {marker text more : List A}

theorem findSub_cons (marker : List A) (a : A) (rest : List A) :
    findSub marker (a :: rest) =
      if marker <+: a :: rest then some 0 else (findSub marker rest).map (· + 1) := by
  rw [findSub]
  by_cases stands : marker <+: a :: rest
  · rw [if_pos stands, if_pos (List.isPrefixOf_iff_prefix.mpr stands)]
  · rw [if_neg stands, if_neg (mt List.isPrefixOf_iff_prefix.mp stands)]

theorem findSub_front (front : marker <+: text) : findSub marker text = some 0 := by
  cases text with
  | nil =>
    rw [List.prefix_nil.mp front]
    rfl
  | cons a rest => rw [findSub_cons, if_pos front]

theorem findSub_append {index : Nat} (found : findSub marker text = some index) :
    findSub marker (text ++ more) = some index := by
  induction text generalizing index with
  | nil =>
    unfold findSub at found
    split at found
    · next empty =>
      subst empty
      cases found
      cases more with
      | nil => rfl
      | cons b rest => rw [List.nil_append, findSub_cons, if_pos List.nil_prefix]
    · cases found
  | cons a rest ih =>
    rw [findSub_cons] at found
    rw [List.cons_append, findSub_cons]
    split at found
    · next stands =>
      rw [if_pos (stands.trans (by rw [← List.cons_append]; apply List.prefix_append))]
      exact found
    · next absent =>
      obtain ⟨before, deeper, rfl⟩ := Option.map_eq_some_iff.mp found
      have later := ih deeper
      by_cases stands : marker <+: a :: (rest ++ more)
      · -- A marker at the front would lie inside the old text, where it was found later.
        have bound := (findSub_spec deeper).1
        have short : marker.length ≤ (a :: rest).length := by
          rw [List.length_cons]
          omega
        rw [← List.cons_append] at stands
        exact absurd (List.prefix_of_prefix_length_le stands (List.prefix_append _ _) short) absent
      · rw [if_neg stands, later]
        rfl

theorem findSub_none_left (absent : findSub marker (text ++ more) = none) :
    findSub marker text = none := by
  cases found : findSub marker text with
  | none => rfl
  | some index => rw [findSub_append found] at absent; cases absent

theorem findSub_drop {skipped index : Nat} (found : findSub marker text = some (skipped + index)) :
    findSub marker (text.drop skipped) = some index := by
  induction skipped generalizing text with
  | zero => rw [Nat.zero_add] at found; exact found
  | succ skipped ih =>
    cases text with
    | nil =>
      unfold findSub at found
      split at found
      · have := Option.some.inj found
        omega
      · cases found
    | cons a rest =>
      rw [findSub_cons] at found
      rw [List.drop_succ_cons]
      apply ih
      split at found
      · have := Option.some.inj found
        omega
      · obtain ⟨before, deeper, same⟩ := Option.map_eq_some_iff.mp found
        rw [deeper]
        congr 1
        omega

theorem findSub_none_drop (absent : findSub marker text = none) (skipped : Nat) :
    findSub marker (text.drop skipped) = none := by
  induction skipped generalizing text with
  | zero => exact absent
  | succ skipped ih =>
    cases text with
    | nil => exact absent
    | cons a rest =>
      rw [findSub_cons] at absent
      rw [List.drop_succ_cons]
      apply ih
      split at absent
      · cases absent
      · exact Option.map_eq_none_iff.mp absent

/-- A marker that is found only with more text ends in that text. -/
theorem findSub_new (absent : findSub marker text = none) {index : Nat}
    (found : findSub marker (text ++ more) = some index) : text.length < index + marker.length := by
  obtain ⟨_, stands⟩ := findSub_spec found
  by_cases inside : index + marker.length ≤ text.length
  · have front : marker <+: text.drop index := by
      rw [List.drop_append_of_le_length (by omega),
        List.take_append_of_le_length (by rw [List.length_drop]; omega)] at stands
      rw [← stands]
      exact List.take_prefix _ _
    have nothing := findSub_none_drop absent index
    rw [findSub_front front] at nothing
    cases nothing
  · omega

/-- The text before the end of the first marker holds none. -/
theorem findSub_take {index length : Nat} (found : findSub marker text = some index)
    (short : length < index + marker.length) : findSub marker (text.take length) = none := by
  cases earlier : findSub marker (text.take length) with
  | none => rfl
  | some first =>
    have bound := (findSub_spec earlier).1
    have same := @findSub_append _ _ _ _ (text.drop length) _ earlier
    rw [List.take_append_drop, found] at same
    cases same
    rw [List.length_take] at bound
    omega

/-- The end of a text that a marker may begin with, short of a whole marker. -/
def held (marker : List A) : List A → List A
  | [] => []
  | a :: rest =>
    if (a :: rest).length < marker.length ∧ a :: rest <+: marker then a :: rest else held marker rest

theorem held_suffix (marker text : List A) : held marker text <:+ text := by
  induction text with
  | nil => exact List.suffix_rfl
  | cons a rest ih =>
    unfold held
    split
    · exact List.suffix_rfl
    · exact ih.trans (List.suffix_cons a rest)

theorem held_begins (marker text : List A) : held marker text <+: marker := by
  induction text with
  | nil => exact List.nil_prefix
  | cons a rest ih =>
    unfold held
    split
    · next begins => exact begins.2
    · exact ih

theorem held_length (marker text : List A) (nonempty : marker ≠ []) :
    (held marker text).length < marker.length := by
  induction text with
  | nil => exact List.length_pos_iff.mpr nonempty
  | cons a rest ih =>
    unfold held
    split
    · next begins => exact begins.1
    · exact ih

theorem held_longest {ending : List A} (ends : ending <:+ text)
    (short : ending.length < marker.length) (begins : ending <+: marker) :
    ending.length ≤ (held marker text).length := by
  induction text with
  | nil =>
    rw [List.suffix_nil.mp ends]
    exact Nat.zero_le _
  | cons a rest ih =>
    unfold held
    split
    · exact ends.length_le
    · next fails =>
      rcases List.suffix_cons_iff.mp ends with rfl | inside
      · exact absurd ⟨short, begins⟩ fails
      · exact ih inside

/-- More text makes the same of the end as of the whole text. -/
theorem held_append (marker text more : List A) :
    held marker (held marker text ++ more) = held marker (text ++ more) := by
  induction text with
  | nil => rfl
  | cons a rest ih =>
    by_cases begins : (a :: rest).length < marker.length ∧ a :: rest <+: marker
    · rw [held, if_pos begins]
    · rw [held, if_neg begins, ih, List.cons_append, held, if_neg]
      intro ⟨short, longer⟩
      rw [← List.cons_append] at short longer
      rw [List.length_append] at short
      exact begins ⟨by omega, (List.prefix_append _ _).trans longer⟩

/-- A text without a marker can be cut down to its end before more text comes. -/
theorem findSub_held (absent : findSub marker text = none) :
    findSub marker (text ++ more) =
      (findSub marker (held marker text ++ more)).map
        (text.length - (held marker text).length + ·) := by
  induction text with
  | nil =>
    rw [held, List.nil_append]
    cases findSub marker more <;> simp
  | cons a rest ih =>
    rw [findSub_cons] at absent
    split at absent
    · cases absent
    next stands =>
    have later := ih (Option.map_eq_none_iff.mp absent)
    have bound := (held_suffix marker rest).length_le
    by_cases begins : (a :: rest).length < marker.length ∧ a :: rest <+: marker
    · rw [held, if_pos begins, Nat.sub_self]
      cases findSub marker (a :: rest ++ more) <;> simp
    · rw [held, if_neg begins, List.cons_append, findSub_cons, if_neg, later, Option.map_map]
      · congr 1
        funext index
        simp only [Function.comp_apply, List.length_cons]
        omega
      · intro front
        rw [← List.cons_append] at front
        rcases List.prefix_or_prefix_of_prefix front (List.prefix_append (a :: rest) more) with
          inside | longer
        · exact stands inside
        · apply begins
          refine ⟨?_, longer⟩
          rcases Nat.lt_or_ge (a :: rest).length marker.length with short | long
          · exact short
          · exact absurd (longer.eq_of_length_le long ▸ List.prefix_rfl) stands

theorem findSub_of_held (absent : findSub marker text = none) :
    findSub marker (held marker text) = none := by
  have search := @findSub_held _ _ _ _ [] absent
  rw [List.append_nil, List.append_nil, absent, eq_comm, Option.map_eq_none_iff] at search
  exact search

/-- A text is what comes before its held end, and that end. -/
theorem take_append_held (marker text : List A) :
    text.take (text.length - (held marker text).length) ++ held marker text = text := by
  obtain ⟨front, split⟩ := held_suffix marker text
  have length : text.length - (held marker text).length = front.length := by
    rw [← split, List.length_append]
    rw [split]
    have := congrArg List.length split
    rw [List.length_append] at this
    omega
  rw [length]
  nth_rewrite 1 [← split]
  rw [List.take_left]
  exact split

end Marker

end Loushang.Lib
