import Mathlib.Data.List.Basic

/-!
# Text framed by CR, LF and CRLF

Every maximal line ending closes a line; what follows the last one is a line of
its own, unless nothing follows. A front that ends in an ending can be taken
apart from what comes after it, provided a CR at its end is not the first half of
a CRLF.
-/
namespace Loushang.Lib

def isEnding (c : Char) : Bool := c == '\n' || c == '\r'

/-- The lines of a text, without their endings. -/
def lines : List Char → List (List Char)
  | [] => []
  | '\r' :: '\n' :: rest => [] :: lines rest
  | c :: rest =>
    if isEnding c then [] :: lines rest
    else match lines rest with
      | [] => [[c]]
      | line :: more => (c :: line) :: more

/-- Does the text end in a line ending? -/
def endsLine (text : List Char) : Bool := text.getLast?.any isEnding

/-- Nothing is left open: no text, or a text whose last line is closed. -/
def Closed (text : List Char) : Prop := text = [] ∨ endsLine text = true

/-- The boundary between the two texts is not inside a CRLF. -/
def Apart (front back : List Char) : Prop := front.getLast? = some '\r' → back.head? ≠ some '\n'

/-- Reading with universal newlines. -/
def universalNewlines : List Char → List Char
  | [] => []
  | '\r' :: '\n' :: rest => '\n' :: universalNewlines rest
  | c :: rest => (if isEnding c then '\n' else c) :: universalNewlines rest

/-- Where each ending ends, counted from `base`. -/
def lineEnds : Nat → List Char → List Nat
  | _, [] => []
  | base, '\r' :: '\n' :: rest => (base + 2) :: lineEnds (base + 2) rest
  | base, c :: rest =>
    if isEnding c then (base + 1) :: lineEnds (base + 1) rest else lineEnds (base + 1) rest

/-! ## One character at a time -/

theorem lines_crlf (rest : List Char) : lines ('\r' :: '\n' :: rest) = [] :: lines rest := by
  rw [lines]

variable {c : Char} {rest : List Char}

theorem lines_ending (ending : isEnding c = true) (apart : c = '\r' → rest.head? ≠ some '\n') :
    lines (c :: rest) = [] :: lines rest := by
  rw [lines]
  · simp [ending]
  · rintro other rfl rfl
    exact apart rfl rfl

theorem lines_char (other : isEnding c = false) :
    lines (c :: rest) = match lines rest with
      | [] => [[c]]
      | line :: more => (c :: line) :: more := by
  rw [lines]
  · simp [other]
  · rintro _ rfl _
    cases other

theorem lineEnds_ending {base : Nat} (ending : isEnding c = true) (apart : c = '\r' → rest.head? ≠ some '\n') :
    lineEnds base (c :: rest) = (base + 1) :: lineEnds (base + 1) rest := by
  rw [lineEnds]
  · simp [ending]
  · rintro other rfl rfl
    exact apart rfl rfl

theorem lineEnds_char {base : Nat} (other : isEnding c = false) :
    lineEnds base (c :: rest) = lineEnds (base + 1) rest := by
  rw [lineEnds]
  · simp [other]
  · rintro _ rfl _
    cases other

variable {text : List Char}

theorem lines_ne_nil (nonempty : text ≠ []) : lines text ≠ [] := by
  cases text with
  | nil => exact absurd rfl nonempty
  | cons c rest =>
    cases kind : isEnding c with
    | false =>
      rw [lines_char kind]
      split <;> simp
    | true =>
      by_cases pair : c = '\r' ∧ rest.head? = some '\n'
      · obtain ⟨rfl, next⟩ := pair
        obtain ⟨more, rfl⟩ := List.head?_eq_some_iff.mp next
        simp [lines_crlf]
      · simp [lines_ending kind fun cr lf => pair ⟨cr, lf⟩]

theorem endsLine_cons {c : Char} {rest : List Char} (nonempty : rest ≠ []) :
    endsLine (c :: rest) = endsLine rest := by
  cases rest with
  | nil => exact absurd rfl nonempty
  | cons next more => simp [endsLine, List.getLast?_cons_cons]

theorem Closed.tail {c : Char} {rest : List Char} (closed : Closed (c :: rest)) : Closed rest := by
  by_cases nonempty : rest = []
  · exact Or.inl nonempty
  · rcases closed with nothing | ends
    · cases nothing
    · exact Or.inr (endsLine_cons nonempty ▸ ends)

theorem Closed.cons {c : Char} {rest : List Char} (closed : Closed rest) (nonempty : rest ≠ []) :
    Closed (c :: rest) := by
  rcases closed with nothing | ends
  · exact absurd nothing nonempty
  · exact Or.inr ((endsLine_cons nonempty).trans ends)

theorem Apart.tail {c : Char} {front back : List Char} (apart : Apart (c :: front) back) :
    Apart front back := by
  intro last
  refine apart ?_
  cases front with
  | nil => cases last
  | cons next more => rwa [List.getLast?_cons_cons]

/-- A recursion over a text ending by ending. -/
theorem text_induction {motive : List Char → Prop} (nil : motive [])
    (crlf : ∀ rest, motive rest → motive ('\r' :: '\n' :: rest))
    (ending : ∀ c rest, isEnding c = true → (c = '\r' → rest.head? ≠ some '\n') → motive rest →
      motive (c :: rest))
    (char : ∀ c rest, isEnding c = false → motive rest → motive (c :: rest)) :
    ∀ text, motive text
  | [] => nil
  | '\r' :: '\n' :: rest => crlf rest (text_induction nil crlf ending char rest)
  | c :: rest => by
    have later := text_induction nil crlf ending char rest
    cases kind : isEnding c with
    | false => exact char c rest kind later
    | true =>
      by_cases pair : c = '\r' ∧ rest.head? = some '\n'
      · obtain ⟨rfl, next⟩ := pair
        obtain ⟨more, rfl⟩ := List.head?_eq_some_iff.mp next
        exact crlf more (text_induction nil crlf ending char more)
      · exact ending c rest kind (fun cr lf => pair ⟨cr, lf⟩) later

/-! ## Closed fronts -/

/-- A closed front contributes its lines and nothing else. -/
theorem lines_append {front back : List Char} (closed : Closed front) (apart : Apart front back) :
    lines (front ++ back) = lines front ++ lines back := by
  induction front using text_induction with
  | nil => rfl
  | crlf rest ih =>
    simp only [List.cons_append, lines_crlf]
    rw [ih closed.tail.tail apart.tail.tail]
  | ending c rest kind alone ih =>
    have stillAlone : c = '\r' → (rest ++ back).head? ≠ some '\n' := by
      rintro rfl next
      cases rest with
      | nil => exact apart rfl next
      | cons first more => exact alone rfl next
    rw [List.cons_append, lines_ending kind stillAlone, lines_ending kind alone,
      ih closed.tail apart.tail]
    rfl
  | char c rest kind ih =>
    have nonempty : rest ≠ [] := by
      rintro rfl
      rcases closed with nothing | ends
      · cases nothing
      · simp [endsLine, kind] at ends
    obtain ⟨line, more, found⟩ := List.exists_cons_of_ne_nil (lines_ne_nil nonempty)
    rw [List.cons_append, lines_char kind, lines_char kind, ih closed.tail apart.tail, found]
    rfl

/-- Text without endings is one line. -/
theorem lines_of_unbroken (nonempty : text ≠ []) (unbroken : ∀ c ∈ text, isEnding c = false) :
    lines text = [text] := by
  induction text with
  | nil => exact absurd rfl nonempty
  | cons c rest ih =>
    rw [lines_char (unbroken c List.mem_cons_self)]
    by_cases last : rest = []
    · rw [last]
      rfl
    · rw [ih last fun d member => unbroken d (List.mem_cons_of_mem _ member)]

/-- Where a line starts: a closed front holds exactly the lines before it. -/
structure LineStart (text : List Char) (index : Nat) (front back : List Char) : Prop where
  split : text = front ++ back
  nonempty : back ≠ []
  closed : Closed front
  apart : Apart front back
  before : lines front = (lines text).take index
  first : index = 0 → front = []
  offset : 0 < index → ∀ base, (lineEnds base text)[index - 1]? = some (base + front.length)

theorem LineStart.zero (nonempty : text ≠ []) : LineStart text 0 [] text :=
  ⟨rfl, nonempty, Or.inl rfl, by rintro ⟨⟩, rfl, fun _ => rfl, fun positive => absurd positive (by simp)⟩

theorem exists_lineStart :
    ∀ {index : Nat}, index < (lines text).length → ∃ front back, LineStart text index front back := by
  induction text using text_induction with
  | nil =>
    intro index inside
    simp [lines] at inside
  | crlf rest ih =>
    intro index inside
    cases index with
    | zero => exact ⟨[], _, LineStart.zero (by simp)⟩
    | succ index =>
      rw [lines_crlf, List.length_cons] at inside
      obtain ⟨front, back, start⟩ := ih (Nat.lt_of_succ_lt_succ inside)
      refine ⟨'\r' :: '\n' :: front, back, by rw [start.split]; rfl, start.nonempty, ?_, ?_, ?_,
        by simp, ?_⟩
      · rcases start.closed with rfl | ends
        · exact Or.inr rfl
        · exact (Closed.cons (Or.inr ends) (by rintro rfl; cases ends)).cons (by simp)
      · cases front with
        | nil => exact fun last => absurd last (by decide)
        | cons c more =>
          intro last
          rw [List.getLast?_cons_cons, List.getLast?_cons_cons] at last
          exact start.apart last
      · rw [lines_crlf, lines_crlf, start.before, List.take_succ_cons]
      · intro _ base
        rw [lineEnds]
        cases index with
        | zero =>
          rw [start.first rfl]
          rfl
        | succ index =>
          have there := start.offset (Nat.succ_pos index) (base + 2)
          simp only [Nat.add_sub_cancel, List.getElem?_cons_succ, List.length_cons] at there ⊢
          rw [there]
          congr 1
          omega
  | ending c rest kind alone ih =>
    intro index inside
    cases index with
    | zero => exact ⟨[], _, LineStart.zero (by simp)⟩
    | succ index =>
      rw [lines_ending kind alone, List.length_cons] at inside
      obtain ⟨front, back, start⟩ := ih (Nat.lt_of_succ_lt_succ inside)
      have stillAlone : c = '\r' → front.head? ≠ some '\n' := by
        intro cr next
        refine alone cr ?_
        rw [start.split, List.head?_append, next]
        rfl
      refine ⟨c :: front, back, by rw [start.split]; rfl, start.nonempty, ?_, ?_, ?_, by simp, ?_⟩
      · rcases start.closed with rfl | ends
        · exact Or.inr (by simp [endsLine, kind])
        · exact Closed.cons (Or.inr ends) (by rintro rfl; cases ends)
      · cases front with
        | nil =>
          rintro last next
          simp only [List.getLast?_singleton, Option.some.injEq] at last
          refine alone last ?_
          rw [start.split]
          exact next
        | cons d more =>
          intro last
          rw [List.getLast?_cons_cons] at last
          exact start.apart last
      · rw [lines_ending kind stillAlone, lines_ending kind alone, start.before, List.take_succ_cons]
      · intro _ base
        rw [lineEnds_ending kind alone]
        cases index with
        | zero =>
          rw [start.first rfl]
          rfl
        | succ index =>
          have there := start.offset (Nat.succ_pos index) (base + 1)
          simp only [Nat.add_sub_cancel, List.getElem?_cons_succ, List.length_cons] at there ⊢
          rw [there]
          congr 1
          omega
  | char c rest kind ih =>
    intro index inside
    cases index with
    | zero => exact ⟨[], _, LineStart.zero (by simp)⟩
    | succ index =>
      rw [lines_char kind] at inside
      cases found : lines rest with
      | nil => simp [found] at inside
      | cons line more =>
        rw [found] at inside
        obtain ⟨front, back, start⟩ := @ih (index + 1) (by rw [found]; exact inside)
        have nonempty : front ≠ [] := by
          rintro rfl
          have before := start.before
          rw [found] at before
          cases before
        refine ⟨c :: front, back, by rw [start.split]; rfl, start.nonempty, start.closed.cons nonempty,
          ?_, ?_, by simp, ?_⟩
        · cases front with
          | nil => exact absurd rfl nonempty
          | cons d more =>
            intro last
            rw [List.getLast?_cons_cons] at last
            exact start.apart last
        · rw [lines_char kind, lines_char kind, start.before, found]
          rfl
        · intro positive base
          rw [lineEnds_char kind, start.offset positive (base + 1), List.length_cons]
          congr 1
          omega

/-! ## Universal newlines -/

theorem universalNewlines_ending (ending : isEnding c = true) (apart : c = '\r' → rest.head? ≠ some '\n') :
    universalNewlines (c :: rest) = '\n' :: universalNewlines rest := by
  rw [universalNewlines]
  · simp [ending]
  · rintro other rfl rfl
    exact apart rfl rfl

theorem universalNewlines_char (other : isEnding c = false) :
    universalNewlines (c :: rest) = c :: universalNewlines rest := by
  rw [universalNewlines]
  · simp [other]
  · rintro _ rfl _
    cases other

theorem universalNewlines_eq_nil : universalNewlines text = [] ↔ text = [] := by
  induction text using text_induction with
  | nil => simp [universalNewlines]
  | crlf rest => simp [universalNewlines]
  | ending c rest kind alone => simp [universalNewlines_ending kind alone]
  | char c rest kind => simp [universalNewlines_char kind]

theorem lines_universalNewlines (text : List Char) : lines (universalNewlines text) = lines text := by
  induction text using text_induction with
  | nil => rfl
  | crlf rest ih =>
    have alone : '\n' = '\r' → (universalNewlines rest).head? ≠ some '\n' := fun same => by cases same
    rw [universalNewlines, lines_ending (by rfl) alone, lines_crlf, ih]
  | ending c rest kind alone ih =>
    have stillAlone : '\n' = '\r' → (universalNewlines rest).head? ≠ some '\n' :=
      fun same => by cases same
    rw [universalNewlines_ending kind alone, lines_ending (by rfl) stillAlone, lines_ending kind alone, ih]
  | char c rest kind ih =>
    rw [universalNewlines_char kind, lines_char kind, lines_char kind, ih]

theorem endsLine_universalNewlines (text : List Char) :
    endsLine (universalNewlines text) = endsLine text := by
  have step : ∀ (c d : Char) (rest : List Char), isEnding c = isEnding d →
      endsLine (universalNewlines rest) = endsLine rest →
      endsLine (c :: universalNewlines rest) = endsLine (d :: rest) := by
    intro c d rest same ih
    by_cases last : rest = []
    · subst last
      simp [universalNewlines, endsLine, same]
    · rw [endsLine_cons last, endsLine_cons (mt universalNewlines_eq_nil.mp last), ih]
  induction text using text_induction with
  | nil => rfl
  | crlf rest ih =>
    rw [universalNewlines, @endsLine_cons '\r' ('\n' :: rest) (by simp)]
    exact step _ _ rest rfl ih
  | ending c rest kind alone ih =>
    rw [universalNewlines_ending kind alone]
    exact step _ _ rest kind.symm ih
  | char c rest kind ih =>
    rw [universalNewlines_char kind]
    exact step _ _ rest rfl ih

/-! ## Splitting and open tails -/

/-- All pieces between endings, the one after the last included. -/
def splitEndings : List Char → List (List Char)
  | [] => [[]]
  | '\r' :: '\n' :: rest => [] :: splitEndings rest
  | c :: rest =>
    if isEnding c then [] :: splitEndings rest
    else match splitEndings rest with
      | [] => [[c]]
      | piece :: more => (c :: piece) :: more

theorem splitEndings_eq (text : List Char) :
    (Closed text → splitEndings text = lines text ++ [[]]) ∧
      (¬ Closed text → splitEndings text = lines text) := by
  induction text using text_induction with
  | nil => exact ⟨fun _ => rfl, fun opened => absurd (Or.inl rfl) opened⟩
  | crlf rest ih =>
    rw [splitEndings, lines_crlf]
    refine ⟨fun closed => by rw [ih.1 closed.tail.tail]; rfl, fun opened => ?_⟩
    rw [ih.2]
    rintro (rfl | ends)
    · exact opened (Or.inr rfl)
    · have nonempty : rest ≠ [] := by rintro rfl; cases ends
      exact opened ((Closed.cons (Or.inr ends) nonempty).cons (by simp))
  | ending c rest kind alone ih =>
    have split : splitEndings (c :: rest) = [] :: splitEndings rest := by
      rw [splitEndings]
      · simp [kind]
      · rintro other rfl rfl
        exact alone rfl rfl
    rw [split, lines_ending kind alone]
    refine ⟨fun closed => by rw [ih.1 closed.tail]; rfl, fun opened => ?_⟩
    rw [ih.2]
    rintro (rfl | ends)
    · exact opened (Or.inr (by simp [endsLine, kind]))
    · exact opened (Closed.cons (Or.inr ends) (by rintro rfl; cases ends))
  | char c rest kind ih =>
    have split : splitEndings (c :: rest) = match splitEndings rest with
        | [] => [[c]]
        | piece :: more => (c :: piece) :: more := by
      rw [splitEndings]
      · simp [kind]
      · rintro _ rfl _
        cases kind
    rw [split, lines_char kind]
    by_cases last : rest = []
    · subst last
      refine ⟨fun closed => ?_, fun _ => rfl⟩
      rcases closed with nothing | ends
      · cases nothing
      · simp [endsLine, kind] at ends
    · obtain ⟨line, more, found⟩ := List.exists_cons_of_ne_nil (lines_ne_nil last)
      refine ⟨fun closed => by rw [ih.1 closed.tail, found]; rfl, fun opened => ?_⟩
      rw [ih.2 fun closed => opened (closed.cons last)]

/-- Without CR only LF ends a line. -/
theorem splitOn_eq_splitEndings (noCr : '\r' ∉ text) : text.splitOn '\n' = splitEndings text := by
  induction text using text_induction with
  | nil => rfl
  | crlf rest => exact absurd List.mem_cons_self noCr
  | ending c rest kind alone ih =>
    have lf : c = '\n' := by
      have notCr : c ≠ '\r' := fun same => noCr (same ▸ List.mem_cons_self)
      simpa [isEnding, notCr] using kind
    subst lf
    have later := ih fun member => noCr (List.mem_cons_of_mem _ member)
    rw [splitEndings]
    · simp [List.splitOn, List.splitOnP_cons_eq_if_modifyHead, isEnding, ← later]
    · rintro _ ⟨⟩
  | char c rest kind ih =>
    have later := ih fun member => noCr (List.mem_cons_of_mem _ member)
    have notLf : c ≠ '\n' := by
      rintro rfl
      cases kind
    rw [splitEndings]
    · obtain ⟨piece, more, found⟩ := List.exists_cons_of_ne_nil (List.splitOnP_ne_nil (· == '\n') rest)
      have found' : splitEndings rest = piece :: more := later.symm.trans found
      simp [List.splitOn, List.splitOnP_cons_eq_if_modifyHead, notLf, kind, found, found']
    · rintro _ rfl _
      cases kind

/-- An open text ends in one unbroken line. -/
theorem exists_open_line (opened : ¬ Closed text) :
    ∃ front last, text = front ++ last ∧ Closed front ∧ last ≠ [] ∧
      ∀ c ∈ last, isEnding c = false := by
  induction text using text_induction with
  | nil => exact absurd (Or.inl rfl) opened
  | crlf rest ih =>
    obtain ⟨front, last, rfl, closed, nonempty, unbroken⟩ := ih (by
      rintro (rfl | ends)
      · exact opened (Or.inr rfl)
      · have nonempty : rest ≠ [] := by rintro rfl; cases ends
        exact opened ((Closed.cons (Or.inr ends) nonempty).cons (by simp)))
    refine ⟨'\r' :: '\n' :: front, last, rfl, ?_, nonempty, unbroken⟩
    rcases closed with rfl | ends
    · exact Or.inr rfl
    · exact (Closed.cons (Or.inr ends) (by rintro rfl; cases ends)).cons (by simp)
  | ending c rest kind alone ih =>
    obtain ⟨front, last, rfl, closed, nonempty, unbroken⟩ := ih (by
      rintro (rfl | ends)
      · exact opened (Or.inr (by simp [endsLine, kind]))
      · exact opened (Closed.cons (Or.inr ends) (by rintro rfl; cases ends)))
    refine ⟨c :: front, last, rfl, ?_, nonempty, unbroken⟩
    rcases closed with rfl | ends
    · exact Or.inr (by simp [endsLine, kind])
    · exact Closed.cons (Or.inr ends) (by rintro rfl; cases ends)
  | char c rest kind ih =>
    by_cases last : rest = []
    · subst last
      exact ⟨[], [c], rfl, Or.inl rfl, by simp, by simpa using kind⟩
    · obtain ⟨front, final, rfl, closed, nonempty, unbroken⟩ := ih fun closed =>
        opened (closed.cons last)
      by_cases start : front = []
      · subst start
        refine ⟨[], c :: final, rfl, Or.inl rfl, by simp, ?_⟩
        rintro d (_ | ⟨_, member⟩)
        · exact kind
        · exact unbroken d member
      · exact ⟨c :: front, final, rfl, closed.cons start, nonempty, unbroken⟩

end Loushang.Lib
