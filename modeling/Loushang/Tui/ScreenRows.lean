import Mathlib.Logic.Function.Basic
import Loushang.Tui.FakeScreen

/-!
# The rows a screen shows

A screen is a window on a tape of rows: it shows the tape from a top row on, and the tape is blank
behind the window. Line feeds move the cursor down the tape and the window with it, and writing
changes the tape at the cursor's row only, so blocks of lines are described without the window.
-/
namespace Loushang.Tui
open Loushang.Lib

/-! ## Trailing whitespace -/

/-- A character that takes a cell of its own and is written as it is: no escape, no whitespace but the
space, and none of the two vowels that `normalize_terminal_output` takes apart. -/
def PlainPoint (point : CodePoint) : Prop :=
  point ≠ 0x1b ∧ point ≠ 0xe33 ∧ point ≠ 0xeb3 ∧ (isSpaceCode point = true → point = 0x20)

instance : DecidablePred PlainPoint := fun point => by
  unfold PlainPoint
  infer_instance

/-- A line of plain characters that does not reach the last column. -/
structure PlainLine (columns : Nat) (line : Text) : Prop where
  short : line.length < columns
  plain : ∀ point ∈ line, PlainPoint point

section Trailing
variable {text front : Text} {columns : Nat}

theorem plainLine_nil (size : TerminalSize) : PlainLine size.columns [] where
  short := size.columns_pos
  plain := by
    intro point member
    cases member

theorem rstrip_nil : rstrip [] = [] := rfl

theorem rstrip_append_spaces (text : Text) (count : Nat) :
    rstrip (text ++ List.replicate count 0x20) = rstrip text := by
  induction count with
  | zero => rw [List.replicate_zero, List.append_nil]
  | succ count ih =>
    rw [List.replicate_succ', ← List.append_assoc]
    unfold rstrip at ih ⊢
    rw [List.rdropWhile_concat_pos _ _ _ (by decide), ih]

/-- Padding brings back the spaces that stripping took. -/
theorem ljust_rstrip (plain : ∀ point ∈ text, PlainPoint point) (fits : text.length ≤ columns) :
    ljust columns (rstrip text) = ljust columns text := by
  have spaces : text.rtakeWhile (fun point : CodePoint => isSpaceCode point) =
      List.replicate (text.rtakeWhile fun point : CodePoint => isSpaceCode point).length 0x20 := by
    refine List.eq_replicate_of_mem ?_
    intro point member
    have inside := (List.rtakeWhile_suffix _ text).subset member
    exact (plain point inside).2.2.2 (List.mem_rtakeWhile_imp (p := fun point : CodePoint => isSpaceCode point) member)
  have parts : rstrip text ++ text.rtakeWhile (fun point : CodePoint => isSpaceCode point) = text :=
    List.rdropWhile_append_rtakeWhile
  have lengths := congrArg List.length parts
  rw [List.length_append] at lengths
  unfold ljust
  conv_rhs => rw [← parts, spaces]
  rw [List.append_assoc, List.replicate_append_replicate, List.length_append, List.length_replicate]
  congr 2
  omega

end Trailing

/-! ## The window on the tape -/

/-- The screen shows the tape from a row on, with the cursor on a row and a column of the tape. -/
structure Shows {size : TerminalSize} (s : FakeScreen size) (top : Nat) (tape : Nat → Text)
    (row column : Nat) : Prop where
  wholeRegion : s.scrollTop = 0 ∧ s.scrollBottom = none
  settled : s.autowrapPending = false
  visible : ∀ i, i < size.rows → s.visibleLines[i]? = some (tape (top + i))
  blankBehind : ∀ i, top + size.rows ≤ i → tape i = []
  rowAt : top + s.cursorRow = row
  columnAt : s.cursorColumn = column

namespace Shows
variable {size : TerminalSize} {s : FakeScreen size} {top row column : Nat} {tape : Nat → Text}

theorem inside (shows : Shows s top tape row column) : top ≤ row ∧ row < top + size.rows := by
  have inside := s.rowInside
  have rowAt := shows.rowAt
  omega

theorem congr (shows : Shows s top tape row column) (tape' : Nat → Text)
    (same : ∀ i, top ≤ i → tape i = tape' i) : Shows s top tape' row column where
  wholeRegion := shows.wholeRegion
  settled := shows.settled
  visible := by
    intro i inside
    rw [shows.visible i inside, same _ (by omega)]
  blankBehind := by
    intro i behind
    rw [← same i (by omega), shows.blankBehind i behind]
  rowAt := shows.rowAt
  columnAt := shows.columnAt

/-- Other names for the rows: the window starts at any row one likes. -/
theorem rebase (shows : Shows s top tape row column) (start : Nat) :
    Shows s start (fun i => tape (top + (i - start))) (start + (row - top)) column where
  wholeRegion := shows.wholeRegion
  settled := shows.settled
  visible := by
    intro i inside
    rw [shows.visible i inside, Nat.add_sub_cancel_left]
  blankBehind := by
    intro i behind
    exact shows.blankBehind _ (by omega)
  rowAt := by
    have rowAt := shows.rowAt
    omega
  columnAt := shows.columnAt

theorem carriageReturn (shows : Shows s top tape row column) :
    Shows s.carriageReturn top tape row 0 where
  wholeRegion := shows.wholeRegion
  settled := rfl
  visible := shows.visible
  blankBehind := shows.blankBehind
  rowAt := shows.rowAt
  columnAt := rfl

theorem moveColumn (shows : Shows s top tape row column) (target : Int) :
    Shows (s.moveColumn target) top tape row (clip size.columns target) where
  wholeRegion := shows.wholeRegion
  settled := rfl
  visible := shows.visible
  blankBehind := shows.blankBehind
  rowAt := shows.rowAt
  columnAt := rfl

theorem moveRow (shows : Shows s top tape row column) (target : Nat) {physical : Int}
    (inside : top ≤ target) (meant : clip size.rows physical = target - top) :
    Shows (s.moveRow physical) top tape target column where
  wholeRegion := shows.wholeRegion
  settled := rfl
  visible := shows.visible
  blankBehind := shows.blankBehind
  rowAt := by
    show top + clip size.rows physical = target
    omega
  columnAt := shows.columnAt

/-- A relative move to a row of the window. -/
theorem moveRelative (shows : Shows s top tape row column) (target : Nat)
    (inside : top ≤ target ∧ target < top + size.rows) :
    Shows (s.applyOne (.moveRelative ((target : Int) - row))) top tape target column := by
  have rowAt := shows.rowAt
  refine shows.moveRow target inside.1 ?_
  unfold clip
  omega

theorem moveCursor (shows : Shows s top tape row column) (target column' : Nat)
    (inside : target < size.rows) (insideColumn : column' < size.columns) :
    Shows (s.applyOne (.moveCursor target column')) top tape (top + target) column' := by
  have moved := @moveRow size s top row column tape shows (top + target) target (Nat.le_add_right _ _) (by
    rw [clip_of_lt inside]
    omega)
  have placed := moved.moveColumn column'
  rwa [clip_of_lt insideColumn] at placed

/-- A line feed: the window follows the cursor when it leaves the last row. -/
theorem newline (shows : Shows s top tape row column) :
    Shows s.newline (max top (row + 2 - size.rows)) tape (row + 1) 0 := by
  have rowInside := s.rowInside
  have rowAt := shows.rowAt
  have regionTop : s.regionTop = 0 := by
    unfold FakeScreen.regionTop
    rw [shows.wholeRegion.1, Nat.zero_min]
  have regionBottom : s.regionBottom = size.rows - 1 := by
    unfold FakeScreen.regionBottom
    rw [regionTop, shows.wholeRegion.2, Option.getD_none, Nat.min_self, Nat.zero_max]
  unfold FakeScreen.newline
  rw [regionTop, regionBottom]
  by_cases last : s.cursorRow + 1 < size.rows
  · rw [if_neg (by omega), dif_pos last, show max top (row + 2 - size.rows) = top by omega]
    refine ⟨shows.wholeRegion, rfl, shows.visible, shows.blankBehind, ?_, rfl⟩
    show top + (s.cursorRow + 1) = row + 1
    omega
  · rw [if_pos (by omega), show max top (row + 2 - size.rows) = top + 1 by omega]
    unfold FakeScreen.scrollRegionUp
    rw [if_pos ⟨regionTop, regionBottom⟩]
    refine ⟨shows.wholeRegion, rfl, ?_, ?_, ?_, rfl⟩
    · intro i inside
      have lengths : s.visibleLines.tail.length = size.rows - 1 := by rw [List.length_tail, s.full]
      show (s.visibleLines.tail ++ [[]])[i]? = some (tape (top + 1 + i))
      by_cases bottom : i + 1 < size.rows
      · rw [List.getElem?_append_left (by omega), List.getElem?_tail, shows.visible _ bottom]
        congr 2
        omega
      · rw [List.getElem?_append_right (by omega), shows.blankBehind _ (by omega), lengths,
          show i - (size.rows - 1) = 0 by omega, List.getElem?_cons_zero]
    · intro i behind
      exact shows.blankBehind i (by omega)
    · show top + 1 + (size.rows - 1) = row + 1
      omega

/-- Another text on the cursor's row. -/
theorem putLine (shows : Shows s top tape row column) (line : Text) :
    Shows (s.putLine s.cursorRow line) top (Function.update tape row line) row column where
  wholeRegion := shows.wholeRegion
  settled := shows.settled
  visible := by
    intro i inside
    have rowAt := shows.rowAt
    show (s.visibleLines.set s.cursorRow line)[i]? = _
    rw [List.getElem?_set]
    by_cases here : s.cursorRow = i
    · rw [if_pos here, if_pos (by rw [s.full]; omega), ← here, rowAt, Function.update_self]
    · rw [if_neg here, shows.visible i inside, Function.update_of_ne (by omega)]
  blankBehind := by
    intro i behind
    have inside := shows.inside
    rw [Function.update_of_ne (by omega), shows.blankBehind i behind]
  rowAt := shows.rowAt
  columnAt := shows.columnAt

theorem clearLine (shows : Shows s top tape row column) :
    Shows (s.applyOne .clearLine) top (Function.update tape row []) row column := by
  have cleared := shows.putLine []
  unfold FakeScreen.applyOne FakeScreen.setLine
  rw [List.take_nil]
  exact ⟨cleared.wholeRegion, rfl, cleared.visible, cleared.blankBehind, cleared.rowAt,
    cleared.columnAt⟩

/-! ## Writing -/

/-- A cell behind what the row holds. -/
theorem put {front : Text} (char : CodePoint) (shows : Shows s top tape row front.length)
    (held : tape row = rstrip front) (plain : ∀ point ∈ front, PlainPoint point)
    (fits : front.length + 1 < size.columns) :
    Shows (s.put char) top (Function.update tape row (rstrip (front ++ [char]))) row
      (front ++ [char]).length := by
  have shown : s.visibleLines[s.cursorRow]? = some (rstrip front) := by
    rw [shows.visible _ s.rowInside, shows.rowAt, held]
  have cell : s.setCell s.cursorRow s.cursorColumn char =
      s.putLine s.cursorRow (rstrip (front ++ [char])) := by
    unfold FakeScreen.setCell
    rw [shown, Option.getD_some, ljust_rstrip plain (by omega), shows.columnAt]
    dsimp only
    congr 1
    have padded : (ljust size.columns front).take front.length ++ [char] ++
        (ljust size.columns front).drop (front.length + 1) =
          front ++ [char] ++ List.replicate (size.columns - front.length - 1) 0x20 := by
      unfold ljust
      rw [List.take_left, List.drop_append, List.drop_of_length_le (by omega), List.nil_append,
        List.drop_replicate]
      congr 2
      omega
    rw [padded, List.take_of_length_le (by
      simp only [List.length_append, List.length_replicate, List.length_singleton]
      omega), rstrip_append_spaces]
  have written := shows.putLine (rstrip (front ++ [char]))
  rw [← cell] at written
  unfold FakeScreen.put
  rw [shows.settled, if_neg Bool.false_ne_true]
  unfold FakeScreen.putCell
  refine ⟨written.wholeRegion, ?_, written.visible, written.blankBehind, written.rowAt, ?_⟩
  · show (!decide (s.cursorColumn + 1 < size.columns)) = false
    rw [shows.columnAt, decide_eq_true fits, Bool.not_true]
  · show (if s.cursorColumn + 1 < size.columns then s.cursorColumn + 1 else s.cursorColumn) = _
    rw [shows.columnAt, if_pos fits, List.length_append, List.length_singleton]

theorem writeBehind_cons {char : CodePoint} (plain : PlainPoint char) (rest : Text) (s : FakeScreen size) :
    FakeScreen.writeBehind 0 (char :: rest) s = FakeScreen.writeBehind 0 rest (s.put char) := by
  obtain ⟨noEscape, _, _, spaces⟩ := plain
  have noReturn : char ≠ 0x0d := by
    intro same
    subst same
    exact absurd (spaces (by decide)) (by decide)
  have noFeed : char ≠ 0x0a := by
    intro same
    subst same
    exact absurd (spaces (by decide)) (by decide)
  rw [FakeScreen.writeBehind, if_neg noEscape, if_neg noReturn, if_neg noFeed]

theorem writeBehind_append {text : Text} (plain : ∀ point ∈ text, PlainPoint point) (rest : Text)
    (s : FakeScreen size) :
    FakeScreen.writeBehind 0 (text ++ rest) s =
      FakeScreen.writeBehind 0 rest (FakeScreen.writeBehind 0 text s) := by
  induction text generalizing s with
  | nil => rfl
  | cons char text ih =>
    have here := plain char List.mem_cons_self
    rw [List.cons_append, writeBehind_cons here, writeBehind_cons here]
    exact ih (fun point member => plain point (List.mem_cons_of_mem _ member)) _

/-- Plain text behind what the row holds already, cell by cell. -/
theorem writeBehind {front text : Text} (shows : Shows s top tape row front.length)
    (held : tape row = rstrip front) (plain : ∀ point ∈ front ++ text, PlainPoint point)
    (fits : (front ++ text).length < size.columns) :
    Shows (FakeScreen.writeBehind 0 text s) top (Function.update tape row (rstrip (front ++ text))) row
      (front ++ text).length := by
  induction text generalizing s front tape with
  | nil =>
    rw [List.append_nil, ← held, Function.update_eq_self]
    exact shows
  | cons char text ih =>
    have parts : front ++ char :: text = (front ++ [char]) ++ text := List.append_cons _ _ _
    have plainFront : ∀ point ∈ front, PlainPoint point :=
      fun point member => plain point (List.mem_append_left _ member)
    have plainChar := plain char (List.mem_append_right _ List.mem_cons_self)
    rw [writeBehind_cons plainChar, parts]
    rw [parts] at plain fits
    have next := shows.put char held plainFront (by
      simp only [List.length_append, List.length_singleton] at fits
      omega)
    have written := ih next (by rw [Function.update_self]) plain fits
    rwa [Function.update_idem] at written

/-- A line on a blank row. -/
theorem write {line : Text} (shows : Shows s top tape row 0) (blank : tape row = [])
    (plain : PlainLine size.columns line) :
    Shows (s.applyOne (.write line)) top (Function.update tape row (rstrip line)) row line.length := by
  have front : tape row = rstrip [] := blank
  exact @writeBehind size s top row tape [] line shows front plain.plain plain.short

/-- A line that breaks behind its text. -/
theorem writeBroken {line : Text} (shows : Shows s top tape row 0) (blank : tape row = [])
    (plain : PlainLine size.columns line) :
    Shows (s.applyOne (.write (line ++ [0x0d, 0x0a]))) (max top (row + 2 - size.rows))
      (Function.update tape row (rstrip line)) (row + 1) 0 := by
  have broken : s.applyOne (.write (line ++ [0x0d, 0x0a])) =
      ((s.applyOne (.write line)).carriageReturn).newline := writeBehind_append plain.plain _ s
  rw [broken]
  exact (shows.write blank plain).carriageReturn.newline

end Shows

/-! ## Lines below each other -/

/-- The tape with lines from a row on. -/
def written (tape : Nat → Text) : Nat → List Text → Nat → Text
  | _, [] => tape
  | row, line :: rest => written (Function.update tape row (rstrip line)) (row + 1) rest

theorem written_of_lt (tape : Nat → Text) {row i : Nat} (lines : List Text) (above : i < row) :
    written tape row lines i = tape i := by
  induction lines generalizing tape row with
  | nil => rfl
  | cons line rest ih =>
    rw [written, ih _ (by omega), Function.update_of_ne (by omega)]

theorem written_add (tape : Nat → Text) (row i : Nat) (lines : List Text) :
    written tape row lines (row + i) = ((lines[i]?).map rstrip).getD (tape (row + i)) := by
  induction lines generalizing tape row i with
  | nil => rfl
  | cons line rest ih =>
    rw [written]
    cases i with
    | zero =>
      rw [written_of_lt _ _ (by omega)]
      exact Function.update_self _ _ _
    | succ i =>
      rw [show row + (i + 1) = row + 1 + i by omega, ih, List.getElem?_cons_succ,
        Function.update_of_ne (by omega)]

theorem written_append (tape : Nat → Text) (row : Nat) (front back : List Text) :
    written tape row (front ++ back) = written (written tape row front) (row + front.length) back := by
  induction front generalizing tape row with
  | nil => rfl
  | cons line rest ih =>
    rw [List.cons_append, written, written, ih, List.length_cons, show row + 1 + rest.length =
      row + (rest.length + 1) by omega]

end Loushang.Tui
