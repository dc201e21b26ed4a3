import Loushang.Tui.InputKeys
import Mathlib.Data.List.DropRight

/-!
# The screen a plan is played on

`FakeScreen` of `terminal.py`: what a terminal shows after the operations of a render plan. A row is
the text of its cells without trailing whitespace, one character a cell. The styles of the cells, and
the operations for titles and progress, which change no cell, are not modelled.
-/
namespace Loushang.Tui
open Loushang.Lib

structure TerminalSize where
  columns : Nat
  rows : Nat
  columns_pos : 0 < columns
  rows_pos : 0 < rows

/-- `TerminalOperation`, by its kind. -/
inductive TerminalOperation where
  | write (text : Text)
  | beginSynchronizedUpdate
  | endSynchronizedUpdate
  | carriageReturn
  | newline
  | clearLine
  | clearFromCursor
  | clearScreen
  | clearScrollback
  | setScrollRegion (top bottom : Int)
  | resetScrollRegion
  | moveCursor (row column : Int)
  | moveRelative (lines : Int)
  | moveColumn (column : Int)
  | hideCursor
  | showCursor

/-- `text.rstrip()`. -/
def rstrip (text : Text) : Text := text.rdropWhile fun point : CodePoint => isSpaceCode point

/-- `text.ljust(columns)`. -/
def ljust (columns : Nat) (text : Text) : Text := text ++ List.replicate (columns - text.length) 0x20

/-- `max(0, min(value, limit - 1))`. -/
def clip (limit : Nat) (value : Int) : Nat := (max 0 (min value ((limit : Int) - 1))).toNat

theorem clip_lt {limit : Nat} (positive : 0 < limit) (value : Int) : clip limit value < limit := by
  unfold clip
  omega

theorem clip_of_lt {limit value : Nat} (inside : value < limit) : clip limit value = value := by
  unfold clip
  omega

/-- The length of what a CSI sequence holds behind its introducer. -/
def csiLength : Text → Nat
  | [] => 0
  | point :: rest => if 0x40 ≤ point ∧ point ≤ 0x7e then 1 else csiLength rest + 1

/-- The length of what an OSC or APC sequence holds behind its introducer. -/
def oscLength : Text → Nat
  | [] => 0
  | 0x07 :: _ => 1
  | 0x1b :: 0x5c :: _ => 2
  | _ :: rest => oscLength rest + 1

/-- The length of `_extract_control_sequence` where the text behind an escape is given. -/
def controlLength : Text → Nat
  | [] => 1
  | introducer :: rest =>
    if introducer = 0x5b then csiLength rest + 2
    else if introducer = 0x5d ∨ introducer = 0x5f then oscLength rest + 2
    else 2

/-- `FakeScreen`; its rows are all there, and the cursor stands on one of its cells. -/
structure FakeScreen (size : TerminalSize) where
  visibleLines : List Text
  full : visibleLines.length = size.rows
  cursorRow : Nat
  rowInside : cursorRow < size.rows
  cursorColumn : Nat
  columnInside : cursorColumn < size.columns
  scrollbackLines : List Text := []
  viewportTop : Nat := 0
  scrollTop : Nat := 0
  scrollBottom : Option Nat := none
  scrollbackCleared : Bool := false
  autowrapPending : Bool := false

namespace FakeScreen
variable {size : TerminalSize}

def empty (size : TerminalSize) : FakeScreen size where
  visibleLines := List.replicate size.rows []
  full := List.length_replicate
  cursorRow := 0
  rowInside := size.rows_pos
  cursorColumn := 0
  columnInside := size.columns_pos

/-- `_set_line`, with the line cut by the caller. -/
def putLine (s : FakeScreen size) (row : Nat) (line : Text) : FakeScreen size :=
  { s with
    visibleLines := s.visibleLines.set row line
    full := by rw [List.length_set, s.full] }

/-- `_set_line`. -/
def setLine (s : FakeScreen size) (row : Nat) (text : Text) : FakeScreen size :=
  s.putLine row (text.take size.columns)

/-- `_set_cell`. -/
def setCell (s : FakeScreen size) (row column : Nat) (char : CodePoint) : FakeScreen size :=
  let padded := ljust size.columns ((s.visibleLines[row]?).getD [])
  let updated := padded.take column ++ [char] ++ padded.drop (column + 1)
  s.putLine row (rstrip (updated.take size.columns))

/-- The screen moves up by a row; the first one goes to the scrollback. -/
def scrolled (s : FakeScreen size) : FakeScreen size :=
  { s with
    visibleLines := s.visibleLines.tail ++ [[]]
    full := by
      have positive := size.rows_pos
      rw [List.length_append, List.length_tail, s.full, List.length_singleton]
      omega
    scrollbackLines := s.scrollbackLines ++ s.visibleLines.take 1
    cursorRow := size.rows - 1
    rowInside := Nat.sub_lt size.rows_pos Nat.one_pos
    cursorColumn := 0
    columnInside := size.columns_pos
    viewportTop := s.viewportTop + 1
    autowrapPending := false }

/-- `_scroll_region_bounds`. -/
def regionTop (s : FakeScreen size) : Nat := min s.scrollTop (size.rows - 1)

def regionBottom (s : FakeScreen size) : Nat :=
  max s.regionTop (min (s.scrollBottom.getD (size.rows - 1)) (size.rows - 1))

theorem regionBottom_lt (s : FakeScreen size) : s.regionBottom < size.rows := by
  have positive := size.rows_pos
  unfold regionBottom regionTop
  omega

/-- `_scroll_region_up`. -/
def scrollRegionUp (s : FakeScreen size) : FakeScreen size :=
  if s.regionTop = 0 ∧ s.regionBottom = size.rows - 1 then s.scrolled
  else
    { s with
      visibleLines := s.visibleLines.mapIdx fun row line =>
        if s.regionTop ≤ row ∧ row < s.regionBottom then (s.visibleLines[row + 1]?).getD []
        else if row = s.regionBottom then []
        else line
      full := by rw [List.length_mapIdx, s.full]
      cursorRow := s.regionBottom
      rowInside := s.regionBottom_lt
      cursorColumn := 0
      columnInside := size.columns_pos
      autowrapPending := false }

/-- `_newline`. -/
def newline (s : FakeScreen size) : FakeScreen size :=
  if s.regionTop ≤ s.cursorRow ∧ s.regionBottom ≤ s.cursorRow then s.scrollRegionUp
  else if last : s.cursorRow + 1 < size.rows then
    { s with
      cursorRow := s.cursorRow + 1
      rowInside := last
      cursorColumn := 0
      columnInside := size.columns_pos
      autowrapPending := false }
  else s.scrolled

def carriageReturn (s : FakeScreen size) : FakeScreen size :=
  { s with
    cursorColumn := 0
    columnInside := size.columns_pos
    autowrapPending := false }

/-- The cell under the cursor; behind the last column the cursor stays, and the next character wraps. -/
def putCell (s : FakeScreen size) (char : CodePoint) : FakeScreen size :=
  { s.setCell s.cursorRow s.cursorColumn char with
    cursorColumn := if s.cursorColumn + 1 < size.columns then s.cursorColumn + 1 else s.cursorColumn
    columnInside := by
      split
      · assumption
      · exact s.columnInside
    autowrapPending := !decide (s.cursorColumn + 1 < size.columns) }

/-- A character of `_write` that is neither a control nor a line break. -/
def put (s : FakeScreen size) (char : CodePoint) : FakeScreen size :=
  (if s.autowrapPending then s.newline else s).putCell char

/-- `_write`, where a number of characters still belongs to a control sequence; controls change styles
only. -/
def writeBehind : Nat → Text → FakeScreen size → FakeScreen size
  | _, [], s => s
  | skipped + 1, _ :: rest, s => writeBehind skipped rest s
  | 0, char :: rest, s =>
    if char = 0x1b then writeBehind (controlLength rest - 1) rest s
    else if char = 0x0d then writeBehind 0 rest s.carriageReturn
    else if char = 0x0a then writeBehind 0 rest s.newline
    else writeBehind 0 rest (s.put char)

/-- `_write`. -/
def write (s : FakeScreen size) (text : Text) : FakeScreen size := writeBehind 0 text s

/-- `_clear_from_cursor`. -/
def clearFromCursor (s : FakeScreen size) : FakeScreen size :=
  { s with
    visibleLines := s.visibleLines.mapIdx fun row line =>
      if row < s.cursorRow then line
      else if row = s.cursorRow then rstrip (line.take s.cursorColumn)
      else []
    full := by rw [List.length_mapIdx, s.full]
    autowrapPending := false }

def moveColumn (s : FakeScreen size) (column : Int) : FakeScreen size :=
  { s with
    cursorColumn := clip size.columns column
    columnInside := clip_lt size.columns_pos column
    autowrapPending := false }

/-- The cursor on the row nearest to the given one. -/
def moveRow (s : FakeScreen size) (row : Int) : FakeScreen size :=
  { s with
    cursorRow := clip size.rows row
    rowInside := clip_lt size.rows_pos row
    autowrapPending := false }

/-- `_apply_one`. -/
def applyOne (s : FakeScreen size) : TerminalOperation → FakeScreen size
  | .write text => s.write text
  | .newline => s.newline
  | .carriageReturn => s.carriageReturn
  | .clearLine => { s.setLine s.cursorRow [] with autowrapPending := false }
  | .clearFromCursor => s.clearFromCursor
  | .clearScreen =>
    { empty size with
      scrollbackLines := s.scrollbackLines
      viewportTop := s.viewportTop
      scrollbackCleared := s.scrollbackCleared }
  | .clearScrollback =>
    { s with
      scrollbackLines := []
      viewportTop := 0
      scrollbackCleared := true }
  | .setScrollRegion top bottom =>
    { s with
      scrollTop := clip size.rows top
      scrollBottom := some (max (clip size.rows top) (clip size.rows bottom))
      autowrapPending := false }
  | .resetScrollRegion =>
    { s with
      scrollTop := 0
      scrollBottom := none
      autowrapPending := false }
  | .moveCursor row column => (s.moveRow row).moveColumn column
  | .moveRelative lines => s.moveRow (s.cursorRow + lines)
  | .moveColumn column => s.moveColumn column
  | .beginSynchronizedUpdate | .endSynchronizedUpdate | .hideCursor | .showCursor => s

def apply (s : FakeScreen size) (operations : List TerminalOperation) : FakeScreen size :=
  operations.foldl applyOne s

end FakeScreen

end Loushang.Tui
