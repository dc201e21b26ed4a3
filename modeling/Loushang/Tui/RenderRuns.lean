import Loushang.Lib.Run
import Loushang.Tui.InputRuns
import Loushang.Tui.RenderBlocks

/-!
# Differential rendering

Frame after frame is planned, played on the screen and committed. While every frame meets `StepFits`,
the screen shows the last rows of the frame, with the cursor where it is declared. Each strategy is
right on its own frames; what one step preserves is that the screen shows the committed lines and that
the loop knows the cursor's row.
-/
namespace Loushang.Tui
open Loushang.Lib

/-- The rows of a frame as cells keep them. -/
def rowsOf (lines : List Text) (row : Nat) : Text := rstrip (rowAt lines row)

/-- The last rows of a frame, padded with blank rows. -/
def lastRows (size : TerminalSize) (lines : List Text) : List Text :=
  let visible := (lines.drop (viewportTop lines size)).map rstrip
  visible ++ List.replicate (size.rows - visible.length) []

/-- The screen shows a frame as a full rendering would. -/
structure Rendered {size : TerminalSize} (frame : RenderResult) (s : FakeScreen size) : Prop where
  visible : s.visibleLines = lastRows size frame.lines
  cursor : ∀ declared ∈ frame.cursor,
    s.cursorRow = declared.row - viewportTop frame.lines size ∧ s.cursorColumn = declared.column

/-- Plan, play and commit. -/
def drawFrame (chars : Characters) (visibleWidth : Text → Nat) (size : TerminalSize) :
    Machine (CommittedFrame × FakeScreen size) RenderResult (Option RenderDiagnostics) where
  step state frame :=
    match state.1.plan chars visibleWidth size frame with
    | none => (none, state)
    | some d => (some d, state.1.commit d, state.2.apply d.operations)

/-! ## When a frame fits -/

section Fits
variable {size : TerminalSize}

/-- No row is changed: the number of lines may change only where the viewport stays, and a cursor that
is declared where the last one was is not moved. -/
def UnchangedFits (l : CommittedFrame) (s : FakeScreen size) (frame : RenderResult) : Prop :=
  viewportTop frame.lines size = viewportTop l.previousRenderedLines size ∧
    ∀ declared ∈ frame.cursor, declared = ⟨l.previousCursorRow, l.previousCursorColumn⟩ →
      declared.row = l.hardwareCursorRow ∧ declared.column = s.cursorColumn

/-- The frame has fewer lines: a frame that no longer fills the viewport declares its cursor; lines
are cut off with the cursor behind the last, and not all of them below a row that stays; rows that
change besides lines cut off are followed by blank rows. -/
def ShrinkFits (size : TerminalSize) (previous : List Text) (frame : RenderResult)
    (range : Nat × Nat) : Prop :=
  (size.rows < previous.length → frame.lines.length < size.rows → frame.cursor.isSome) ∧
    (previous.length ≤ size.rows →
      if frame.lines.length ≤ range.1 then
        (∀ declared ∈ frame.cursor, declared = ⟨frame.lines.length - 1, 0⟩) ∧
          (frame.lines = [] → previous.length = size.rows ∨ rowsOf previous 0 = [])
      else
        ∀ row ∈ List.range' (range.2 + 1) (previous.length - frame.lines.length),
          rowsOf frame.lines row = [])

/-- The frame has more lines than fit: unless it only appends, or is repainted, its last line is not
blank and its first changed row is visible. -/
def GrowthFits (size : TerminalSize) (previous : List Text) (frame : RenderResult)
    (range : Nat × Nat) : Prop :=
  viewportTop frame.lines size ≤ range.1 → (range.1 = previous.length → previous = []) →
    protectedAppendCandidate frame.lines previous range.1
      (frame.lines.length - previous.length) frame.cursor size = false →
    range.2 + 1 = frame.lines.length ∧ range.1 < viewportTop previous size + size.rows

/-- The frames whose differential rendering is right, given what the loop and the screen hold. -/
def StepFits (state : CommittedFrame × FakeScreen size) (frame : RenderResult) : Prop :=
  state.1.rendered = true →
    match changedRows state.1.previousRenderedLines frame.lines with
    | none => UnchangedFits state.1 state.2 frame
    | some range =>
      (frame.lines.length < state.1.previousRenderedLines.length →
        ShrinkFits size state.1.previousRenderedLines frame range) ∧
      (state.1.previousRenderedLines.length < frame.lines.length → size.rows < frame.lines.length →
        GrowthFits size state.1.previousRenderedLines frame range)

end Fits

/-! ## What the loop knows -/

/-- The screen shows the committed lines, and the loop knows the cursor's row. -/
structure Synced {size : TerminalSize} (l : CommittedFrame) (s : FakeScreen size) : Prop where
  committed : l.Plain size.columns
  top : l.previousViewportTop = viewportTop l.previousRenderedLines size
  shows : ∃ column, Shows s (viewportTop l.previousRenderedLines size) (rowsOf l.previousRenderedLines)
    l.hardwareCursorRow column
  fresh : l.rendered = false → s = .empty size ∧ l.previousRenderedLines = []

/-- A plan that draws its frame. -/
structure Draws {size : TerminalSize} (s : FakeScreen size) (frame : RenderResult)
    (d : RenderDiagnostics) : Prop where
  lines : d.currentLogicalLines = frame.lines
  raw : d.rawLogicalLines = frame.lines
  top : d.viewportTop = viewportTop frame.lines size
  shows : ShowsWith (s.apply d.operations) (viewportTop frame.lines size) (rowsOf frame.lines)
    frame.cursor d.hardwareCursor.row

section Rows
variable {size : TerminalSize} {s : FakeScreen size} {top row column : Nat} {tape : Nat → Text}

variable {lines : List Text}

theorem rowsOf_of_le {row : Nat} (behind : lines.length ≤ row) : rowsOf lines row = [] := by
  unfold rowsOf
  rw [rowAt_of_le behind, rstrip_nil]

theorem rowsOf_of_getElem? {row : Nat} {line : Text} (found : lines[row]? = some line) :
    rowsOf lines row = rstrip line := by
  unfold rowsOf rowAt
  rw [found, Option.getD_some]

theorem rowsOf_congr {previous current : List Text} {row : Nat}
    (same : rowAt previous row = rowAt current row) : rowsOf previous row = rowsOf current row := by
  unfold rowsOf
  rw [same]

/-- The tape holds the rows that were meant, where the lines are the meant ones and the tape held the
others before. -/
theorem written_eq {target : Nat → Text} {i : Nat}
    (meant : ∀ j line, lines[j]? = some line → target (row + j) = rstrip line)
    (beside : i < row ∨ row + lines.length ≤ i → tape i = target i) :
    written tape row lines i = target i := by
  by_cases above : i < row
  · rw [written_of_lt tape lines above, beside (Or.inl above)]
  · obtain ⟨j, rfl⟩ := Nat.exists_eq_add_of_le (Nat.le_of_not_lt above)
    rw [written_add]
    cases found : lines[j]? with
    | none =>
      have outside := List.getElem?_eq_none_iff.mp found
      rw [Option.map_none, Option.getD_none, beside (Or.inr (by omega))]
    | some line => rw [Option.map_some, Option.getD_some, meant j line found]

theorem rendered_of_shows {frame : RenderResult}
    (shows : ShowsWith s (viewportTop frame.lines size) (rowsOf frame.lines) frame.cursor row) :
    Rendered frame s := by
  obtain ⟨column, shows, cursor⟩ := shows
  have positive := size.rows_pos
  constructor
  · apply List.ext_getElem?
    intro i
    have lengths : ((frame.lines.drop (viewportTop frame.lines size)).map rstrip).length =
        frame.lines.length - viewportTop frame.lines size := by rw [List.length_map, List.length_drop]
    unfold lastRows
    dsimp only
    by_cases inside : i < size.rows
    · rw [shows.visible i inside]
      by_cases line : viewportTop frame.lines size + i < frame.lines.length
      · rw [List.getElem?_append_left (by omega), List.getElem?_map, List.getElem?_drop,
          List.getElem?_eq_getElem line, Option.map_some,
          rowsOf_of_getElem? (List.getElem?_eq_getElem line)]
      · rw [List.getElem?_append_right (by omega), rowsOf_of_le (by omega), List.getElem?_replicate,
          if_pos (by omega)]
    · have whole : s.visibleLines.length = size.rows := s.full
      have top : viewportTop frame.lines size = frame.lines.length - size.rows := rfl
      rw [List.getElem?_eq_none (by omega), List.getElem?_eq_none]
      rw [List.length_append, List.length_replicate, lengths]
      omega
  · intro declared member
    obtain ⟨rowAt, columnAt⟩ := cursor declared member
    have inside := shows.inside
    have place := shows.rowAt
    rw [shows.columnAt]
    exact ⟨by omega, columnAt.symm⟩

end Rows

/-! ## The strategies -/

section Strategies
variable {size : TerminalSize} {l : CommittedFrame} {s : FakeScreen size} {frame : RenderResult}
  {chars : Characters} {visibleWidth : Text → Nat}

/-- The rows of the committed lines up to the last. -/
theorem Synced.viewport (synced : Synced l s) :
    ∃ column, Shows s (l.previousRenderedLines.length - size.rows) (rowsOf l.previousRenderedLines)
      l.hardwareCursorRow column := synced.shows

/-- The hardware row behind a plan that writes to the last line. -/
theorem hardwareRowAfterWrite_eq (lines : List Text) (cursor : Option CursorDeclaration) :
    hardwareRowAfterWrite lines cursor = (cursor.map CursorDeclaration.row).getD (lines.length - 1) := by
  cases cursor with
  | none => rfl
  | some cursor => rfl

theorem firstRender_draws (synced : Synced l s) (drawable : Drawable size frame)
    (first : l.rendered = false) :
    Draws s frame
      (l.planWith chars visibleWidth (plainContext visibleWidth size l frame) .firstRender) := by
  have empty : Shows (FakeScreen.empty size) 0 (fun _ => []) 0 0 := by
    refine ⟨⟨rfl, rfl⟩, rfl, ?_, fun _ _ => rfl, rfl, rfl⟩
    intro i inside
    show (List.replicate size.rows [])[i]? = some []
    rw [List.getElem?_replicate, if_pos inside]
  obtain ⟨column, drawn⟩ := empty.writeLines frame.lines (fun _ _ => rfl) drawable.plain
  have shown : Shows ((FakeScreen.empty size).apply (writeLines frame.lines))
      (viewportTop frame.lines size) (rowsOf frame.lines) (frame.lines.length - 1) column := by
    rw [Nat.zero_add, Nat.zero_max, Nat.zero_add] at drawn
    refine drawn.congr _ ?_
    intro i _
    refine written_eq ?_ ?_
    · intro j line found
      rw [Nat.zero_add]
      exact rowsOf_of_getElem? found
    · intro beside
      rw [rowsOf_of_le (by omega)]
  have positioned := renderThenPositionCursor_spec ⟨column, shown⟩ drawable.cursor
  rw [← (synced.fresh first).1] at positioned
  refine ⟨rfl, rfl, rfl, ?_⟩
  show ShowsWith _ _ _ _ (hardwareRowAfterWrite frame.lines frame.cursor)
  rw [hardwareRowAfterWrite_eq frame.lines frame.cursor]
  exact positioned

/-- The cursor of a plan lies in the window, and is the declared one where one is declared. -/
theorem Drawable.cursorOrLineEnd_spec (drawable : Drawable size frame) (visibleWidth : Text → Nat) :
    let cursor := cursorOrLineEnd visibleWidth frame.cursor frame.lines
    (viewportTop frame.lines size ≤ cursor.row ∧
      cursor.row < viewportTop frame.lines size + size.rows) ∧
      CursorAt frame.cursor cursor.row (clip size.columns cursor.column) := by
  have positive := size.rows_pos
  have top : viewportTop frame.lines size = frame.lines.length - size.rows := rfl
  have inside := drawable.cursor
  unfold cursorOrLineEnd
  generalize frame.cursor = cursor at inside
  cases cursor with
  | none =>
    rw [Option.getD_none]
    refine ⟨⟨?_, ?_⟩, by intro declared member; cases member⟩
    · show viewportTop frame.lines size ≤ frame.lines.length - 1
      omega
    · show frame.lines.length - 1 < viewportTop frame.lines size + size.rows
      omega
  | some cursor =>
    obtain ⟨window, fits⟩ := inside cursor rfl
    rw [Option.getD_some]
    refine ⟨window, ?_⟩
    intro declared member
    rw [← Option.mem_some.mp member, clip_of_lt fits]
    exact ⟨rfl, rfl⟩

theorem noChange_draws (synced : Synced l s) (drawable : Drawable size frame)
    (unchanged : changedRows l.previousRenderedLines frame.lines = none)
    (fits : UnchangedFits l s frame) :
    Draws s frame
      (l.planWith chars visibleWidth (plainContext visibleWidth size l frame) .noChange) := by
  obtain ⟨column, shows⟩ := synced.shows
  have shown : Shows s (viewportTop frame.lines size) (rowsOf frame.lines) l.hardwareCursorRow column := by
    rw [fits.1]
    refine shows.congr _ ?_
    intro i _
    exact rowsOf_congr (changedRows_none unchanged i)
  unfold CommittedFrame.planWith
  dsimp only
  by_cases moved : cursorOrLineEnd visibleWidth frame.cursor frame.lines ≠
      ⟨l.previousCursorRow, l.previousCursorColumn⟩
  · rw [if_pos (show (plainContext visibleWidth size l frame).cursor ≠ _ from moved)]
    obtain ⟨window, declared⟩ := drawable.cursorOrLineEnd_spec visibleWidth
    refine ⟨rfl, rfl, rfl, _, ?_, declared⟩
    show Shows (s.apply (.hideCursor :: cursorPositionOperations
      (cursorOrLineEnd visibleWidth frame.cursor frame.lines) l.hardwareCursorRow ++ [.showCursor])) _ _ _ _
    rw [apply_append, apply_cons]
    exact shown.cursorPosition window
  · rw [if_neg (show ¬(plainContext visibleWidth size l frame).cursor ≠ _ from moved)]
    refine ⟨rfl, rfl, rfl, column, shown, ?_⟩
    intro declared member
    have same : declared = ⟨l.previousCursorRow, l.previousCursorColumn⟩ := by
      rw [← Decidable.not_not.mp moved]
      unfold cursorOrLineEnd
      rw [Option.mem_def.mp member, Option.getD_some]
    have place := fits.2 declared member same
    exact ⟨place.1, place.2.trans shows.columnAt⟩

variable {range : Nat × Nat}

/-- The viewport behind lines that are appended to the last one. -/
theorem topBehindAppend_eq {rows previous current : Nat} (some : 0 < previous) (more : previous < current) :
    max (max (previous - rows) (previous - 1 + 2 - rows)) (previous + (current - previous) - rows) =
      current - rows := by
  have reach : previous + (current - previous) = current := Nat.add_sub_cancel' (Nat.le_of_lt more)
  rw [Nat.sub_max_sub_right, Nat.sub_max_sub_right, reach,
    Nat.max_eq_right (Nat.max_le.mpr ⟨Nat.le_of_lt more, by omega⟩)]

theorem append_draws (synced : Synced l s) (drawable : Drawable size frame)
    (changed : changedRows l.previousRenderedLines frame.lines = some range)
    (more : l.previousRenderedLines.length < frame.lines.length)
    (behind : range.1 = l.previousRenderedLines.length) (some : 0 < range.1) :
    Draws s frame
      (l.planWith chars visibleWidth (plainContext visibleWidth size l frame) .append) := by
  obtain ⟨column, shows⟩ := synced.viewport
  have same := (changedRows_some changed).beside
  have start : ((plainContext visibleWidth size l frame).appendStart).getD 0 = range.1 := by
    show (((changedRows l.previousRenderedLines frame.lines).bind fun range =>
      if 0 < frame.lines.length - l.previousRenderedLines.length ∧
        range.1 = l.previousRenderedLines.length ∧ 0 < range.1 then Option.some range.1 else none)).getD 0 = _
    rw [changed, Option.bind_some, if_pos ⟨Nat.sub_pos_of_lt more, behind, some⟩, Option.getD_some]
  have next : range.1 - 1 + 1 = range.1 := Nat.sub_add_cancel some
  have visible : l.previousRenderedLines.length - size.rows ≤ range.1 - 1 ∧
      range.1 - 1 < l.previousRenderedLines.length - size.rows + size.rows := by
    have positive := size.rows_pos
    omega
  have fed := (shows.moveBetween (range.1 - 1) visible).newline
  rw [next] at fed
  obtain ⟨column', drawn⟩ := fed.writeLines (frame.lines.drop range.1)
    (fun i below => rowsOf_of_le (behind ▸ below))
    (fun line member => drawable.plain line (List.mem_of_mem_drop member))
  have reach : range.1 + (frame.lines.drop range.1).length = frame.lines.length := by
    rw [List.length_drop, behind, Nat.add_sub_cancel' (Nat.le_of_lt more)]
  have lines : 0 < (frame.lines.drop range.1).length := by omega
  have top : max (max (l.previousRenderedLines.length - size.rows) (range.1 - 1 + 2 - size.rows))
      (range.1 + (frame.lines.drop range.1).length - size.rows) = viewportTop frame.lines size := by
    rw [List.length_drop, ← behind]
    exact topBehindAppend_eq some (behind ▸ more)
  rw [top, ← Nat.add_sub_assoc lines] at drawn
  have shown : Shows (s.apply (moveBetween (range.1 - 1) l.hardwareCursorRow ++
      .newline :: writeLines (frame.lines.drop range.1))) (viewportTop frame.lines size)
      (rowsOf frame.lines) (range.1 + (frame.lines.drop range.1).length - 1) column' := by
    rw [apply_append, apply_cons]
    refine drawn.congr _ ?_
    intro i _
    refine written_eq ?_ ?_
    · intro j line found
      rw [List.getElem?_drop] at found
      exact rowsOf_of_getElem? found
    · intro beside
      rw [reach] at beside
      rcases beside with above | below
      · exact rowsOf_congr (same i (Or.inl above))
      · rw [rowsOf_of_le below, rowsOf_of_le (Nat.le_trans (Nat.le_of_lt more) below)]
  have positioned := renderThenPositionCursor_spec ⟨column', shown⟩ drawable.cursor
  unfold CommittedFrame.planWith
  dsimp only
  rw [start]
  refine ⟨rfl, rfl, rfl, ?_⟩
  show ShowsWith _ _ _ _ (hardwareRowAfterWrite frame.lines frame.cursor)
  have last : frame.lines.length - 1 = range.1 + (frame.lines.drop range.1).length - 1 := by rw [reach]
  rw [hardwareRowAfterWrite_eq frame.lines frame.cursor, last]
  exact positioned

section Repaint
variable {lines : List Text} {scrollStart : Nat}

theorem take_viewport (lines : List Text) (size : TerminalSize) :
    lines.take (viewportTop lines size + size.rows) = lines := by
  have top : viewportTop lines size = lines.length - size.rows := rfl
  exact List.take_of_length_le (by omega)

/-- The repainted lines reach from the scroll start to the last row of the viewport. -/
theorem length_repaintedLines (notBehind : scrollStart ≤ viewportTop lines size) :
    scrollStart + (repaintedLines lines (viewportTop lines size) scrollStart size).length =
      viewportTop lines size + size.rows := by
  have top : viewportTop lines size = lines.length - size.rows := rfl
  unfold repaintedLines
  rw [take_viewport]
  split
  · rw [List.length_drop]
    omega
  · rw [List.length_append, List.length_replicate, List.length_drop]
    omega

/-- Row by row, the repainted lines are the rows of the frame from the scroll start on. -/
theorem repaintedLines_row (notBehind : scrollStart ≤ viewportTop lines size) {j : Nat} {line : Text}
    (found : (repaintedLines lines (viewportTop lines size) scrollStart size)[j]? = some line) :
    rowsOf lines (scrollStart + j) = rstrip line := by
  unfold repaintedLines at found
  rw [take_viewport] at found
  dsimp only at found
  split at found
  · rw [List.getElem?_drop] at found
    exact rowsOf_of_getElem? found
  · have start : scrollStart = viewportTop lines size := by omega
    by_cases inside : j < (lines.drop (viewportTop lines size)).length
    · rw [List.getElem?_append_left inside, List.getElem?_drop, ← start] at found
      exact rowsOf_of_getElem? found
    · rw [List.getElem?_append_right (by omega)] at found
      rw [List.length_drop] at inside
      rw [List.eq_of_mem_replicate (List.mem_of_getElem? found), rowsOf_of_le (by omega), rstrip_nil]

theorem plain_repaintedLines (plain : ∀ line ∈ lines, PlainLine size.columns line)
    {line : Text} (member : line ∈ repaintedLines lines (viewportTop lines size) scrollStart size) :
    PlainLine size.columns line := by
  unfold repaintedLines at member
  rw [take_viewport] at member
  dsimp only at member
  split at member
  · exact plain line (List.mem_of_mem_drop member)
  · rcases List.mem_append.mp member with shown | blank
    · exact plain line (List.mem_of_mem_drop shown)
    · rw [List.eq_of_mem_replicate blank]
      exact plainLine_nil size

/-- The repainted lines are written from the home position on; what is above the viewport scrolls. -/
theorem repaintedLines_shows {tape : Nat → Text} {top row column : Nat} (shows : Shows s top tape row column)
    (plain : ∀ line ∈ lines, PlainLine size.columns line) (notBehind : scrollStart ≤ viewportTop lines size) :
    ∃ column, Shows ((s.applyOne (.moveCursor 0 0)).apply
      (writeClearedLines (repaintedLines lines (viewportTop lines size) scrollStart size)))
      (viewportTop lines size) (rowsOf lines) (viewportTop lines size + (size.rows - 1)) column := by
  have positive := size.rows_pos
  have home := (@Shows.moveCursor size s _ _ column _ shows 0 0 positive size.columns_pos).rebase scrollStart
  rw [Nat.add_zero, Nat.sub_self, Nat.add_zero] at home
  have length := length_repaintedLines notBehind
  have some : repaintedLines lines (viewportTop lines size) scrollStart size ≠ [] := by
    rw [← List.length_pos_iff]
    omega
  obtain ⟨column', drawn⟩ := home.writeClearedLines some
    (fun line member => plain_repaintedLines plain member)
  have bottom : scrollStart + ((repaintedLines lines (viewportTop lines size) scrollStart
      size).length - 1) = viewportTop lines size + (size.rows - 1) := by
    rw [← Nat.add_sub_assoc (List.length_pos_iff.mpr some), length, Nat.add_sub_assoc positive]
  rw [bottom, length, Nat.add_sub_cancel, Nat.max_eq_right notBehind] at drawn
  refine ⟨column', drawn.congr (rowsOf lines) ?_⟩
  intro i _
  refine written_eq (fun j line found => repaintedLines_row notBehind found) ?_
  intro beside
  have behind : viewportTop lines size + size.rows ≤ i := by omega
  have top : viewportTop lines size = lines.length - size.rows := rfl
  rw [home.blankBehind i (by omega), rowsOf_of_le (by omega)]

end Repaint

/-- A repaint of the whole viewport. -/
theorem managedViewportRepaint_draws (synced : Synced l s) (drawable : Drawable size frame)
    (fullViewport : size.rows ≤ frame.lines.length ∨ size.rows ≤ l.previousRenderedLines.length)
    (fits : frame.lines.length < size.rows → frame.cursor.isSome) :
    Draws s frame
      (l.managedViewportRepaintDiagnostics (plainContext visibleWidth size l frame) []) := by
  obtain ⟨column, shows⟩ := synced.shows
  have positive := size.rows_pos
  obtain ⟨scrollStart, start⟩ : ∃ scrollStart, min (viewportTop frame.lines size)
    (max l.previousViewportTop l.scrollbackViewportTop) = scrollStart := ⟨_, rfl⟩
  have notBehind : scrollStart ≤ viewportTop frame.lines size := start ▸ Nat.min_le_left _ _
  obtain ⟨column', shown⟩ := repaintedLines_shows shows drawable.plain notBehind
  have painted : s.apply ([.hideCursor, .beginSynchronizedUpdate, .moveCursor 0 0] ++
      writeClearedLines (repaintedLines frame.lines (viewportTop frame.lines size) scrollStart size) ++
      [.endSynchronizedUpdate]) =
        (s.applyOne (.moveCursor 0 0)).apply (writeClearedLines
          (repaintedLines frame.lines (viewportTop frame.lines size) scrollStart size)) := by
    rw [apply_append, apply_append]
    rfl
  unfold CommittedFrame.managedViewportRepaintDiagnostics
  refine ⟨rfl, rfl, rfl, ?_⟩
  show ShowsWith (s.apply (managedViewportRepaintOperations frame.lines l.previousRenderedLines
    frame.cursor (viewportTop frame.lines size) l.previousViewportTop l.scrollbackViewportTop size
    l.hardwareCursorRow [])) _ _ _ (hardwareRowAfterWrite frame.lines frame.cursor)
  unfold managedViewportRepaintOperations
  dsimp only
  rw [start, if_pos fullViewport, apply_append, apply_append]
  show ShowsWith (((s.apply ([.hideCursor, .beginSynchronizedUpdate, .moveCursor 0 0] ++
      writeClearedLines (repaintedLines frame.lines (viewportTop frame.lines size) scrollStart size) ++
      [.endSynchronizedUpdate])).apply _).apply [.showCursor]) _ _ _ _
  rw [painted]
  have inside := drawable.cursor
  generalize frame.cursor = cursor at inside fits
  cases cursor with
  | none =>
    have full : size.rows ≤ frame.lines.length := by
      by_contra short
      exact absurd (fits (Nat.lt_of_not_le short)) Bool.false_ne_true
    refine ⟨column', ?_, by intro declared member; cases member⟩
    have last : viewportTop frame.lines size + (size.rows - 1) = frame.lines.length - 1 := by
      rw [← Nat.add_sub_assoc positive, viewportTop, Nat.sub_add_cancel full]
    rw [last] at shown
    exact shown
  | some cursor =>
    obtain ⟨window, insideColumn⟩ := inside cursor rfl
    refine ⟨cursor.column, ?_, by
      intro declared member
      rw [← Option.mem_some.mp member]
      exact ⟨rfl, rfl⟩⟩
    have physical : clip size.rows ((cursor.row : Int) - viewportTop frame.lines size) =
        cursor.row - viewportTop frame.lines size := by
      unfold clip
      omega
    have placed := shown.moveCursor (cursor.row - viewportTop frame.lines size) cursor.column
      (by omega) insideColumn
    rw [show viewportTop frame.lines size + (cursor.row - viewportTop frame.lines size) = cursor.row by
      omega] at placed
    dsimp only
    rw [if_pos fullViewport]
    show Shows (((s.applyOne (.moveCursor 0 0)).apply (writeClearedLines
      (repaintedLines frame.lines (viewportTop frame.lines size) scrollStart size))).applyOne
        (.moveCursor (clip size.rows ((cursor.row : Int) - viewportTop frame.lines size))
          cursor.column)) _ _ _ _
    rw [physical]
    exact placed

theorem shrinkClear_draws (synced : Synced l s)
    (changed : changedRows l.previousRenderedLines frame.lines = some range)
    (fewer : frame.lines.length < l.previousRenderedLines.length) (cut : frame.lines.length ≤ range.1)
    (fit : l.previousRenderedLines.length ≤ size.rows)
    (fits : ShrinkFits size l.previousRenderedLines frame range) :
    Draws s frame
      (l.planWith chars visibleWidth (plainContext visibleWidth size l frame) .shrinkClear) := by
  obtain ⟨column, shows⟩ := synced.viewport
  obtain ⟨declared, firstRow⟩ := (if_pos cut ▸ fits.2 fit : _ ∧ _)
  have same := (changedRows_some changed).beside
  have positive := size.rows_pos
  have top : viewportTop frame.lines size = 0 := Nat.sub_eq_zero_of_le (by omega)
  have previousTop : l.previousRenderedLines.length - size.rows = 0 := by omega
  obtain ⟨extra, count⟩ : ∃ extra, l.previousRenderedLines.length - frame.lines.length = extra + 1 :=
    ⟨l.previousRenderedLines.length - frame.lines.length - 1, by omega⟩
  rw [previousTop] at shows
  have cleared := ((shows.moveBetween (frame.lines.length - 1)
    ⟨by omega, by omega⟩).carriageReturn).blanked (extra + 1)
  rw [if_neg (Nat.succ_ne_zero extra)] at cleared
  -- Below the last line, the rows that were cut off are blank.
  have rows : ∀ i, (0 < frame.lines.length ∨ 0 < i ∨ rowsOf l.previousRenderedLines 0 = []) →
      written (rowsOf l.previousRenderedLines) (frame.lines.length - 1 + 1)
        (List.replicate (extra + 1) []) i = rowsOf frame.lines i := by
    intro i place
    refine written_eq ?_ ?_
    · intro j line found
      rw [List.eq_of_mem_replicate (List.mem_of_getElem? found), rowsOf_of_le (by omega), rstrip_nil]
    · intro beside
      rw [List.length_replicate] at beside
      by_cases line : i < frame.lines.length
      · exact rowsOf_congr (same i (Or.inl (by omega)))
      · rw [show rowsOf frame.lines i = [] from rowsOf_of_le (by omega)]
        rcases beside with above | below
        · rcases place with some | later | blank
          · omega
          · omega
          · rw [show i = 0 by omega, blank]
        · exact rowsOf_of_le (by omega)
  have shown : Shows ((((s.apply (moveBetween (frame.lines.length - 1) l.hardwareCursorRow)).carriageReturn).apply
      (List.replicate (extra + 1) [TerminalOperation.newline, .clearLine]).flatten).applyOne
        (.moveRelative (-((extra + 1 : Nat) : Int)))) 0 (rowsOf frame.lines) (frame.lines.length - 1) 0 := by
    by_cases scrolls : frame.lines = [] ∧ l.previousRenderedLines.length = size.rows
    · -- Every row is cut off, and the last line feed scrolls: the rows are blank, named anew.
      have none : frame.lines.length = 0 := List.length_eq_zero_iff.mpr scrolls.1
      have rebased := cleared.rebase 0
      refine (rebased.moveRow (frame.lines.length - 1) (Nat.zero_le _) ?_).congr _ ?_
      · have rowAt := cleared.rowAt
        unfold clip
        omega
      · intro i _
        rw [rows _ (Or.inr (Or.inl (by omega))), rowsOf_of_le (by omega), rowsOf_of_le (by omega)]
    · have scrolled : max 0 (frame.lines.length - 1 + (extra + 1) + 1 - size.rows) = 0 := by
        by_cases none : frame.lines.length = 0
        · have short : l.previousRenderedLines.length ≠ size.rows := fun full =>
            scrolls ⟨List.length_eq_zero_iff.mp none, full⟩
          omega
        · omega
      rw [scrolled] at cleared
      have back := cleared.moveRelative (frame.lines.length - 1) ⟨by omega, by omega⟩
      rw [show ((frame.lines.length - 1 : Nat) : Int) - (frame.lines.length - 1 + (extra + 1) : Nat) =
        -((extra + 1 : Nat) : Int) by omega] at back
      refine back.congr _ ?_
      intro i _
      refine rows i ?_
      by_cases some : 0 < frame.lines.length
      · exact Or.inl some
      · have none : frame.lines = [] := List.length_eq_zero_iff.mp (by omega)
        rcases firstRow none with full | blank
        · exact absurd ⟨none, full⟩ scrolls
        · exact Or.inr (Or.inr blank)
  unfold CommittedFrame.planWith
  refine ⟨rfl, rfl, ?_, 0, ?_, ?_⟩
  · show (if frame.lines.length < l.previousRenderedLines.length then
      max l.previousViewportTop (viewportTop frame.lines size) else viewportTop frame.lines size) = _
    rw [if_pos fewer, top, synced.top]
    exact Nat.max_eq_right (Nat.le_of_eq previousTop)
  · show Shows (s.apply (shrinkClearOperations (l.previousRenderedLines.length - frame.lines.length)
      (frame.lines.length - 1) l.hardwareCursorRow
      (kittyDeleteSequencesInRange chars (.flat l.previousRenderedLines) _ _))) _ _ _ _
    rw [kittyDeleteSequencesInRange_plain synced.committed.plain, count, top]
    unfold shrinkClearOperations wrapSynchronized
    rw [if_pos (Nat.succ_pos extra), Nat.add_sub_cancel]
    show Shows ((s.apply (([] ++ moveBetween (frame.lines.length - 1) l.hardwareCursorRow ++
      [.carriageReturn] ++ ((List.replicate (extra + 1) [TerminalOperation.newline, .clearLine]).flatten ++
        [.moveRelative (-((extra + 1 : Nat) : Int))])) ++ [.endSynchronizedUpdate]))) _ _ _ _
    rw [apply_append, apply_append, apply_append, apply_append, List.nil_append]
    exact shown
  · intro cursor member
    rw [declared cursor member]
    exact ⟨rfl, rfl⟩

variable {renderEnd : Nat}

/-- The viewport behind a changed range: lines are cut off only where all fit, and lines are added
past the screen only behind the last changed row. -/
theorem topBehindRange_eq {rows previous current last : Nat} (inside : renderEnd + 1 ≤ current)
    (ends : renderEnd = last ∨ renderEnd + 1 = current) (shrinks : current < previous → previous ≤ rows)
    (grows : previous < current → rows < current → last + 1 = current) :
    max (max (previous - rows) (renderEnd + 1 - rows)) (renderEnd + (previous - current) + 1 - rows) =
      current - rows := by
  rw [Nat.sub_max_sub_right, Nat.sub_max_sub_right]
  rcases Nat.lt_trichotomy current previous with fewer | same | more
  · have fit := shrinks fewer
    rw [Nat.sub_eq_zero_of_le (by omega), Nat.sub_eq_zero_of_le (by omega)]
  · rw [same, Nat.sub_self, Nat.add_zero, Nat.max_eq_left (by omega), Nat.max_eq_left (by omega)]
  · rw [Nat.sub_eq_zero_of_le (Nat.le_of_lt more), Nat.add_zero, Nat.max_eq_left (Nat.le_max_right _ _)]
    by_cases long : rows < current
    · have full := grows more long
      rw [Nat.max_eq_right (by omega), show renderEnd + 1 = current by omega]
    · rw [Nat.sub_eq_zero_of_le (Nat.max_le.mpr ⟨by omega, by omega⟩), Nat.sub_eq_zero_of_le (by omega)]

/-- The changed lines are written each on its row, and the rows of lines cut off are blanked. -/
theorem changedRange_shows {previous current : List Text} {first last cleared row column : Nat}
    (shows : Shows s (previous.length - size.rows) (rowsOf previous) row column)
    (plain : ∀ line ∈ current, PlainLine size.columns line)
    (same : ∀ i, i < first ∨ last < i → rowAt previous i = rowAt current i)
    (visible : previous.length - size.rows ≤ first ∧ first < previous.length - size.rows + size.rows)
    (starts : first ≤ renderEnd) (inside : renderEnd + 1 ≤ current.length)
    (ends : renderEnd = last ∨ renderEnd + 1 = current.length)
    (count : previous.length - current.length = cleared) (blank : current.length < previous.length →
      ∀ row ∈ List.range' (last + 1) cleared, rowsOf current row = [])
    (top : max (max (previous.length - size.rows) (renderEnd + 1 - size.rows))
      (renderEnd + cleared + 1 - size.rows) = viewportTop current size) :
    ∃ column, Shows (s.apply ([] ++ moveBetween first row ++ [.carriageReturn] ++
      rewriteLines ((current.take (renderEnd + 1)).drop first) ++
      (List.replicate cleared [TerminalOperation.newline, .clearLine]).flatten))
      (viewportTop current size) (rowsOf current) (renderEnd + cleared) column := by
  obtain ⟨rewritten, lines⟩ : ∃ rewritten, (current.take (renderEnd + 1)).drop first = rewritten := ⟨_, rfl⟩
  have reach : first + rewritten.length = renderEnd + 1 := by
    rw [← lines, List.length_drop, List.length_take, Nat.min_eq_left inside,
      Nat.add_sub_cancel' (Nat.le_succ_of_le starts)]
  have some : rewritten ≠ [] := by
    rw [← List.length_pos_iff]
    omega
  have home := (shows.moveBetween first visible).carriageReturn
  obtain ⟨column', drawn⟩ := home.rewriteLines some
    (fun line member => plain line (List.mem_of_mem_take (List.mem_of_mem_drop (lines ▸ member))))
  rw [show first + (rewritten.length - 1) = renderEnd by omega, reach] at drawn
  have whole := drawn.blanked cleared
  rw [top, ← reach, ← written_append] at whole
  clear top visible
  have rows : ∀ i, written (rowsOf previous) first (rewritten ++ List.replicate cleared []) i =
      rowsOf current i := by
    intro i
    refine written_eq ?_ ?_
    · intro j line found
      by_cases changedRow : j < rewritten.length
      · rw [List.getElem?_append_left changedRow, ← lines, List.getElem?_drop,
          List.getElem?_take] at found
        split at found
        · exact rowsOf_of_getElem? found
        · cases found
      · rw [List.getElem?_append_right (by omega)] at found
        have within := (List.getElem?_eq_some_iff.mp found).1
        rw [List.length_replicate] at within
        rw [List.eq_of_mem_replicate (List.mem_of_getElem? found), rstrip_nil]
        by_cases line : first + j < current.length
        · exact blank (by omega) _ (List.mem_range'_1.mpr ⟨by omega, by omega⟩)
        · exact rowsOf_of_le (by omega)
    · intro beside
      rw [List.length_append, List.length_replicate] at beside
      by_cases outside : i < first ∨ last < i
      · exact rowsOf_congr (same i outside)
      · rw [rowsOf_of_le (by omega), rowsOf_of_le (by omega)]
  refine ⟨if cleared = 0 then column' else 0, ?_⟩
  rw [lines, apply_append, apply_append, apply_append, List.nil_append]
  exact whole.congr _ (fun i _ => rows i)

theorem changedRange_draws (synced : Synced l s) (drawable : Drawable size frame)
    (changed : changedRows l.previousRenderedLines frame.lines = some range)
    (starts : range.1 < frame.lines.length)
    (below : l.previousViewportTop ≤ range.1 ∧ viewportTop frame.lines size ≤ range.1)
    (shrinks : frame.lines.length < l.previousRenderedLines.length →
      l.previousRenderedLines.length ≤ size.rows ∧
        ∀ row ∈ List.range' (range.2 + 1) (l.previousRenderedLines.length - frame.lines.length),
          rowsOf frame.lines row = [])
    (grows : l.previousRenderedLines.length < frame.lines.length → size.rows < frame.lines.length →
      range.2 + 1 = frame.lines.length ∧
        range.1 < viewportTop l.previousRenderedLines size + size.rows) :
    Draws s frame
      (l.planWith chars visibleWidth (plainContext visibleWidth size l frame) .changedRange) := by
  obtain ⟨column, shows⟩ := synced.viewport
  have spec := changedRows_some changed
  obtain ⟨ordered, inside⟩ := And.intro spec.ordered spec.inside
  have same := spec.beside
  have positive := size.rows_pos
  have top : viewportTop frame.lines size = frame.lines.length - size.rows := rfl
  have previousTop : viewportTop l.previousRenderedLines size =
    l.previousRenderedLines.length - size.rows := rfl
  rw [synced.top] at below
  obtain ⟨first, last⟩ := range
  dsimp only at *
  have visible : first < l.previousRenderedLines.length - size.rows + size.rows := by
    by_cases more : l.previousRenderedLines.length < frame.lines.length ∧ size.rows < frame.lines.length
    · exact (grows more.1 more.2).2
    · omega
  obtain ⟨renderEnd, ends⟩ : ∃ renderEnd, min last (frame.lines.length - 1) = renderEnd := ⟨_, rfl⟩
  obtain ⟨cleared, count⟩ : ∃ cleared,
    l.previousRenderedLines.length - frame.lines.length = cleared := ⟨_, rfl⟩
  have lastRow : first ≤ renderEnd ∧ renderEnd + 1 ≤ frame.lines.length ∧
      (renderEnd = last ∨ renderEnd + 1 = frame.lines.length) := by
    clear visible previousTop top below
    omega
  have topAt := topBehindRange_eq lastRow.2.1 lastRow.2.2 (fun fewer => (shrinks fewer).1)
    (fun more long => (grows more long).1)
  rw [count] at topAt
  obtain ⟨column', composed⟩ := changedRange_shows shows drawable.plain same ⟨below.1, visible⟩ lastRow.1
    lastRow.2.1 lastRow.2.2 count (fun fewer => count ▸ (shrinks fewer).2) topAt
  have positioned := renderThenPositionCursor_spec ⟨_, composed⟩ drawable.cursor
  have hardware : (changedRangeHardwareCursor visibleWidth frame.lines l.previousRenderedLines renderEnd
      frame.cursor size).row = (frame.cursor.map CursorDeclaration.row).getD (renderEnd + cleared) := by
    unfold changedRangeHardwareCursor
    cases frame.cursor with
    | some cursor => rfl
    | none =>
      have some : frame.lines ≠ [] := by
        intro none
        rw [none] at starts
        exact absurd starts (Nat.not_lt_zero _)
      dsimp only
      rw [count, if_neg some]
      split
      · rfl
      · show renderEnd = renderEnd + cleared
        omega
  have facts : ((plainContext visibleWidth size l frame).changedRange).getD (0, 0) = (first, last) := by
    show (changedRows l.previousRenderedLines frame.lines).getD (0, 0) = _
    rw [changed, Option.getD_some]
  unfold CommittedFrame.planWith
  dsimp only
  rw [facts]
  refine ⟨rfl, rfl, ?_, ?_⟩
  · show (if frame.lines.length < l.previousRenderedLines.length then
      max l.previousViewportTop (viewportTop frame.lines size) else viewportTop frame.lines size) = _
    split
    · next fewer =>
      have fit := (shrinks fewer).1
      rw [synced.top]
      omega
    · rfl
  · show ShowsWith (s.apply (changedRangeOperations frame.lines l.previousRenderedLines (first, last)
      l.hardwareCursorRow frame.cursor
      (kittyDeleteSequencesInRange chars (.flat l.previousRenderedLines) first last))) _ _ _
      (changedRangeHardwareCursor visibleWidth frame.lines l.previousRenderedLines
        (min last (frame.lines.length - 1)) frame.cursor size).row
    rw [kittyDeleteSequencesInRange_plain synced.committed.plain, ends, hardware]
    unfold changedRangeOperations
    dsimp only
    rw [ends, count]
    exact positioned

/-! ## Every frame is drawn -/

/-- The strategy that is chosen: it accepts the frame, and none before it does. -/
theorem plan_eq {c : RenderPlanContext} {kind : RenderPlanStrategyKind}
    {later : List RenderPlanStrategyKind}
    (context : l.buildPlanContext chars visibleWidth size frame = c)
    (earlier : List RenderPlanStrategyKind)
    (order : defaultStrategyOrder = earlier ++ kind :: later)
    (rejected : ∀ other ∈ earlier, l.accepts c other = false) (accepted : l.accepts c kind = true) :
    l.plan chars visibleWidth size frame = some (l.planWith chars visibleWidth c kind) := by
  have found : defaultStrategyOrder.find? (l.accepts c) = some kind := by
    rw [order, List.find?_append, List.find?_eq_none.mpr, List.find?_cons_of_pos accepted]
    · rfl
    · intro other member
      rw [rejected other member]
      exact Bool.false_ne_true
  unfold CommittedFrame.plan
  dsimp only
  rw [context, found, Option.map_some]

theorem plan_draws (chars : Characters) (visibleWidth : Text → Nat) (synced : Synced l s) (drawable : Drawable size frame)
    (fits : StepFits (l, s) frame) :
    ∃ d, l.plan chars visibleWidth size frame = some d ∧ Draws s frame d := by
  have context := buildPlanContext_plain chars visibleWidth
    synced.committed drawable
  cases rendered : l.rendered with
  | false =>
    refine ⟨_, plan_eq context ([]) rfl ?_ ?_, firstRender_draws synced drawable rendered⟩
    · intro other member
      cases member
    · show (!l.rendered) = true
      rw [rendered, Bool.not_false]
  | true =>
  have fits := fits rendered
  have noFirst : l.accepts (plainContext visibleWidth size l frame) .firstRender = false := by
    show (!l.rendered) = false
    rw [rendered, Bool.not_true]
  cases changed : changedRows l.previousRenderedLines frame.lines with
  | none =>
    rw [changed] at fits
    refine ⟨_, plan_eq context ([.firstRender]) rfl ?_ ?_,
      noChange_draws synced drawable changed fits⟩
    · intro other member
      rw [List.mem_singleton.mp member, noFirst]
    · show (changedRows l.previousRenderedLines frame.lines).isNone = true
      rw [changed, Option.isNone_none]
  | some range =>
  rw [changed] at fits
  obtain ⟨shrinks, grows⟩ := fits
  dsimp only at shrinks grows
  have spec := changedRows_some changed
  have beyond : viewportTop frame.lines size < l.previousViewportTop →
      size.rows < l.previousRenderedLines.length := by
    rw [synced.top]
    exact fun less => Nat.lt_of_sub_pos (Nat.zero_lt_of_lt less)
  have fit : frame.lines.length < l.previousRenderedLines.length →
      ¬viewportTop frame.lines size < l.previousViewportTop → l.previousRenderedLines.length ≤ size.rows := by
    rw [synced.top]
    unfold viewportTop
    omega
  have noNone : l.accepts (plainContext visibleWidth size l frame) .noChange = false := by
    show (changedRows l.previousRenderedLines frame.lines).isNone = false
    rw [changed, Option.isNone_some]
  have start : (plainContext visibleWidth size l frame).appendStart =
      if 0 < frame.lines.length - l.previousRenderedLines.length ∧
        range.1 = l.previousRenderedLines.length ∧ 0 < range.1 then some range.1 else none := by
    show (changedRows l.previousRenderedLines frame.lines).bind _ = _
    rw [changed, Option.bind_some]
  by_cases appends : 0 < frame.lines.length - l.previousRenderedLines.length ∧
      range.1 = l.previousRenderedLines.length ∧ 0 < range.1
  · refine ⟨_, plan_eq context ([.firstRender, .noChange]) rfl ?_ ?_,
      append_draws synced drawable changed (Nat.lt_of_sub_pos appends.1) appends.2.1 appends.2.2⟩
    · simp only [List.forall_mem_cons, noFirst, noNone, List.not_mem_nil, false_imp_iff, implies_true,
        and_self]
    · show (plainContext visibleWidth size l frame).appendStart.isSome = true
      rw [start, if_pos appends, Option.isSome_some]
  have noAppend : l.accepts (plainContext visibleWidth size l frame) .append = false := by
    show (plainContext visibleWidth size l frame).appendStart.isSome = false
    rw [start, if_neg appends, Option.isSome_none]
  have onRange : ∀ test : Nat × Nat → Bool,
      (changedRows l.previousRenderedLines frame.lines).any test = test range := by
    intro test
    rw [changed, Option.any_some]
  cases protects : protectedAppendCandidate frame.lines l.previousRenderedLines range.1
      (frame.lines.length - l.previousRenderedLines.length) frame.cursor size with
  | true =>
    have full : size.rows ≤ frame.lines.length := by
      unfold protectedAppendCandidate at protects
      cases declared : frame.cursor with
      | none =>
        rw [declared] at protects
        cases protects
      | some cursor =>
        rw [declared] at protects
        exact (of_decide_eq_true protects).2.1
    have deletes : (if CommittedFrame.pureProtectedAppend (plainContext visibleWidth size l frame)
        (((plainContext visibleWidth size l frame).changedRange.map Prod.fst).getD 0) then
          kittyDeleteSequences chars (.flat ((plainContext visibleWidth size l frame).previousLines.drop
            (((plainContext visibleWidth size l frame).changedRange.map Prod.fst).getD 0)))
        else (plainContext visibleWidth size l frame).previousKittyDeleteSequences) = [] := by
      split
      · exact deletesOf_plain fun line member =>
          synced.committed.plain line (List.mem_of_mem_drop member)
      · rfl
    refine ⟨_, plan_eq context ([.firstRender, .noChange, .append]) rfl ?_ ?_, ?_⟩
    · simp only [List.forall_mem_cons, noFirst, noNone, noAppend, List.not_mem_nil, false_imp_iff,
        implies_true, and_self]
    · exact (onRange _).trans protects
    · unfold CommittedFrame.planWith
      dsimp only
      rw [deletes]
      exact managedViewportRepaint_draws synced drawable (Or.inl full)
        (fun short => absurd full (Nat.not_le_of_lt short))
  | false =>
  have noProtected : l.accepts (plainContext visibleWidth size l frame) .protectedAppend = false :=
    (onRange _).trans protects
  by_cases repaints : frame.lines.length < l.previousRenderedLines.length ∧
      viewportTop frame.lines size < l.previousViewportTop
  · refine ⟨_, plan_eq context ([.firstRender, .noChange, .append, .protectedAppend]) rfl ?_ ?_,
      managedViewportRepaint_draws synced drawable (Or.inr (Nat.le_of_lt (beyond repaints.2))) ?_⟩
    · simp only [List.forall_mem_cons, noFirst, noNone, noAppend, noProtected, List.not_mem_nil,
        false_imp_iff, implies_true, and_self]
    · exact decide_eq_true repaints
    · exact (shrinks repaints.1).1 (beyond repaints.2)
  have noRepaint : l.accepts (plainContext visibleWidth size l frame) .shrinkViewportRepaint = false :=
    decide_eq_false repaints
  by_cases cuts : frame.lines.length ≤ range.1 ∧
      frame.lines.length < l.previousRenderedLines.length
  · refine ⟨_, plan_eq context
      ([.firstRender, .noChange, .append, .protectedAppend, .shrinkViewportRepaint]) rfl ?_ ?_,
      shrinkClear_draws synced changed cuts.2 cuts.1
        (fit cuts.2 fun higher => repaints ⟨cuts.2, higher⟩) (shrinks cuts.2)⟩
    · simp only [List.forall_mem_cons, noFirst, noNone, noAppend, noProtected, noRepaint, List.not_mem_nil,
        false_imp_iff, implies_true, and_self]
    · exact (onRange _).trans (decide_eq_true cuts)
  have noCut : l.accepts (plainContext visibleWidth size l frame) .shrinkClear = false :=
    (onRange _).trans (decide_eq_false cuts)
  by_cases above : range.1 < max l.previousViewportTop (viewportTop frame.lines size)
  · have full : size.rows ≤ frame.lines.length := by
      by_contra short
      by_cases old : range.1 < l.previousViewportTop
      · rw [synced.top] at old
        have long := Nat.lt_of_sub_pos (Nat.zero_lt_of_lt old)
        have fewer := Nat.lt_trans (Nat.lt_of_not_le short) long
        exact absurd (fit fewer fun higher => repaints ⟨fewer, higher⟩) (Nat.not_le_of_lt long)
      · have none : viewportTop frame.lines size = 0 := Nat.sub_eq_zero_of_le (Nat.le_of_not_le short)
        rw [none, Nat.max_zero] at above
        exact old above
    refine ⟨_, plan_eq context ([.firstRender, .noChange, .append, .protectedAppend,
      .shrinkViewportRepaint, .shrinkClear]) rfl ?_ ?_,
      managedViewportRepaint_draws synced drawable (Or.inl full)
        (fun short => absurd full (Nat.not_le_of_lt short))⟩
    · simp only [List.forall_mem_cons, noFirst, noNone, noAppend, noProtected, noRepaint, noCut,
        List.not_mem_nil, false_imp_iff, implies_true, and_self]
    · exact (onRange _).trans (decide_eq_true above)
  obtain ⟨under, onScreen⟩ := Nat.max_le.mp (Nat.le_of_not_lt above)
  have noAbove : l.accepts (plainContext visibleWidth size l frame) .changedAboveViewport = false :=
    (onRange _).trans (decide_eq_false above)
  have starts : range.1 < frame.lines.length := by
    by_contra behind
    have fewer : frame.lines.length < l.previousRenderedLines.length := by
      by_contra more
      have inside := Nat.lt_of_le_of_lt spec.ordered spec.inside
      rw [Nat.max_eq_right (Nat.le_of_not_lt more)] at inside
      exact behind inside
    exact cuts ⟨Nat.le_of_not_lt behind, fewer⟩
  refine ⟨_, plan_eq context ([.firstRender, .noChange, .append, .protectedAppend,
    .shrinkViewportRepaint, .shrinkClear, .changedAboveViewport]) rfl ?_ ?_,
    changedRange_draws synced drawable changed starts ⟨under, onScreen⟩ ?_ ?_⟩
  · simp only [List.forall_mem_cons, noFirst, noNone, noAppend, noProtected, noRepaint, noCut, noAbove,
      List.not_mem_nil, false_imp_iff, implies_true, and_self]
  · show (changedRows l.previousRenderedLines frame.lines).isSome = true
    rw [changed, Option.isSome_some]
  · intro fewer
    have fit := fit fewer fun higher => repaints ⟨fewer, higher⟩
    have blank := (shrinks fewer).2 fit
    rw [if_neg (Nat.not_le_of_lt starts)] at blank
    exact ⟨fit, blank⟩
  · intro more long
    refine grows more long onScreen ?_ protects
    intro behind
    rw [← List.length_eq_zero_iff, ← behind]
    by_contra some
    exact appends ⟨Nat.sub_pos_of_lt more, behind, Nat.pos_of_ne_zero some⟩

theorem Draws.synced {d : RenderDiagnostics} (drawable : Drawable size frame) (draws : Draws s frame d) :
    Synced (l.commit d) (s.apply d.operations) where
  committed := by
    constructor
    · exact draws.raw.trans draws.lines.symm
    · show ∀ line ∈ d.currentLogicalLines, PlainLine size.columns line
      rw [draws.lines]
      exact drawable.plain
  top := by
    show d.viewportTop = viewportTop d.currentLogicalLines size
    rw [draws.top, draws.lines]
  shows := by
    obtain ⟨column, shows, _⟩ := draws.shows
    refine ⟨column, ?_⟩
    show Shows _ (viewportTop d.currentLogicalLines size) (rowsOf d.currentLogicalLines)
      d.hardwareCursor.row column
    rw [draws.lines]
    exact shows
  fresh := by
    intro unrendered
    cases unrendered

theorem synced_start (size : TerminalSize) : Synced {} (.empty size) where
  committed := ⟨rfl, by intro line member; cases member⟩
  top := (Nat.zero_sub _).symm
  shows := by
    refine ⟨0, ⟨rfl, rfl⟩, rfl, ?_, ?_, ?_, rfl⟩
    · intro i inside
      show (List.replicate size.rows [])[i]? = some []
      rw [List.getElem?_replicate, if_pos inside]
    · intro i _
      rfl
    · exact (Nat.zero_sub _).symm ▸ rfl
  fresh := fun _ => ⟨rfl, rfl⟩

end Strategies

/-! ## Runs -/

/-- While every frame fits, every frame is shown as a full rendering would show it. -/
theorem frames_rendered (chars : Characters) (visibleWidth : Text → Nat) (size : TerminalSize)
    (frames : List RenderResult) (drawable : ∀ frame ∈ frames, Drawable size frame)
    (fit : (drawFrame chars visibleWidth size).AllSteps StepFits ({}, .empty size) frames) :
    (drawFrame chars visibleWidth size).AllSteps
      (fun state frame =>
        let answer := (drawFrame chars visibleWidth size).step state frame
        answer.1.isSome ∧ Rendered frame answer.2.2)
      ({}, .empty size) frames := by
  have ok := fit.and_mem drawable
  refine (@Machine.AllSteps.of_invariant _ _ _ (drawFrame chars visibleWidth size)
    (fun state => Synced state.1 state.2) _ _ ?_ _ _ (synced_start size) ok).1
  intro state frame synced admitted
  obtain ⟨fits, drawable⟩ := admitted
  obtain ⟨d, planned, draws⟩ := plan_draws chars visibleWidth synced drawable fits
  have stepped : (drawFrame chars visibleWidth size).step state frame =
      (some d, state.1.commit d, state.2.apply d.operations) := by
    show (match state.1.plan chars visibleWidth size frame with
      | none => (none, state)
      | some d => (some d, state.1.commit d, state.2.apply d.operations)) = _
    rw [planned]
  rw [stepped]
  exact ⟨⟨rfl, rendered_of_shows draws.shows⟩, draws.synced drawable⟩

/-! ## Runs on a small screen -/

instance (columns : Nat) (line : Text) : Decidable (PlainLine columns line) :=
  decidable_of_iff (line.length < columns ∧ line.all (fun point => PlainPoint point) = true) (by
    rw [List.all_eq_true]
    simp only [decide_eq_true_eq]
    exact ⟨fun both => ⟨both.1, both.2⟩, fun plain => ⟨plain.short, plain.plain⟩⟩)

instance (size : TerminalSize) (frame : RenderResult) : Decidable (Drawable size frame) :=
  have : Decidable (CursorInside size (viewportTop frame.lines size) frame.cursor) := by
    unfold CursorInside
    infer_instance
  decidable_of_iff ((∀ line ∈ frame.lines, PlainLine size.columns line) ∧
      CursorInside size (viewportTop frame.lines size) frame.cursor)
    ⟨fun both => ⟨both.1, both.2⟩, fun drawable => ⟨drawable.plain, drawable.cursor⟩⟩

instance {size : TerminalSize} (l : CommittedFrame) (s : FakeScreen size) (frame : RenderResult) :
    Decidable (UnchangedFits l s frame) := by
  unfold UnchangedFits
  infer_instance

instance (size : TerminalSize) (previous : List Text) (frame : RenderResult) (range : Nat × Nat) :
    Decidable (ShrinkFits size previous frame range) := by
  unfold ShrinkFits
  infer_instance

instance (size : TerminalSize) (previous : List Text) (frame : RenderResult) (range : Nat × Nat) :
    Decidable (GrowthFits size previous frame range) := by
  unfold GrowthFits
  infer_instance

instance {size : TerminalSize} (state : CommittedFrame × FakeScreen size) (frame : RenderResult) :
    Decidable (StepFits state frame) := by
  unfold StepFits
  cases changedRows state.1.previousRenderedLines frame.lines with
  | none =>
    dsimp only
    infer_instance
  | some range =>
    dsimp only
    infer_instance

def smallScreen : TerminalSize := ⟨8, 4, by decide, by decide⟩

/-- Lines that are appended past the last row, changed, left alone and dropped again. -/
theorem frames_rendered_small :
    (drawFrame asciiSurroundings.chars List.length smallScreen).AllSteps
      (fun state frame =>
        let answer := (drawFrame asciiSurroundings.chars List.length smallScreen).step state frame
        answer.1.isSome ∧ Rendered frame answer.2.2)
      ({}, .empty smallScreen)
      [⟨["a"].map textOf, none⟩, ⟨["a", "", "b", "c", "d", "e"].map textOf, some ⟨5, 1⟩⟩,
        ⟨["a", "", "b", "x", "d", "y"].map textOf, some ⟨3, 0⟩⟩,
        ⟨["a", "", "b", "x", "d", "y"].map textOf, none⟩, ⟨["a"].map textOf, some ⟨0, 1⟩⟩] :=
  frames_rendered _ _ _ _ (by decide) (by decide)

/-- A changed line besides a blank line cut off: the row below the changed one is blanked. -/
theorem changed_row_erases_next :
    ¬ ∀ frames : List RenderResult, (∀ frame ∈ frames, Drawable smallScreen frame) →
      (drawFrame asciiSurroundings.chars List.length smallScreen).AllSteps
        (fun state frame =>
          let answer := (drawFrame asciiSurroundings.chars List.length smallScreen).step state frame
          answer.1.isSome ∧ Rendered frame answer.2.2)
        ({}, .empty smallScreen) frames := by
  intro always
  have shown := always [⟨["a", "b", "c", ""].map textOf, none⟩, ⟨["x", "b", "c"].map textOf, none⟩]
    (by decide)
  exact absurd shown.2.1.2.visible (by decide +kernel)

end Loushang.Tui
