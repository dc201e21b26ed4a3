import Loushang.Tui.FakeScreen
import Loushang.Tui.RenderSegments

/-!
# Plans for the next frame

`RenderLoop.plan` and `commit` of `render_loop.py` for frames of plain line lists at one terminal size.
The six strategies that need a resize, a baseline reset, an unsafe viewport or a scroll request are not
modelled, nor are the diagnostics nothing reads. Visible widths are a parameter.
-/
namespace Loushang.Tui
open Loushang.Lib

structure CursorDeclaration where
  row : Nat
  column : Nat
  deriving DecidableEq

/-- `RenderResult`. -/
structure RenderResult where
  lines : List Text
  cursor : Option CursorDeclaration

/-- What `RenderLoop` keeps of the committed frame; `rendered` is `previous_size is not None`. -/
structure CommittedFrame where
  rendered : Bool := false
  previousRenderedLines : List Text := []
  previousRawLines : List Text := []
  previousViewportTop : Nat := 0
  scrollbackViewportTop : Nat := 0
  hardwareCursorRow : Nat := 0
  hardwareCursorColumn : Nat := 0
  previousCursorRow : Nat := 0
  previousCursorColumn : Nat := 0

/-- `RenderDiagnostics`, what `commit` and the terminal take of it. -/
structure RenderDiagnostics where
  currentLogicalLines : List Text
  rawLogicalLines : List Text
  operations : List TerminalOperation
  viewportTop : Nat
  logicalCursor : CursorDeclaration
  hardwareCursor : CursorDeclaration

/-- `RenderPlanContext`. -/
structure RenderPlanContext where
  size : TerminalSize
  rawCurrentLines : List Text
  currentLines : List Text
  previousLines : List Text
  declaredCursor : Option CursorDeclaration
  cursor : CursorDeclaration
  changedRange : Option (Nat × Nat)
  appendedLines : Nat
  appendStart : Option Nat
  viewportTop : Nat
  differentialViewportTop : Nat
  previousKittyDeleteSequences : List Text

/-! ## Operations -/

/-- `_viewport_top`. -/
def viewportTop (lines : List Text) (size : TerminalSize) : Nat := lines.length - size.rows

/-- `_kitty_delete_operations`. -/
def kittyDeleteOperations (sequences : List Text) : List TerminalOperation :=
  sequences.map .write

/-- `_write_lines`. -/
def writeLines : List Text → List TerminalOperation
  | [] => []
  | line :: rest => .write line :: rest.flatMap fun line => [.newline, .write line]

/-- `_write_cleared_lines`. -/
def writeClearedLines : List Text → List TerminalOperation
  | [] => []
  | [line] => [.clearLine, .write line]
  | line :: rest => .clearLine :: .write (line ++ [0x0d, 0x0a]) :: writeClearedLines rest

/-- `_wrap_synchronized`. -/
def wrapSynchronized (operations : List TerminalOperation) : List TerminalOperation :=
  .beginSynchronizedUpdate :: operations ++ [.endSynchronizedUpdate]

/-- The relative move between two rows, none where they are the same. -/
def moveBetween (target current : Nat) : List TerminalOperation :=
  if target = current then [] else [.moveRelative ((target : Int) - current)]

/-- `_cursor_position_operations`. -/
def cursorPositionOperations (cursor : CursorDeclaration) (currentRow : Nat) : List TerminalOperation :=
  moveBetween cursor.row currentRow ++ [.moveColumn cursor.column]

/-- `_hide_position_and_show_cursor`. -/
def hidePositionAndShowCursor (cursor : CursorDeclaration) (currentRow : Nat) :
    List TerminalOperation :=
  .hideCursor :: cursorPositionOperations cursor currentRow ++ [.showCursor]

/-- `_render_then_position_cursor`. -/
def renderThenPositionCursor (operations : List TerminalOperation) (cursor : Option CursorDeclaration)
    (currentRow : Nat) : List TerminalOperation :=
  match cursor with
  | none => .hideCursor :: wrapSynchronized operations
  | some cursor =>
    .hideCursor :: wrapSynchronized operations ++ cursorPositionOperations cursor currentRow ++
      [.showCursor]

/-- `_full_write_operations`. -/
def fullWriteOperations (lines : List Text) (cursor : Option CursorDeclaration) :
    List TerminalOperation :=
  renderThenPositionCursor (writeLines lines) cursor (lines.length - 1)

/-- `_append_operations`. -/
def appendOperations (lines : List Text) (appendStart hardwareCursorRow : Nat)
    (cursor : Option CursorDeclaration) : List TerminalOperation :=
  renderThenPositionCursor
    (moveBetween (appendStart - 1) hardwareCursorRow ++ .newline :: writeLines lines)
    cursor (appendStart + lines.length - 1)

/-- `_shrink_clear_operations`. -/
def shrinkClearOperations (extraLines targetRow hardwareCursorRow : Nat) (deletes : List Text) :
    List TerminalOperation :=
  wrapSynchronized
    (kittyDeleteOperations deletes ++ moveBetween targetRow hardwareCursorRow ++ [.carriageReturn] ++
      (if 0 < extraLines then
        .newline :: .clearLine ::
          (List.replicate (extraLines - 1) [TerminalOperation.newline, .clearLine]).flatten ++
            [.moveRelative (-(extraLines : Int))]
      else []))

/-- The loop of `_changed_range_operations` over the changed lines. -/
def rewriteLines : List Text → List TerminalOperation
  | [] => []
  | line :: rest =>
    .clearLine :: .write line :: rest.flatMap fun line => [.newline, .clearLine, .write line]

/-- `_changed_range_operations`. -/
def changedRangeOperations (currentLines previousLines : List Text) (range : Nat × Nat)
    (hardwareCursorRow : Nat) (cursor : Option CursorDeclaration) (deletes : List Text) :
    List TerminalOperation :=
  let renderEnd := min range.2 (currentLines.length - 1)
  let cleared := previousLines.length - currentLines.length
  renderThenPositionCursor
    (kittyDeleteOperations deletes ++ moveBetween range.1 hardwareCursorRow ++ [.carriageReturn] ++
      rewriteLines ((currentLines.take (renderEnd + 1)).drop range.1) ++
      (List.replicate cleared [TerminalOperation.newline, .clearLine]).flatten)
    cursor (renderEnd + cleared)

/-- The lines a repaint writes from the first row of the screen: those that leave it too where the
viewport scrolls, else the visible ones and blank rows. -/
def repaintedLines (lines : List Text) (top scrollStart : Nat) (size : TerminalSize) : List Text :=
  let visibleLines := (lines.take (top + size.rows)).drop top
  if scrollStart < top then (lines.take (top + size.rows)).drop scrollStart
  else visibleLines ++ List.replicate (size.rows - visibleLines.length) []

/-- `_managed_viewport_repaint_operations`, without a rebased frontier. -/
def managedViewportRepaintOperations (lines previousLines : List Text)
    (cursor : Option CursorDeclaration) (top previousViewportTop scrollbackViewportTop : Nat)
    (size : TerminalSize) (hardwareCursorRow : Nat) (deletes : List Text) : List TerminalOperation :=
  let visibleLines := (lines.take (top + size.rows)).drop top
  let fullViewport := size.rows ≤ lines.length ∨ size.rows ≤ previousLines.length
  let scrollStart := min top (max previousViewportTop scrollbackViewportTop)
  let home : List TerminalOperation :=
    if fullViewport then [.moveCursor 0 0]
    else moveBetween 0 (hardwareCursorRow - previousViewportTop) ++ [.carriageReturn]
  let physicalRow := if scrollStart < top then visibleLines.length - 1 else size.rows - 1
  [.hideCursor, .beginSynchronizedUpdate] ++ kittyDeleteOperations deletes ++ home ++
    writeClearedLines (repaintedLines lines top scrollStart size) ++ [.endSynchronizedUpdate] ++
    (match cursor with
      | none => []
      | some cursor =>
        let row := clip size.rows ((cursor.row : Int) - top)
        if fullViewport then [.moveCursor row cursor.column]
        else moveBetween row physicalRow ++ [.moveColumn cursor.column]) ++
    [.showCursor]

/-! ## Strategies -/

/-- The strategies, in `DEFAULT_STRATEGY_ORDER`. -/
inductive RenderPlanStrategyKind where
  | firstRender
  | noChange
  | append
  | protectedAppend
  | shrinkViewportRepaint
  | shrinkClear
  | changedAboveViewport
  | changedRange

def defaultStrategyOrder : List RenderPlanStrategyKind :=
  [.firstRender, .noChange, .append, .protectedAppend, .shrinkViewportRepaint, .shrinkClear,
    .changedAboveViewport, .changedRange]

/-- `_hardware_row_after_write`. -/
def hardwareRowAfterWrite (lines : List Text) (cursor : Option CursorDeclaration) : Nat :=
  match cursor with
  | some cursor => cursor.row
  | none => lines.length - 1

/-- `_cursor_or_line_end`. -/
def cursorOrLineEnd (visibleWidth : Text → Nat) (cursor : Option CursorDeclaration)
    (lines : List Text) : CursorDeclaration :=
  cursor.getD ⟨lines.length - 1, (lines.getLast?.map visibleWidth).getD 0⟩

/-- `_changed_range_hardware_cursor`. -/
def changedRangeHardwareCursor (visibleWidth : Text → Nat) (currentLines previousLines : List Text)
    (renderEnd : Nat) (declaredCursor : Option CursorDeclaration) (size : TerminalSize) :
    CursorDeclaration :=
  match declaredCursor with
  | some cursor => cursor
  | none =>
    let cleared := previousLines.length - currentLines.length
    if 0 < cleared then ⟨renderEnd + cleared, 0⟩
    else if currentLines = [] then ⟨0, 0⟩
    else
      ⟨renderEnd, min ((currentLines[renderEnd]?.map visibleWidth).getD 0) (size.columns - 1)⟩

/-- `_protected_append_candidate` finds one. -/
def protectedAppendCandidate (currentLines previousLines : List Text)
    (firstChanged appendedLines : Nat) (cursor : Option CursorDeclaration) (size : TerminalSize) :
    Bool :=
  let protectedStart := firstChanged + appendedLines
  match cursor with
  | none => false
  | some cursor =>
    0 < appendedLines ∧ size.rows ≤ currentLines.length ∧ 0 < firstChanged ∧
      protectedStart < currentLines.length ∧ firstChanged ≤ previousLines.length ∧
      currentLines.length - protectedStart < size.rows ∧ protectedStart ≤ cursor.row

namespace CommittedFrame

/-- `_build_plan_context`. -/
def buildPlanContext (chars : Characters) (visibleWidth : Text → Nat) (size : TerminalSize)
    (l : CommittedFrame) (result : RenderResult) : RenderPlanContext :=
  let currentLines :=
    finalizeRenderedLines result.lines (.flat l.previousRawLines) (.flat l.previousRenderedLines)
  let previousLines := l.previousRenderedLines
  let changedRange := expandChangedRangeForKittyImages chars (.flat previousLines)
    (changedLineRange (.flat previousLines) (.flat currentLines))
  let appendedLines := currentLines.length - previousLines.length
  let top := viewportTop currentLines size
  { size
    rawCurrentLines := result.lines
    currentLines
    previousLines
    declaredCursor := result.cursor
    cursor := cursorOrLineEnd visibleWidth result.cursor currentLines
    changedRange
    appendedLines
    appendStart := changedRange.bind fun range =>
      if 0 < appendedLines ∧ range.1 = previousLines.length ∧ 0 < range.1 then some range.1 else none
    viewportTop := top
    differentialViewportTop :=
      if currentLines.length < previousLines.length then max l.previousViewportTop top else top
    previousKittyDeleteSequences := kittyDeleteSequences chars (.flat previousLines) }

/-- The `match` of a strategy. -/
def accepts (l : CommittedFrame) (c : RenderPlanContext) : RenderPlanStrategyKind → Bool
  | .firstRender => !l.rendered
  | .noChange => c.changedRange.isNone
  | .append => c.appendStart.isSome
  | .protectedAppend => c.changedRange.any fun range =>
      protectedAppendCandidate c.currentLines c.previousLines range.1 c.appendedLines
        c.declaredCursor c.size
  | .shrinkViewportRepaint =>
    c.currentLines.length < c.previousLines.length ∧ c.viewportTop < l.previousViewportTop
  | .shrinkClear => c.changedRange.any fun range =>
      c.currentLines.length ≤ range.1 ∧ c.currentLines.length < c.previousLines.length
  | .changedAboveViewport => c.changedRange.any fun range =>
      range.1 < max l.previousViewportTop c.viewportTop
  | .changedRange => c.changedRange.isSome

/-- `_diagnostics`. -/
def diagnostics (c : RenderPlanContext) (operations : List TerminalOperation) (top : Nat)
    (hardwareCursor : CursorDeclaration) : RenderDiagnostics where
  currentLogicalLines := c.currentLines
  rawLogicalLines := c.rawCurrentLines
  operations := operations
  viewportTop := top
  logicalCursor := c.cursor
  hardwareCursor := hardwareCursor

/-- `_managed_viewport_repaint_diagnostics`. -/
def managedViewportRepaintDiagnostics (l : CommittedFrame) (c : RenderPlanContext)
    (deletes : List Text) : RenderDiagnostics :=
  diagnostics c
    (managedViewportRepaintOperations c.currentLines c.previousLines c.declaredCursor
      (viewportTop c.currentLines c.size) l.previousViewportTop l.scrollbackViewportTop c.size
      l.hardwareCursorRow deletes)
    (viewportTop c.currentLines c.size)
    ⟨hardwareRowAfterWrite c.currentLines c.declaredCursor, c.cursor.column⟩

/-- `_protected_append_plan` finds one: the lines behind the inserted ones are the old ones. -/
def pureProtectedAppend (c : RenderPlanContext) (firstChanged : Nat) : Bool :=
  c.previousLines.drop firstChanged = c.currentLines.drop (firstChanged + c.appendedLines)

/-- The `plan` of a strategy that accepts the context. -/
def planWith (chars : Characters) (visibleWidth : Text → Nat) (l : CommittedFrame)
    (c : RenderPlanContext) : RenderPlanStrategyKind → RenderDiagnostics
  | .firstRender =>
    diagnostics c (fullWriteOperations c.currentLines c.declaredCursor) c.viewportTop
      ⟨hardwareRowAfterWrite c.currentLines c.declaredCursor, c.cursor.column⟩
  | .noChange =>
    if c.cursor ≠ ⟨l.previousCursorRow, l.previousCursorColumn⟩ then
      diagnostics c (hidePositionAndShowCursor c.cursor l.hardwareCursorRow) c.viewportTop c.cursor
    else diagnostics c [] c.viewportTop ⟨l.hardwareCursorRow, l.hardwareCursorColumn⟩
  | .append =>
    let start := c.appendStart.getD 0
    diagnostics c
      (appendOperations (c.currentLines.drop start) start l.hardwareCursorRow c.declaredCursor)
      c.viewportTop ⟨hardwareRowAfterWrite c.currentLines c.declaredCursor, c.cursor.column⟩
  | .protectedAppend =>
    let first := (c.changedRange.map Prod.fst).getD 0
    l.managedViewportRepaintDiagnostics c
      (if pureProtectedAppend c first then
        kittyDeleteSequences chars (.flat (c.previousLines.drop first))
      else c.previousKittyDeleteSequences)
  | .shrinkViewportRepaint | .changedAboveViewport =>
    l.managedViewportRepaintDiagnostics c c.previousKittyDeleteSequences
  | .shrinkClear =>
    let range := c.changedRange.getD (0, 0)
    let target := c.currentLines.length - 1
    diagnostics c
      (shrinkClearOperations (c.previousLines.length - c.currentLines.length) target
        l.hardwareCursorRow (kittyDeleteSequencesInRange chars (.flat c.previousLines) range.1 range.2))
      c.differentialViewportTop ⟨target, c.cursor.column⟩
  | .changedRange =>
    let range := c.changedRange.getD (0, 0)
    diagnostics c
      (changedRangeOperations c.currentLines c.previousLines range l.hardwareCursorRow
        c.declaredCursor (kittyDeleteSequencesInRange chars (.flat c.previousLines) range.1 range.2))
      c.differentialViewportTop
      (changedRangeHardwareCursor visibleWidth c.currentLines c.previousLines
        (min range.2 (c.currentLines.length - 1)) c.declaredCursor c.size)

/-- `plan`; none where no strategy accepts the context. -/
def plan (chars : Characters) (visibleWidth : Text → Nat) (size : TerminalSize) (l : CommittedFrame)
    (result : RenderResult) : Option RenderDiagnostics :=
  let context := l.buildPlanContext chars visibleWidth size result
  (defaultStrategyOrder.find? (l.accepts context)).map (l.planWith chars visibleWidth context)

/-- `commit`; its revision is the one the plan was made on. -/
def commit (l : CommittedFrame) (d : RenderDiagnostics) : CommittedFrame where
  rendered := true
  previousRenderedLines := d.currentLogicalLines
  previousRawLines := d.rawLogicalLines
  previousViewportTop := d.viewportTop
  scrollbackViewportTop := max l.scrollbackViewportTop d.viewportTop
  hardwareCursorRow := d.hardwareCursor.row
  hardwareCursorColumn := d.hardwareCursor.column
  previousCursorRow := d.logicalCursor.row
  previousCursorColumn := d.logicalCursor.column

end CommittedFrame

end Loushang.Tui
