import Loushang.Tui.RenderPlan
import Loushang.Tui.ScreenRows

/-!
# What the operations of a plan draw

The effect of each operation list of a plan on the tape a screen shows: which rows of the tape it
writes, and where window and cursor stand behind it.
-/
namespace Loushang.Tui
open Loushang.Lib

variable {size : TerminalSize} {s : FakeScreen size} {top row column : Nat} {tape : Nat → Text}

theorem apply_append (s : FakeScreen size) (front back : List TerminalOperation) :
    s.apply (front ++ back) = (s.apply front).apply back := List.foldl_append

theorem apply_cons (s : FakeScreen size) (operation : TerminalOperation)
    (rest : List TerminalOperation) :
    s.apply (operation :: rest) = (s.applyOne operation).apply rest := rfl

/-! ## Blocks of lines -/

namespace Shows

variable {lines : List Text}

/-- Lines below the cursor, where the tape is blank. -/
theorem followed (shows : Shows s top tape row column) (blank : ∀ i, row < i → tape i = [])
    (plain : ∀ line ∈ lines, PlainLine size.columns line) :
    ∃ column', Shows (s.apply (lines.flatMap fun line => [.newline, .write line]))
      (max top (row + lines.length + 1 - size.rows)) (written tape (row + 1) lines)
      (row + lines.length) column' := by
  induction lines generalizing s top tape row column with
  | nil =>
    have inside := shows.inside
    refine ⟨column, ?_⟩
    rw [List.length_nil, Nat.add_zero, show max top (row + 1 - size.rows) = top by omega]
    exact shows
  | cons line rest ih =>
    have step := shows.newline.write (blank _ (Nat.lt_succ_self row)) (plain line List.mem_cons_self)
    obtain ⟨column', later⟩ := ih step (by
      intro i below
      rw [Function.update_of_ne (by omega), blank i (by omega)])
      (fun line member => plain line (List.mem_cons_of_mem _ member))
    refine ⟨column', ?_⟩
    rw [List.flatMap_cons, apply_append, written, List.length_cons,
      show row + (rest.length + 1) = row + 1 + rest.length by omega]
    rwa [show max (max top (row + 2 - size.rows)) (row + 1 + rest.length + 1 - size.rows) =
      max top (row + 1 + rest.length + 1 - size.rows) by omega] at later

/-- Lines below the cursor, on rows that are blanked before. -/
theorem rewritten (shows : Shows s top tape row column) (plain : ∀ line ∈ lines, PlainLine size.columns line) :
    ∃ column', Shows (s.apply (lines.flatMap fun line => [.newline, .clearLine, .write line]))
      (max top (row + lines.length + 1 - size.rows)) (written tape (row + 1) lines)
      (row + lines.length) column' := by
  induction lines generalizing s top tape row column with
  | nil =>
    have inside := shows.inside
    refine ⟨column, ?_⟩
    rw [List.length_nil, Nat.add_zero, show max top (row + 1 - size.rows) = top by omega]
    exact shows
  | cons line rest ih =>
    have step := shows.newline.clearLine.write (Function.update_self _ _ _)
      (plain line List.mem_cons_self)
    rw [Function.update_idem] at step
    obtain ⟨column', later⟩ := ih step fun line member => plain line (List.mem_cons_of_mem _ member)
    refine ⟨column', ?_⟩
    rw [List.flatMap_cons, apply_append, written, List.length_cons,
      show row + (rest.length + 1) = row + 1 + rest.length by omega]
    rwa [show max (max top (row + 2 - size.rows)) (row + 1 + rest.length + 1 - size.rows) =
      max top (row + 1 + rest.length + 1 - size.rows) by omega] at later

theorem rewriteLines (shows : Shows s top tape row 0) (some : lines ≠ [])
    (plain : ∀ line ∈ lines, PlainLine size.columns line) :
    ∃ column', Shows (s.apply (rewriteLines lines)) (max top (row + lines.length - size.rows))
      (written tape row lines) (row + (lines.length - 1)) column' := by
  cases lines with
  | nil => exact absurd rfl some
  | cons line rest =>
    have step := shows.clearLine.write (Function.update_self _ _ _) (plain line List.mem_cons_self)
    rw [Function.update_idem] at step
    exact step.rewritten fun line member => plain line (List.mem_cons_of_mem _ member)

/-- Rows below the cursor that are only blanked. -/
theorem blanked (shows : Shows s top tape row column) (count : Nat) :
    Shows (s.apply (List.replicate count [TerminalOperation.newline, .clearLine]).flatten)
      (max top (row + count + 1 - size.rows)) (written tape (row + 1) (List.replicate count []))
      (row + count) (if count = 0 then column else 0) := by
  induction count generalizing s top tape row column with
  | zero =>
    have inside := shows.inside
    rw [Nat.add_zero, show max top (row + 1 - size.rows) = top by omega]
    exact shows
  | succ count ih =>
    have later := ih shows.newline.clearLine
    rw [List.replicate_succ, List.replicate_succ, List.flatten_cons, apply_append, written, rstrip_nil,
      if_neg (Nat.succ_ne_zero count), show row + (count + 1) = row + 1 + count by omega]
    rwa [ite_self, show max (max top (row + 2 - size.rows)) (row + 1 + count + 1 - size.rows) =
      max top (row + 1 + count + 1 - size.rows) by omega] at later

theorem writeLines (shows : Shows s top tape row 0) (lines : List Text)
    (blank : ∀ i, row ≤ i → tape i = []) (plain : ∀ line ∈ lines, PlainLine size.columns line) :
    ∃ column', Shows (s.apply (writeLines lines)) (max top (row + lines.length - size.rows))
      (written tape row lines) (row + (lines.length - 1)) column' := by
  cases lines with
  | nil =>
    have inside := shows.inside
    refine ⟨0, ?_⟩
    rw [List.length_nil, Nat.zero_sub, Nat.add_zero, show max top (row - size.rows) = top by omega]
    exact shows
  | cons line rest =>
    have step := shows.write (blank _ (Nat.le_refl row)) (plain line List.mem_cons_self)
    exact step.followed (by
      intro i below
      rw [Function.update_of_ne (by omega), blank i (by omega)])
      (fun line member => plain line (List.mem_cons_of_mem _ member))

theorem writeClearedLines (shows : Shows s top tape row 0) (some : lines ≠ [])
    (plain : ∀ line ∈ lines, PlainLine size.columns line) :
    ∃ column', Shows (s.apply (writeClearedLines lines)) (max top (row + lines.length - size.rows))
      (written tape row lines) (row + (lines.length - 1)) column' := by
  induction lines generalizing s top tape row with
  | nil => exact absurd rfl some
  | cons line rest ih =>
    have plainLine := plain line List.mem_cons_self
    cases rest with
    | nil =>
      have inside := shows.inside
      have step := shows.clearLine.write (Function.update_self _ _ _) plainLine
      rw [Function.update_idem] at step
      refine ⟨line.length, ?_⟩
      rw [List.length_singleton, Nat.sub_self, Nat.add_zero,
        show max top (row + 1 - size.rows) = top by omega]
      exact step
    | cons next rest =>
      have step := shows.clearLine.writeBroken (Function.update_self _ _ _) plainLine
      rw [Function.update_idem] at step
      obtain ⟨column', later⟩ := ih step (List.cons_ne_nil _ _)
        (fun line member => plain line (List.mem_cons_of_mem _ member))
      refine ⟨column', ?_⟩
      simp only [List.length_cons, Nat.add_sub_cancel] at later ⊢
      rw [show max (max top (row + 2 - size.rows)) (row + 1 + (rest.length + 1) - size.rows) =
        max top (row + (rest.length + 1 + 1) - size.rows) by omega,
        show row + 1 + rest.length = row + (rest.length + 1) by omega] at later
      exact later

/-! ## The cursor -/

theorem moveBetween (shows : Shows s top tape row column) (target : Nat)
    (inside : top ≤ target ∧ target < top + size.rows) :
    Shows (s.apply (moveBetween target row)) top tape target column := by
  unfold Tui.moveBetween
  split
  · next same =>
    rw [same]
    exact shows
  · exact shows.moveRelative target inside

theorem cursorPosition (shows : Shows s top tape row column) {cursor : CursorDeclaration}
    (inside : top ≤ cursor.row ∧ cursor.row < top + size.rows) :
    Shows (s.apply (cursorPositionOperations cursor row)) top tape cursor.row
      (clip size.columns cursor.column) := by
  unfold cursorPositionOperations
  rw [apply_append]
  exact (shows.moveBetween cursor.row inside).moveColumn cursor.column

end Shows

/-- A declared cursor lies in the window, and on a column. -/
def CursorInside (size : TerminalSize) (top : Nat) (cursor : Option CursorDeclaration) : Prop :=
  ∀ declared ∈ cursor, (top ≤ declared.row ∧ declared.row < top + size.rows) ∧
    declared.column < size.columns

/-- Where the cursor is declared, it is there. -/
def CursorAt (cursor : Option CursorDeclaration) (row column : Nat) : Prop :=
  ∀ declared ∈ cursor, declared.row = row ∧ declared.column = column

/-- The screen shows a tape, with the cursor where it is declared or else on a row. -/
def ShowsWith {size : TerminalSize} (s : FakeScreen size) (top : Nat) (tape : Nat → Text)
    (cursor : Option CursorDeclaration) (row : Nat) : Prop :=
  ∃ column, Shows s top tape row column ∧ CursorAt cursor row column

theorem renderThenPositionCursor_spec {operations : List TerminalOperation}
    {cursor : Option CursorDeclaration} (drawn : ∃ column, Shows (s.apply operations) top tape row column)
    (inside : CursorInside size top cursor) :
    ShowsWith (s.apply (renderThenPositionCursor operations cursor row)) top tape cursor
      ((cursor.map CursorDeclaration.row).getD row) := by
  obtain ⟨column, drawn⟩ := drawn
  have wrapped : s.apply (.hideCursor :: wrapSynchronized operations) = s.apply operations := by
    unfold wrapSynchronized
    rw [apply_cons, apply_append]
    rfl
  unfold renderThenPositionCursor
  cases cursor with
  | none =>
    refine ⟨column, ?_, by intro declared member; cases member⟩
    rw [wrapped]
    exact drawn
  | some cursor =>
    obtain ⟨window, fits⟩ := inside cursor rfl
    refine ⟨cursor.column, ?_, by
      intro declared member
      rw [← Option.mem_some.mp member]
      exact ⟨rfl, rfl⟩⟩
    rw [apply_append, apply_append, wrapped, ← clip_of_lt fits]
    exact drawn.cursorPosition window

end Loushang.Tui

/-!
## Frames of plain lines

Plain lines are written as they are and draw no images, so the plan for a frame of plain lines sees the
lines themselves, and the rows where they are not those of the frame before.
-/

namespace Loushang.Tui
open Loushang.Lib

/-! ## What a plain line is written as -/

section Lines
variable {size : TerminalSize} {columns : Nat} {line : Text} {chars : Characters}

theorem PlainLine.noEscape (plain : PlainLine columns line) : (0x1b : CodePoint) ∉ line :=
  fun member => (plain.plain _ member).1 rfl

theorem PlainLine.finalizeRenderedLine_eq (plain : PlainLine columns line) :
    finalizeRenderedLine line = line := by
  have noImage : isTerminalImageLine line = false := by
    unfold isTerminalImageLine
    rw [findSub_of_not_mem (by decide) plain.noEscape, findSub_of_not_mem (by decide) plain.noEscape]
    rfl
  have normal : normalizeTerminalOutput line = line := by
    unfold normalizeTerminalOutput
    have kept : ∀ text : Text, (∀ point ∈ text, PlainPoint point) → (text.flatMap fun point =>
        if point = 0xe33 then [0xe4d, 0xe32] else if point = 0xeb3 then [0xecd, 0xeb2] else [point]) =
          text := by
      intro text plain
      induction text with
      | nil => rfl
      | cons point rest ih =>
        obtain ⟨_, noThai, noLao, _⟩ := plain point List.mem_cons_self
        rw [List.flatMap_cons, if_neg noThai, if_neg noLao,
          ih fun point member => plain point (List.mem_cons_of_mem _ member), List.singleton_append]
    exact kept line plain.plain
  have unescaped : line.contains (0x1b : CodePoint) = false := by
    rw [List.contains_eq_mem]
    exact decide_eq_false plain.noEscape
  unfold finalizeRenderedLine
  rw [noImage, normal]
  dsimp only
  rw [unescaped]
  rfl

theorem PlainLine.extractKittyImageIds_eq (plain : PlainLine columns line) :
    extractKittyImageIds chars line = [] := by
  unfold extractKittyImageIds imageIdsFrom
  rw [findSub_of_not_mem (by decide) plain.noEscape]
  rfl

variable {lines : List Text}

theorem deletesOf_plain (plain : ∀ line ∈ lines, PlainLine columns line) :
    deletesOf chars lines = [] := by
  have none : (lines.flatMap fun line =>
      (extractKittyImageIds chars line).map fun id => (id, deleteSequence line id)) = [] := by
    refine List.flatMap_eq_nil_iff.mpr ?_
    intro line member
    rw [(plain line member).extractKittyImageIds_eq]
    rfl
  unfold deletesOf
  rw [none]
  rfl

theorem expandChangedRange_plain (plain : ∀ line ∈ lines, PlainLine columns line)
    (range : Option (Nat × Nat)) : expandChangedRangeForKittyImages chars (.flat lines) range = range := by
  cases range with
  | none => rfl
  | some range =>
    obtain ⟨first, last⟩ := range
    unfold expandChangedRangeForKittyImages
    dsimp only
    have still : ∀ rows : List Nat, rows.foldl (fun last row =>
        if ((lines[row]?).any fun line => !(extractKittyImageIds chars line).isEmpty) then max last row
        else last) last = last := by
      intro rows
      induction rows with
      | nil => rfl
      | cons row rest ih =>
        have noImage : ((lines[row]?).any fun line => !(extractKittyImageIds chars line).isEmpty) =
            false := by
          cases found : lines[row]? with
          | none => rfl
          | some line =>
            rw [Option.any_some, (plain line (List.mem_of_getElem? found)).extractKittyImageIds_eq]
            rfl
        rw [List.foldl_cons, noImage]
        exact ih
    rw [still]

theorem kittyDeleteSequencesInRange_plain (plain : ∀ line ∈ lines, PlainLine columns line)
    (first last : Nat) : kittyDeleteSequencesInRange chars (.flat lines) first last = [] := by
  unfold kittyDeleteSequencesInRange
  split
  · rfl
  · have inRange : ∀ line ∈ (lines.take (min (last + 1) lines.length)).drop first,
        PlainLine columns line := fun line member =>
      plain line (List.mem_of_mem_take (List.mem_of_mem_drop member))
    exact deletesOf_plain inRange

end Lines

/-! ## The changed range -/

theorem rangeOf_spec (same : Nat → Bool) (bound : Nat) :
    match rangeOf same bound with
    | none => ∀ row < bound, same row = true
    | some (first, last) =>
      (first ≤ last ∧ last < bound) ∧ (same first = false ∧ same last = false) ∧
        ∀ row < bound, row < first ∨ last < row → same row = true := by
  unfold rangeOf
  induction bound with
  | zero =>
    intro row below
    exact absurd below (Nat.not_lt_zero row)
  | succ bound ih =>
    rw [List.range_succ, List.foldl_append, List.foldl_cons, List.foldl_nil]
    cases last : same bound with
    | true =>
      rw [if_pos rfl]
      generalize (List.range bound).foldl (fun range row =>
        if same row then range else some ((range.map Prod.fst).getD row, row)) none = range at ih ⊢
      cases range with
      | none =>
        intro row below
        rcases Nat.lt_succ_iff_lt_or_eq.mp below with before | here
        · exact ih row before
        · rw [here, last]
      | some range =>
        obtain ⟨⟨ordered, inside⟩, ends, outside⟩ := ih
        refine ⟨⟨ordered, by omega⟩, ends, ?_⟩
        intro row below beside
        rcases Nat.lt_succ_iff_lt_or_eq.mp below with before | here
        · exact outside row before beside
        · rw [here, last]
    | false =>
      rw [if_neg Bool.false_ne_true]
      generalize (List.range bound).foldl (fun range row =>
        if same row then range else some ((range.map Prod.fst).getD row, row)) none = range at ih ⊢
      cases range with
      | none =>
        refine ⟨⟨Nat.le_refl _, Nat.lt_succ_self _⟩, ⟨last, last⟩, ?_⟩
        intro row below beside
        have beside : row < bound ∨ bound < row := beside
        exact ih row (by omega)
      | some range =>
        obtain ⟨⟨ordered, inside⟩, ends, outside⟩ := ih
        have inside : range.2 < bound := inside
        have ordered : range.1 ≤ range.2 := ordered
        refine ⟨⟨?_, Nat.lt_succ_self _⟩, ⟨ends.1, last⟩, ?_⟩
        · show range.1 ≤ bound
          omega
        · intro row below beside
          have beside : row < range.1 ∨ bound < row := beside
          exact outside row (by omega) (Or.inl (by omega))

/-- The row of lines, blank behind the last. -/
def rowAt (lines : List Text) (row : Nat) : Text := (lines[row]?).getD []

variable {lines : List Text}

theorem rowAt_of_le {row : Nat} (behind : lines.length ≤ row) : rowAt lines row = [] := by
  unfold rowAt
  rw [List.getElem?_eq_none behind, Option.getD_none]

/-- `_changed_line_range` of plain line lists. -/
def changedRows (previous current : List Text) : Option (Nat × Nat) :=
  changedLineRange (.flat previous) (.flat current)

theorem changedRows_eq (previous current : List Text) :
    changedRows previous current =
      rangeOf (fun row => rowAt previous row = rowAt current row) (max previous.length current.length) := by
  show changedLineRangeFlat (.flat previous) (.flat current) = _
  rw [changedLineRangeFlat_rangeOf]
  refine rangeOf_congr ?_
  intro row _
  rw [lineAt_flat, lineAt_flat]
  rfl

variable {previous current : List Text}

theorem changedRows_none (unchanged : changedRows previous current = none) (row : Nat) :
    rowAt previous row = rowAt current row := by
  have spec := rangeOf_spec (fun row => decide (rowAt previous row = rowAt current row))
    (max previous.length current.length)
  rw [← changedRows_eq, unchanged] at spec
  by_cases inside : row < max previous.length current.length
  · exact of_decide_eq_true (spec row inside)
  · rw [rowAt_of_le (by omega), rowAt_of_le (by omega)]

/-- What the changed range says: its ends are changed rows, and nothing beside it is. -/
structure ChangedRows (previous current : List Text) (range : Nat × Nat) : Prop where
  ordered : range.1 ≤ range.2
  inside : range.2 < max previous.length current.length
  first : rowAt previous range.1 ≠ rowAt current range.1
  last : rowAt previous range.2 ≠ rowAt current range.2
  beside : ∀ row, row < range.1 ∨ range.2 < row → rowAt previous row = rowAt current row

theorem changedRows_some {range : Nat × Nat} (changed : changedRows previous current = some range) :
    ChangedRows previous current range := by
  have spec := rangeOf_spec (fun row => decide (rowAt previous row = rowAt current row))
    (max previous.length current.length)
  rw [← changedRows_eq, changed] at spec
  obtain ⟨⟨ordered, inside⟩, ⟨first, last⟩, beside⟩ := spec
  refine ⟨ordered, inside, of_decide_eq_false first, of_decide_eq_false last, ?_⟩
  intro row outside
  by_cases below : row < max previous.length current.length
  · exact of_decide_eq_true (beside row below outside)
  · rw [rowAt_of_le (by omega), rowAt_of_le (by omega)]

/-! ## The context of a plan -/

/-- A frame of plain lines, its cursor, where it declares one, inside the visible window. -/
structure Drawable (size : TerminalSize) (frame : RenderResult) : Prop where
  plain : ∀ line ∈ frame.lines, PlainLine size.columns line
  cursor : CursorInside size (viewportTop frame.lines size) frame.cursor

theorem finalizeRenderedLines_plain {columns : Nat} (plain : ∀ line ∈ lines, PlainLine columns line)
    (previous : List Text) : finalizeRenderedLines lines (.flat previous) (.flat previous) = lines := by
  unfold finalizeRenderedLines
  dsimp only
  apply List.ext_getElem?
  intro index
  rw [List.getElem?_mapIdx]
  cases found : lines[index]? with
  | none => rfl
  | some line =>
    rw [Option.map_some]
    split
    · next known =>
      have same : previous[index]? = some line := known.2
      show some ((previous[index]?).getD []) = some line
      rw [same, Option.getD_some]
    · rw [(plain line (List.mem_of_getElem? found)).finalizeRenderedLine_eq]

variable {size : TerminalSize} {l : CommittedFrame} {frame : RenderResult}

/-- The committed lines are plain, and were written as they are. -/
structure CommittedFrame.Plain (columns : Nat) (l : CommittedFrame) : Prop where
  raw : l.previousRawLines = l.previousRenderedLines
  plain : ∀ line ∈ l.previousRenderedLines, PlainLine columns line

/-- The context of the plan for a frame of plain lines. -/
def plainContext (visibleWidth : Text → Nat) (size : TerminalSize) (l : CommittedFrame)
    (frame : RenderResult) : RenderPlanContext where
  size := size
  rawCurrentLines := frame.lines
  currentLines := frame.lines
  previousLines := l.previousRenderedLines
  declaredCursor := frame.cursor
  cursor := cursorOrLineEnd visibleWidth frame.cursor frame.lines
  changedRange := changedRows l.previousRenderedLines frame.lines
  appendedLines := frame.lines.length - l.previousRenderedLines.length
  appendStart := (changedRows l.previousRenderedLines frame.lines).bind fun range =>
    if 0 < frame.lines.length - l.previousRenderedLines.length ∧
      range.1 = l.previousRenderedLines.length ∧ 0 < range.1 then some range.1 else none
  viewportTop := viewportTop frame.lines size
  differentialViewportTop :=
    if frame.lines.length < l.previousRenderedLines.length then
      max l.previousViewportTop (viewportTop frame.lines size)
    else viewportTop frame.lines size
  previousKittyDeleteSequences := []

theorem buildPlanContext_plain (chars : Characters) (visibleWidth : Text → Nat)
    (committed : l.Plain size.columns) (drawable : Drawable size frame) :
    l.buildPlanContext chars visibleWidth size frame = plainContext visibleWidth size l frame := by
  have noDeletes : kittyDeleteSequences chars (.flat l.previousRenderedLines) = [] :=
    deletesOf_plain committed.plain
  unfold CommittedFrame.buildPlanContext plainContext
  rw [committed.raw, finalizeRenderedLines_plain drawable.plain]
  dsimp only
  rw [noDeletes, expandChangedRange_plain committed.plain]
  rfl

end Loushang.Tui
