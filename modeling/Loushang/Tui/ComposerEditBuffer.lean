import Loushang.Tui.UndoBuffer

/-!
# The composer's edit buffer

`ComposerEditBuffer` of `tui/composer_edit_buffer.py`, whose items are characters and paste
markers. Unlike an editor buffer it bounds both stacks, an edit of it forgets what could be
redone even when it is not recorded, and a composite edit that moves only the cursor is not
recorded. How many cells a label takes is a parameter.
-/
namespace Loushang.Tui
open Loushang.Lib

structure ComposerPasteMarker where
  markerId : Int
  text : PyStr
  label : PyStr
  deriving DecidableEq

inductive ComposerAtom where
  | text (cluster : PyStr)
  | marker (marker : ComposerPasteMarker)
  deriving DecidableEq

def atomValue : ComposerAtom → PyStr
  | .text cluster => cluster
  | .marker marker => marker.text

def atomDisplay : ComposerAtom → PyStr
  | .text cluster => cluster
  | .marker marker => marker.label

def atomKind (unicode : Unicode) : ComposerAtom → Kind
  | .text cluster => clusterKind unicode cluster
  | .marker _ => .pasteMarker

def cursorAdvance (visibleWidth : PyStr → Nat) : ComposerAtom → Nat
  | .text cluster => if isNewline cluster then 1 else visibleWidth cluster
  | .marker marker => visibleWidth marker.label

def textAtoms (unicode : Unicode) (text : PyStr) : List ComposerAtom :=
  (graphemeClusters unicode text).map .text

abbrev ComposerEditBuffer := UndoBuffer ComposerAtom

abbrev ComposerSnapshot := Snapshot ComposerAtom

namespace ComposerEditBuffer

def create (maxUndoDepth : Option ℕ+) : ComposerEditBuffer :=
  ⟨[], 0, ⟨maxUndoDepth, []⟩, ⟨maxUndoDepth, []⟩⟩

def value (b : ComposerEditBuffer) : PyStr := PyStr.concat (b.items.map atomValue)

def displayText (b : ComposerEditBuffer) : PyStr := PyStr.concat (b.items.map atomDisplay)

def displayCursor (visibleWidth : PyStr → Nat) (b : ComposerEditBuffer) : Nat :=
  ((b.items.take b.cursor).map (cursorAdvance visibleWidth)).sum

/-- `if record: self.push_undo()`, and `self._redo_stack.clear()` behind the edit. -/
def recording (record : Bool) (b : ComposerEditBuffer) : ComposerEditBuffer :=
  let pushed := if record then b.pushUndo b.snapshot else b
  { pushed with redoStack := pushed.redoStack.clear }

/-- Without `record` the redo stack stays. -/
def setAtoms (atoms : List ComposerAtom) (cursor : Option Int) (record : Bool)
    (b : ComposerEditBuffer) : ComposerEditBuffer :=
  let cursor :=
    match cursor with
    | none => atoms.length
    | some cursor => clampIndex cursor atoms.length
  if b.items = atoms ∧ b.cursor = cursor then b
  else
    { (if record then recording true b else b) with
      items := atoms
      cursor := cursor }

def setText (unicode : Unicode) (text : PyStr) (record : Bool) (b : ComposerEditBuffer) :
    ComposerEditBuffer :=
  setAtoms (textAtoms unicode text) none record b

def insertAtoms (atoms : List ComposerAtom) (record : Bool) (b : ComposerEditBuffer) :
    ComposerEditBuffer :=
  b.insertItems (recording record) atoms

def insertText (unicode : Unicode) (text : PyStr) (record : Bool) (b : ComposerEditBuffer) :
    ComposerEditBuffer :=
  insertAtoms (textAtoms unicode text) record b

def replaceAtoms (start stop : Int) (atoms : List ComposerAtom) (record : Bool)
    (b : ComposerEditBuffer) : List ComposerAtom × ComposerEditBuffer :=
  let (start, stop) := clampRange start stop b.items.length
  let removed := b.items.extract start stop
  if removed = atoms then (removed, { b with cursor := start + atoms.length })
  else
    (removed,
      { recording record b with
        items := replaceSlice b.items start stop atoms
        cursor := start + atoms.length })

def replaceRange (unicode : Unicode) (start stop : Int) (text : PyStr) (record : Bool)
    (b : ComposerEditBuffer) : List ComposerAtom × ComposerEditBuffer :=
  replaceAtoms start stop (textAtoms unicode text) record b

/-- Where the walk over the atoms' values stops. -/
def valueTarget : Nat → List ComposerAtom → Nat
  | _, [] => 0
  | remaining, atom :: rest =>
    let width := (atomValue atom).points.length
    if remaining = 0 ∨ remaining < width then 0 else valueTarget (remaining - width) rest + 1

def moveCursorToValueIndex (index : Int) (b : ComposerEditBuffer) : Bool × ComposerEditBuffer :=
  b.moveTo (valueTarget index.toNat b.items)

/-- Where the walk over the atoms' widths stops, and whether it stops inside an atom. -/
def displayTarget (visibleWidth : PyStr → Nat) (target : Nat) :
    Nat → List ComposerAtom → Nat × Bool
  | _, [] => (0, false)
  | current, atom :: rest =>
    let width := cursorAdvance visibleWidth atom
    if target ≤ current then (0, false)
    else if target = current + width then (1, false)
    else if target < current + width then
      (if 2 * (target - current) < width then 0 else 1, true)
    else
      let (behind, inside) := displayTarget visibleWidth target (current + width) rest
      (behind + 1, inside)

/-- The answer is whether the width falls inside an atom. -/
def moveCursorToDisplayWidth (visibleWidth : PyStr → Nat) (width : Int) (b : ComposerEditBuffer) :
    Bool × ComposerEditBuffer :=
  let (cursor, inside) := displayTarget visibleWidth width.toNat 0 b.items
  (inside, { b with cursor := cursor })

/-- `"\n".join(lines)` with the cursor in a column of a line; neither is recorded. -/
def setLinesAndCursor (unicode : Unicode) (lines : List PyStr) (cursorLine cursorCol : Int)
    (b : ComposerEditBuffer) : ComposerEditBuffer :=
  let lines := if lines.isEmpty then [⟨[]⟩] else lines
  let cursorLine := clampIndex cursorLine (lines.length - 1)
  let current := lines.getD cursorLine ⟨[]⟩
  let cursorCol := clampIndex cursorCol current.points.length
  let before := PyStr.join "\n" (lines.take cursorLine ++ [current.take cursorCol])
  let atoms := textAtoms unicode (PyStr.join "\n" lines)
  let cursor := min atoms.length (textAtoms unicode before).length
  setAtoms atoms (some cursor) false b

def clearRedo (b : ComposerEditBuffer) : ComposerEditBuffer :=
  { b with redoStack := b.redoStack.clear }

/-- An edit of the items, with or without `record`. -/
inductive Edit where
  | setText (text : PyStr)
  | setAtoms (atoms : List ComposerAtom) (cursor : Option Int)
  | insertText (text : PyStr)
  | insertAtoms (atoms : List ComposerAtom)
  | deleteBackward
  | deleteForward
  | deleteRange (start stop : Int)
  | replaceRange (start stop : Int) (text : PyStr)
  | replaceAtoms (start stop : Int) (atoms : List ComposerAtom)

inductive Move where
  | left
  | right
  | start
  | stop
  | lineStart
  | lineEnd
  | wordLeft
  | wordRight
  | valueIndex (index : Int)
  | displayWidth (width : Int)

inductive Answer where
  | none
  | done (done : Bool)
  | removed (atoms : List ComposerAtom)
  deriving DecidableEq

def edit (unicode : Unicode) (record : Bool) (b : ComposerEditBuffer) :
    Edit → Answer × ComposerEditBuffer
  | .setText text => (.none, setText unicode text record b)
  | .setAtoms atoms cursor => (.none, setAtoms atoms cursor record b)
  | .insertText text => (.none, insertText unicode text record b)
  | .insertAtoms atoms => (.none, insertAtoms atoms record b)
  | .deleteBackward => (b.deleteBackward (recording record)).map .done id
  | .deleteForward => (b.deleteForward (recording record)).map .done id
  | .deleteRange start stop => (b.deleteRange (recording record) start stop).map .removed id
  | .replaceRange start stop text => (replaceRange unicode start stop text record b).map .removed id
  | .replaceAtoms start stop atoms => (replaceAtoms start stop atoms record b).map .removed id

def newline (atom : ComposerAtom) : Bool := isNewline (atomValue atom)

def atomicKinds : List Kind := [.newline, .pasteMarker]

def move (unicode : Unicode) (visibleWidth : PyStr → Nat) (b : ComposerEditBuffer) :
    Move → Bool × ComposerEditBuffer
  | .left => b.moveLeft
  | .right => b.moveRight
  | .start => b.moveToStart
  | .stop => b.moveToEnd
  | .lineStart => b.moveToLineStart newline
  | .lineEnd => b.moveToLineEnd newline
  | .wordLeft => b.moveWordLeft (atomKind unicode) atomicKinds
  | .wordRight => b.moveWordRight (atomKind unicode) atomicKinds
  | .valueIndex index => moveCursorToValueIndex index b
  | .displayWidth width => moveCursorToDisplayWidth visibleWidth width b

def runCallback (unicode : Unicode) (visibleWidth : PyStr → Nat) (b : ComposerEditBuffer) :
    List (Edit ⊕ Move) → ComposerEditBuffer
  | [] => b
  | .inl e :: rest => runCallback unicode visibleWidth (edit unicode false b e).2 rest
  | .inr m :: rest => runCallback unicode visibleWidth (move unicode visibleWidth b m).2 rest

/-- A composite edit is one undo step if it changes the items. -/
def applyEdit (unicode : Unicode) (visibleWidth : PyStr → Nat) (callback : List (Edit ⊕ Move))
    (b : ComposerEditBuffer) : Bool × ComposerEditBuffer :=
  let edited := runCallback unicode visibleWidth b callback
  if edited.items = b.items then (false, edited) else (true, edited.pushUndo b.snapshot)

inductive Op where
  | edit (edit : Edit) (record : Bool)
  | setLinesAndCursor (lines : List PyStr) (cursorLine cursorCol : Int)
  | move (move : Move)
  | pushUndo
  | undo
  | redo
  | clearRedo
  | applyEdit (callback : List (Edit ⊕ Move))
  | clear

def step (unicode : Unicode) (visibleWidth : PyStr → Nat) (b : ComposerEditBuffer) :
    Op → Answer × ComposerEditBuffer
  | .edit e record => edit unicode record b e
  | .setLinesAndCursor lines line col => (.none, setLinesAndCursor unicode lines line col b)
  | .move m => (move unicode visibleWidth b m).map .done id
  | .pushUndo => (.none, b.pushUndo b.snapshot)
  | .undo => b.undo.map .done id
  | .redo => b.redo.map .done id
  | .clearRedo => (.none, clearRedo b)
  | .applyEdit callback => (applyEdit unicode visibleWidth callback b).map .done id
  | .clear => (.none, b.clear)

/-- Whether an edit sets the items at once; unrecorded, such an edit leaves the redo stack. -/
def Edit.sets : Edit → Bool
  | .setText _ => true
  | .setAtoms _ _ => true
  | _ => false

/-- What a caller sees an edit do to the history. -/
def editMark (unicode : Unicode) (record : Bool) (b : ComposerEditBuffer) (e : Edit) : Mark :=
  let after := (edit unicode record b e).2
  if e.sets then
    if record = true ∧ after.snapshot ≠ b.snapshot then .made else .kept
  else if after.items = b.items then .kept
  else if record then .made
  else .dropped

/-- Whether one of a callback's edits forgets what could be redone. -/
def callbackDrops (unicode : Unicode) (visibleWidth : PyStr → Nat) (b : ComposerEditBuffer) :
    List (Edit ⊕ Move) → Bool
  | [] => false
  | .inl e :: rest =>
    editMark unicode false b e == .dropped ||
      callbackDrops unicode visibleWidth (edit unicode false b e).2 rest
  | .inr m :: rest => callbackDrops unicode visibleWidth (move unicode visibleWidth b m).2 rest

/-- What a caller sees an operation do to the history. -/
def mark (unicode : Unicode) (visibleWidth : PyStr → Nat) (b : ComposerEditBuffer) (op : Op) :
    Mark :=
  let (answer, _) := step unicode visibleWidth b op
  match op with
  | .edit e record => editMark unicode record b e
  | .setLinesAndCursor _ _ _ => .kept
  | .move _ => .kept
  | .pushUndo => .made
  | .undo => if answer = .done true then .undone else .kept
  | .redo => if answer = .done true then .redone else .kept
  | .clearRedo => .dropped
  | .applyEdit callback =>
    if answer = .done true then .made
    else if callbackDrops unicode visibleWidth b callback then .dropped
    else .kept
  | .clear => .reset

def machine (unicode : Unicode) (visibleWidth : PyStr → Nat) :
    Machine (ComposerEditBuffer × List (Mark × ComposerSnapshot)) Op Answer :=
  UndoBuffer.historyMachine (step unicode visibleWidth) (mark unicode visibleWidth)

section

variable {unicode : Unicode} {visibleWidth : PyStr → Nat} {b : ComposerEditBuffer} {record : Bool}

theorem valueTarget_le (remaining : Nat) (atoms : List ComposerAtom) :
    valueTarget remaining atoms ≤ atoms.length := by
  induction atoms generalizing remaining with
  | nil => exact Nat.le_refl _
  | cons atom rest ih =>
    unfold valueTarget
    dsimp only
    split
    · exact Nat.zero_le _
    · exact Nat.succ_le_succ (ih _)

theorem displayTarget_le (target current : Nat) (atoms : List ComposerAtom) :
    (displayTarget visibleWidth target current atoms).1 ≤ atoms.length := by
  induction atoms generalizing current with
  | nil => exact Nat.le_refl _
  | cons atom rest ih =>
    unfold displayTarget
    dsimp only
    split
    · exact Nat.zero_le _
    · split
      · exact Nat.succ_le_succ (Nat.zero_le _)
      · split
        · split <;> simp
        · exact Nat.succ_le_succ (ih _)

theorem moved_move (inside : b.cursor ≤ b.items.length) (m : Move) :
    UndoBuffer.Moved b (move unicode visibleWidth b m).2 := by
  cases m with
  | left => exact UndoBuffer.moved_moveLeft inside
  | right => exact UndoBuffer.moved_moveRight inside
  | start => exact UndoBuffer.moved_moveTo inside (Nat.zero_le _)
  | stop => exact UndoBuffer.moved_moveTo inside (Nat.le_refl _)
  | lineStart => exact UndoBuffer.moved_moveTo inside ((skipLeft_le _ _ _).trans inside)
  | lineEnd => exact UndoBuffer.moved_moveTo inside (skipRight_le _ inside)
  | wordLeft => exact UndoBuffer.moved_moveTo inside (wordLeftIndex_le _ _ _ _)
  | wordRight => exact UndoBuffer.moved_moveTo inside (wordRightIndex_le _ _ _ _)
  | valueIndex index => exact UndoBuffer.moved_moveTo inside (valueTarget_le _ _)
  | displayWidth width => exact ⟨displayTarget_le _ _ _, rfl, rfl, rfl⟩

/-- Setting the items at once. -/
theorem stepSpec_setAtoms (sound : b.Sound) (atoms : List ComposerAtom) (cursor : Option Int) :
    UndoBuffer.StepSpec
      (if record = true ∧ (setAtoms atoms cursor record b).snapshot ≠ b.snapshot then .made
        else .kept) b (setAtoms atoms cursor record b) := by
  have clamped : (match cursor with
      | none => atoms.length
      | some cursor => clampIndex cursor atoms.length) ≤ atoms.length := by
    cases cursor with
    | none => exact Nat.le_refl _
    | some cursor => exact clampIndex_le cursor _
  unfold setAtoms
  generalize (match cursor with
    | none => atoms.length
    | some cursor => clampIndex cursor atoms.length) = target at clamped
  by_cases same : b.items = atoms ∧ b.cursor = target
  · rw [if_pos same, if_neg (by simp)]
    exact UndoBuffer.stepSpec_kept sound sound.cursor rfl rfl
  · rw [if_neg same]
    cases record with
    | false =>
      rw [if_neg (by simp)]
      exact UndoBuffer.stepSpec_kept sound clamped rfl rfl
    | true =>
      have changed : (⟨atoms, target⟩ : ComposerSnapshot) ≠ b.snapshot := by
        intro equal
        injection equal with items cursor
        exact same ⟨items.symm, cursor.symm⟩
      rw [if_pos ⟨rfl, changed⟩]
      exact UndoBuffer.stepSpec_made sound clamped rfl rfl

theorem edited_replaceAtoms (start stop : Int) (atoms : List ComposerAtom) :
    UndoBuffer.Edited (recording record) b (replaceAtoms start stop atoms record b).2 := by
  have range := clampRange_le start stop b.items.length
  unfold replaceAtoms
  dsimp only
  split
  · next same => exact UndoBuffer.edited_replaceSame range.1 range.2 same
  · next different => exact UndoBuffer.edited_replaceSlice range.1 range.2 different

theorem edited_edit (inside : b.cursor ≤ b.items.length) (e : Edit) (patches : e.sets = false) :
    UndoBuffer.Edited (recording record) b (edit unicode record b e).2 := by
  cases e with
  | setText text => cases patches
  | setAtoms atoms cursor => cases patches
  | insertText text => exact UndoBuffer.edited_insertItems inside (textAtoms unicode text)
  | insertAtoms atoms => exact UndoBuffer.edited_insertItems inside atoms
  | deleteBackward => exact UndoBuffer.edited_deleteBackward inside
  | deleteForward => exact UndoBuffer.edited_deleteForward inside
  | deleteRange start stop => exact UndoBuffer.edited_deleteRange inside start stop
  | replaceRange start stop text =>
    exact edited_replaceAtoms start stop (textAtoms unicode text)
  | replaceAtoms start stop atoms => exact edited_replaceAtoms start stop atoms

theorem stepSpec_edit (sound : b.Sound) (e : Edit) :
    UndoBuffer.StepSpec (editMark unicode record b e) b (edit unicode record b e).2 := by
  cases sets : e.sets with
  | true =>
    cases e with
    | setText text => exact stepSpec_setAtoms sound (textAtoms unicode text) none
    | setAtoms atoms cursor => exact stepSpec_setAtoms sound atoms cursor
    | _ => cases sets
  | false =>
    have edited := @edited_edit unicode b record sound.cursor e sets
    simp only [editMark, sets, Bool.false_eq_true, if_false]
    rcases edited.history with ⟨same, past, future⟩ | ⟨different, past, future⟩
    · rw [if_pos same]
      exact UndoBuffer.stepSpec_kept sound edited.cursor past future
    · rw [if_neg different]
      cases record with
      | true => exact UndoBuffer.stepSpec_made sound edited.cursor past future
      | false => exact UndoBuffer.stepSpec_dropped sound edited.cursor past future

/-- An unrecorded edit never pushes. -/
theorem editMark_unrecorded (e : Edit) :
    editMark unicode false b e = .kept ∨ editMark unicode false b e = .dropped := by
  unfold editMark
  dsimp only
  split
  · exact Or.inl (if_neg (by simp))
  · split
    · exact Or.inl rfl
    · exact Or.inr rfl

/-- A callback's calls record nothing; an edit of the items among them empties the redo stack. -/
theorem runCallback_frame (sound : b.Sound) (calls : List (Edit ⊕ Move)) :
    (runCallback unicode visibleWidth b calls).cursor ≤
        (runCallback unicode visibleWidth b calls).items.length ∧
      (runCallback unicode visibleWidth b calls).undoStack = b.undoStack ∧
      (runCallback unicode visibleWidth b calls).redoStack =
        if callbackDrops unicode visibleWidth b calls then b.redoStack.clear else b.redoStack := by
  induction calls generalizing b with
  | nil => exact ⟨sound.cursor, rfl, rfl⟩
  | cons call rest ih =>
    cases call with
    | inl e =>
      have spec := @stepSpec_edit unicode b false sound e
      obtain ⟨cursor, past, future⟩ := ih spec.sound
      have frame : (edit unicode false b e).2.undoStack = b.undoStack ∧
          (edit unicode false b e).2.redoStack =
            if editMark unicode false b e == .dropped then b.redoStack.clear
            else b.redoStack := by
        rcases @editMark_unrecorded unicode b e with kept | dropped
        · rw [kept] at spec ⊢
          exact spec.frame_of_kept
        · rw [dropped] at spec ⊢
          exact spec.frame_of_dropped
      refine ⟨cursor, past.trans frame.1, future.trans ?_⟩
      rw [frame.2, callbackDrops]
      cases editMark unicode false b e == .dropped with
      | true =>
        split <;> rfl
      | false => simp only [Bool.false_eq_true, if_false, Bool.false_or]
    | inr m =>
      have moved := @moved_move unicode visibleWidth b sound.cursor m
      have still := (UndoBuffer.stepSpec_kept sound moved.cursor moved.undoStack moved.redoStack).sound
      obtain ⟨cursor, past, future⟩ := ih still
      rw [moved.undoStack] at past
      rw [moved.redoStack] at future
      exact ⟨cursor, past, future⟩

theorem stepSpec_applyEdit (sound : b.Sound) (calls : List (Edit ⊕ Move)) :
    UndoBuffer.StepSpec (mark unicode visibleWidth b (.applyEdit calls)) b
      (applyEdit unicode visibleWidth calls b).2 := by
  obtain ⟨cursor, past, future⟩ := @runCallback_frame unicode visibleWidth b sound calls
  simp only [mark, step, applyEdit]
  by_cases same : (runCallback unicode visibleWidth b calls).items = b.items
  · simp only [same, if_true, Prod.map_fst, Answer.done.injEq, Bool.false_eq_true, if_false]
    cases drops : callbackDrops unicode visibleWidth b calls with
    | true =>
      rw [drops] at future
      exact UndoBuffer.stepSpec_dropped sound cursor past future
    | false =>
      rw [drops] at future
      exact UndoBuffer.stepSpec_kept sound cursor past future
  · simp only [same, if_false, Prod.map_fst, if_true]
    refine UndoBuffer.stepSpec_made sound cursor ?_ ?_
    · exact congrArg (fun s => UndoStack.push s b.snapshot) past
    · show (runCallback unicode visibleWidth b calls).redoStack.clear = b.redoStack.clear
      rw [future]
      split <;> rfl

theorem stepSpec_setLinesAndCursor (sound : b.Sound) (lines : List PyStr)
    (cursorLine cursorCol : Int) :
    UndoBuffer.StepSpec .kept b (setLinesAndCursor unicode lines cursorLine cursorCol b) := by
  have spec := @stepSpec_setAtoms b false sound
  unfold setLinesAndCursor
  exact spec _ _

theorem stepSpec_undo (sound : b.Sound) :
    UndoBuffer.StepSpec (mark unicode visibleWidth b .undo) b b.undo.2 := by
  have spec := UndoBuffer.stepSpec_undo sound
  simp only [mark, step, Prod.map_fst, Answer.done.injEq]
  exact spec

theorem stepSpec_redo (sound : b.Sound) :
    UndoBuffer.StepSpec (mark unicode visibleWidth b .redo) b b.redo.2 := by
  have spec := UndoBuffer.stepSpec_redo sound
  simp only [mark, step, Prod.map_fst, Answer.done.injEq]
  exact spec

/-- Step lemma: every operation is the timeline step its mark says. -/
theorem stepSpec (sound : b.Sound) (op : Op) :
    UndoBuffer.StepSpec (mark unicode visibleWidth b op) b (step unicode visibleWidth b op).2 := by
  cases op with
  | edit e record => exact stepSpec_edit sound e
  | setLinesAndCursor lines line col => exact stepSpec_setLinesAndCursor sound lines line col
  | move m =>
    have moved := @moved_move unicode visibleWidth b sound.cursor m
    exact UndoBuffer.stepSpec_kept sound moved.cursor moved.undoStack moved.redoStack
  | pushUndo => exact UndoBuffer.stepSpec_made sound sound.cursor rfl rfl
  | undo => exact stepSpec_undo sound
  | redo => exact stepSpec_redo sound
  | clearRedo => exact UndoBuffer.stepSpec_dropped sound sound.cursor rfl rfl
  | applyEdit calls => exact stepSpec_applyEdit sound calls
  | clear => exact UndoBuffer.stepSpec_reset (Nat.le_refl _) rfl rfl

end

end ComposerEditBuffer

end Loushang.Tui
