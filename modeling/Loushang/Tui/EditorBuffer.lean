import Loushang.Lib.Run
import Loushang.Tui.UndoBuffer
import Loushang.Tui.ComposerEditBuffer

/-!
# The editor buffer

`EditorBuffer` of `tui/editor_buffer.py`: every operation that reads or changes the clusters,
the cursor or the history. The callback of `apply_edit` is a list of the buffer's own edits
made with `record=False`, as its docstring asks, and moves.
-/
namespace Loushang.Tui
open Loushang.Lib

/-- The items are grapheme clusters. -/
abbrev EditorBuffer := UndoBuffer PyStr

abbrev EditorSnapshot := Snapshot PyStr

namespace EditorBuffer

/-- What a constructor call returns; the redo stack has no bound of its own. -/
def create (maxUndoDepth : Option ℕ+) : EditorBuffer := ⟨[], 0, ⟨maxUndoDepth, []⟩, ⟨none, []⟩⟩

def value (b : EditorBuffer) : PyStr := PyStr.concat b.items

def setText (unicode : Unicode) (text : PyStr) (b : EditorBuffer) : EditorBuffer :=
  let clusters := graphemeClusters unicode text
  ⟨clusters, clusters.length, b.undoStack.clear, b.redoStack.clear⟩

/-- `if record: self._push_undo()`. -/
def recording (record : Bool) (b : EditorBuffer) : EditorBuffer :=
  if record then b.pushUndo b.snapshot else b

def insertText (unicode : Unicode) (text : PyStr) (record : Bool) (b : EditorBuffer) :
    EditorBuffer :=
  b.insertItems (recording record) (graphemeClusters unicode text)

def insertNewline (unicode : Unicode) (record : Bool) (b : EditorBuffer) : EditorBuffer :=
  insertText unicode "\n" record b

/-- Where the same clusters go in again, only the cursor moves and nothing is recorded. -/
def replaceRange (unicode : Unicode) (start stop : Int) (text : PyStr) (record : Bool)
    (b : EditorBuffer) : PyStr × EditorBuffer :=
  let (start, stop) := clampRange start stop b.items.length
  let removed := b.items.extract start stop
  let inserted := graphemeClusters unicode text
  if removed = [] ∧ inserted = [] then (⟨[]⟩, b)
  else if removed = inserted then
    (PyStr.concat removed, { b with cursor := start + inserted.length })
  else
    (PyStr.concat removed,
      { recording record b with
        items := replaceSlice b.items start stop inserted
        cursor := start + inserted.length })

def moveCursorTo (index : Int) (b : EditorBuffer) : Bool × EditorBuffer :=
  b.moveTo (clampIndex index b.items.length)

/-- An edit of the text, with or without `record`. -/
inductive Edit where
  | insertText (text : PyStr)
  | insertNewline
  | deleteBackward
  | deleteForward
  | deleteRange (start stop : Int)
  | replaceRange (start stop : Int) (text : PyStr)

inductive Move where
  | left
  | right
  | start
  | stop
  | cursorTo (index : Int)
  | lineStart
  | lineEnd
  | wordLeft
  | wordRight

/-- What a call returns. -/
inductive Answer where
  | none
  | done (done : Bool)
  | removed (text : PyStr)
  deriving DecidableEq

def edit (unicode : Unicode) (record : Bool) (b : EditorBuffer) : Edit → Answer × EditorBuffer
  | .insertText text => (.none, insertText unicode text record b)
  | .insertNewline => (.none, insertNewline unicode record b)
  | .deleteBackward => (b.deleteBackward (recording record)).map .done id
  | .deleteForward => (b.deleteForward (recording record)).map .done id
  | .deleteRange start stop =>
    (b.deleteRange (recording record) start stop).map (fun removed => .removed (.concat removed)) id
  | .replaceRange start stop text => (replaceRange unicode start stop text record b).map .removed id

def move (unicode : Unicode) (b : EditorBuffer) : Move → Bool × EditorBuffer
  | .left => b.moveLeft
  | .right => b.moveRight
  | .start => b.moveToStart
  | .stop => b.moveToEnd
  | .cursorTo index => moveCursorTo index b
  | .lineStart => b.moveToLineStart isNewline
  | .lineEnd => b.moveToLineEnd isNewline
  | .wordLeft => b.moveWordLeft (clusterKind unicode) []
  | .wordRight => b.moveWordRight (clusterKind unicode) []

/-- The calls an `apply_edit` callback makes. -/
def runCallback (unicode : Unicode) (b : EditorBuffer) : List (Edit ⊕ Move) → EditorBuffer
  | [] => b
  | .inl e :: rest => runCallback unicode (edit unicode false b e).2 rest
  | .inr m :: rest => runCallback unicode (move unicode b m).2 rest

/-- A composite edit is one undo step. -/
def applyEdit (unicode : Unicode) (callback : List (Edit ⊕ Move)) (b : EditorBuffer) :
    Bool × EditorBuffer :=
  let edited := runCallback unicode b callback
  if edited.snapshot = b.snapshot then (false, edited) else (true, edited.pushUndo b.snapshot)

inductive Op where
  | edit (edit : Edit) (record : Bool)
  | move (move : Move)
  | undo
  | redo
  | applyEdit (callback : List (Edit ⊕ Move))
  | setText (text : PyStr)
  | clear

def step (unicode : Unicode) (b : EditorBuffer) : Op → Answer × EditorBuffer
  | .edit e record => edit unicode record b e
  | .move m => (move unicode b m).map .done id
  | .undo => b.undo.map .done id
  | .redo => b.redo.map .done id
  | .applyEdit callback => (applyEdit unicode callback b).map .done id
  | .setText text => (.none, setText unicode text b)
  | .clear => (.none, b.clear)

/-- What a caller sees an operation do to the history: an edit with `record` is recorded when
it changes the text, the others by what they answer. -/
def mark (unicode : Unicode) (b : EditorBuffer) (op : Op) : Mark :=
  let (answer, after) := step unicode b op
  match op with
  | .edit _ true => if after.items = b.items then .kept else .made
  | .edit _ false => .kept
  | .move _ => .kept
  | .undo => if answer = .done true then .undone else .kept
  | .redo => if answer = .done true then .redone else .kept
  | .applyEdit _ => if answer = .done true then .made else .kept
  | .setText _ => .reset
  | .clear => .reset

/-- A buffer with the marks its run left so far, newest first, each with the state it met. -/
def machine (unicode : Unicode) : Machine (EditorBuffer × List (Mark × EditorSnapshot)) Op Answer :=
  UndoBuffer.historyMachine (step unicode) (mark unicode)

section

variable {unicode : Unicode} {b : EditorBuffer} {record : Bool}

theorem edited_edit (inside : b.cursor ≤ b.items.length) (e : Edit) :
    UndoBuffer.Edited (recording record) b (edit unicode record b e).2 := by
  cases e with
  | insertText text => exact UndoBuffer.edited_insertItems inside _
  | insertNewline => exact UndoBuffer.edited_insertItems inside (graphemeClusters unicode "\n")
  | deleteBackward => exact UndoBuffer.edited_deleteBackward inside
  | deleteForward => exact UndoBuffer.edited_deleteForward inside
  | deleteRange start stop => exact UndoBuffer.edited_deleteRange inside start stop
  | replaceRange start stop text =>
    have range := clampRange_le start stop b.items.length
    simp only [edit, replaceRange]
    split
    · exact UndoBuffer.edited_self inside
    · split
      · next same => exact UndoBuffer.edited_replaceSame range.1 range.2 same
      · next different => exact UndoBuffer.edited_replaceSlice range.1 range.2 different

theorem moved_move (inside : b.cursor ≤ b.items.length) (m : Move) :
    UndoBuffer.Moved b (move unicode b m).2 := by
  cases m with
  | left => exact UndoBuffer.moved_moveLeft inside
  | right => exact UndoBuffer.moved_moveRight inside
  | start => exact UndoBuffer.moved_moveTo inside (Nat.zero_le _)
  | stop => exact UndoBuffer.moved_moveTo inside (Nat.le_refl _)
  | cursorTo index => exact UndoBuffer.moved_moveTo inside (clampIndex_le index _)
  | lineStart => exact UndoBuffer.moved_moveTo inside ((skipLeft_le _ _ _).trans inside)
  | lineEnd => exact UndoBuffer.moved_moveTo inside (skipRight_le _ inside)
  | wordLeft => exact UndoBuffer.moved_moveTo inside (wordLeftIndex_le _ _ _ _)
  | wordRight => exact UndoBuffer.moved_moveTo inside (wordRightIndex_le _ _ _ _)

/-- A callback's calls record nothing. -/
theorem runCallback_frame (inside : b.cursor ≤ b.items.length) (calls : List (Edit ⊕ Move)) :
    (runCallback unicode b calls).cursor ≤ (runCallback unicode b calls).items.length ∧
      (runCallback unicode b calls).undoStack = b.undoStack ∧
      (runCallback unicode b calls).redoStack = b.redoStack := by
  induction calls generalizing b with
  | nil => exact ⟨inside, rfl, rfl⟩
  | cons call rest ih =>
    cases call with
    | inl e =>
      have edited := @edited_edit unicode b false inside e
      have later := ih edited.cursor
      have frame : (edit unicode false b e).2.undoStack = b.undoStack ∧
          (edit unicode false b e).2.redoStack = b.redoStack := by
        rcases edited.history with ⟨-, past, future⟩ | ⟨-, past, future⟩
        · exact ⟨past, future⟩
        · exact ⟨past, future⟩
      rw [frame.1, frame.2] at later
      exact later
    | inr m =>
      have moved := @moved_move unicode b inside m
      have later := ih moved.cursor
      rw [moved.undoStack, moved.redoStack] at later
      exact later

theorem stepSpec_edit (sound : b.Sound) (e : Edit) :
    UndoBuffer.StepSpec (mark unicode b (.edit e record)) b (edit unicode record b e).2 := by
  have edited := @edited_edit unicode b record sound.cursor e
  cases record with
  | false =>
    rcases edited.history with ⟨-, past, future⟩ | ⟨-, past, future⟩
    · exact UndoBuffer.stepSpec_kept sound edited.cursor past future
    · exact UndoBuffer.stepSpec_kept sound edited.cursor past future
  | true =>
    rcases edited.history with ⟨same, past, future⟩ | ⟨different, past, future⟩
    · have marked : mark unicode b (.edit e true) = .kept := if_pos same
      rw [marked]
      exact UndoBuffer.stepSpec_kept sound edited.cursor past future
    · have marked : mark unicode b (.edit e true) = .made := if_neg different
      rw [marked]
      exact UndoBuffer.stepSpec_made sound edited.cursor past future

theorem stepSpec_applyEdit (sound : b.Sound) (calls : List (Edit ⊕ Move)) :
    UndoBuffer.StepSpec (mark unicode b (.applyEdit calls)) b (applyEdit unicode calls b).2 := by
  obtain ⟨cursor, past, future⟩ := @runCallback_frame unicode b sound.cursor calls
  simp only [mark, step, applyEdit]
  split
  · exact UndoBuffer.stepSpec_kept sound cursor past future
  · refine UndoBuffer.stepSpec_made sound cursor ?_ ?_
    · exact congrArg (fun s => UndoStack.push s b.snapshot) past
    · exact congrArg UndoStack.clear future

theorem stepSpec_undo (sound : b.Sound) :
    UndoBuffer.StepSpec (mark unicode b .undo) b b.undo.2 := by
  have spec := UndoBuffer.stepSpec_undo sound
  simp only [mark, step, Prod.map_fst, Answer.done.injEq]
  exact spec

theorem stepSpec_redo (sound : b.Sound) :
    UndoBuffer.StepSpec (mark unicode b .redo) b b.redo.2 := by
  have spec := UndoBuffer.stepSpec_redo sound
  simp only [mark, step, Prod.map_fst, Answer.done.injEq]
  exact spec

/-- Step lemma: every operation is the timeline step its mark says. -/
theorem stepSpec (sound : b.Sound) (op : Op) :
    UndoBuffer.StepSpec (mark unicode b op) b (step unicode b op).2 := by
  cases op with
  | edit e record => exact stepSpec_edit sound e
  | move m =>
    have moved := @moved_move unicode b sound.cursor m
    exact UndoBuffer.stepSpec_kept sound moved.cursor moved.undoStack moved.redoStack
  | undo => exact stepSpec_undo sound
  | redo => exact stepSpec_redo sound
  | applyEdit calls => exact stepSpec_applyEdit sound calls
  | setText text => exact UndoBuffer.stepSpec_reset (Nat.le_refl _) rfl rfl
  | clear => exact UndoBuffer.stepSpec_reset (Nat.le_refl _) rfl rfl

end

end EditorBuffer

/-!
## The composer's history over whole runs

Any operations on an editor buffer or a composer's buffer, from any initial text and with
any bound on the depth. The marks of a run say which recorded edits stand; a redo makes its
edit again in the state it meets, and that is the state the next undo brings back.
-/

variable {Item : Type}

/-- A buffer with empty stacks has recorded nothing. -/
theorem recorded_start {b : UndoBuffer Item} {depth redoDepth : Option ℕ+}
    (same : Timeline.SameBound depth redoDepth) (inside : b.cursor ≤ b.items.length)
    (past : b.undoStack = ⟨depth, []⟩) (future : b.redoStack = ⟨redoDepth, []⟩) :
    UndoBuffer.Recorded depth b [] := by
  obtain ⟨items, cursor, undoStack, redoStack⟩ := b
  subst past future
  exact ⟨⟨inside, nofun, nofun⟩, rfl, same, Agrees.start _⟩

/-- The buffer a run of operations on an initial text reaches, with the marks of the run. -/
def EditorBuffer.reached (unicode : Unicode) (depth : Option ℕ+) (text : PyStr)
    (ops : List EditorBuffer.Op) : EditorBuffer × List (Mark × EditorSnapshot) :=
  (machine unicode).final (setText unicode text (create depth), []) ops

def ComposerEditBuffer.reached (unicode : Unicode) (visibleWidth : PyStr → Nat)
    (depth : Option ℕ+) (text : PyStr) (ops : List ComposerEditBuffer.Op) :
    ComposerEditBuffer × List (Mark × ComposerSnapshot) :=
  (machine unicode visibleWidth).final (setText unicode text false (create depth), []) ops

theorem EditorBuffer.recorded_reached (unicode : Unicode) (depth : Option ℕ+) (text : PyStr)
    (ops : List EditorBuffer.Op) :
    UndoBuffer.Recorded depth (reached unicode depth text ops).1
      (reached unicode depth text ops).2 :=
  UndoBuffer.recorded_final (fun _ op sound => stepSpec sound op)
    (recorded_start (Or.inl rfl) (Nat.le_refl _) rfl rfl) ops

theorem ComposerEditBuffer.recorded_reached (unicode : Unicode) (visibleWidth : PyStr → Nat)
    (depth : Option ℕ+) (text : PyStr) (ops : List ComposerEditBuffer.Op) :
    UndoBuffer.Recorded depth (reached unicode visibleWidth depth text ops).1
      (reached unicode visibleWidth depth text ops).2 := by
  refine UndoBuffer.recorded_final (fun _ op sound => stepSpec sound op) ?_ ops
  have fresh : UndoBuffer.Sound (create depth) := ⟨Nat.zero_le _, nofun, nofun⟩
  have spec := @stepSpec_setAtoms (create depth) false fresh (textAtoms unicode text) none
  obtain ⟨past, future⟩ := spec.frame_of_kept
  exact recorded_start (Or.inr rfl) spec.sound.cursor past future

/-- In every run the cursor lies within the text. An undo brings back the state in which the
newest recorded edit that stands was made or last redone, a redo the state from which the
newest edit undone since the last recorded edit was undone; as many redos as undos, up to the
depth available, bring everything back; and after a recorded edit there is nothing to redo. -/
theorem history_exact (unicode : Unicode) (visibleWidth : PyStr → Nat) (depth : Option ℕ+)
    (text : PyStr) :
    (∀ ops : List EditorBuffer.Op,
      UndoBuffer.Exact depth (EditorBuffer.reached unicode depth text ops).1
          (EditorBuffer.reached unicode depth text ops).2 ∧
        ∀ op, EditorBuffer.mark unicode (EditorBuffer.reached unicode depth text ops).1 op = .made →
          (EditorBuffer.step unicode
            (EditorBuffer.reached unicode depth text ops).1 op).2.redo.1 = false) ∧
      ∀ ops : List ComposerEditBuffer.Op,
        UndoBuffer.Exact depth (ComposerEditBuffer.reached unicode visibleWidth depth text ops).1
            (ComposerEditBuffer.reached unicode visibleWidth depth text ops).2 ∧
          ∀ op, ComposerEditBuffer.mark unicode visibleWidth
              (ComposerEditBuffer.reached unicode visibleWidth depth text ops).1 op = .made →
            (ComposerEditBuffer.step unicode visibleWidth
              (ComposerEditBuffer.reached unicode visibleWidth depth text ops).1 op).2.redo.1 =
                false := by
  constructor
  · intro ops
    have recorded := EditorBuffer.recorded_reached unicode depth text ops
    refine ⟨recorded.exact, fun op made => ?_⟩
    have spec := @EditorBuffer.stepSpec unicode _ recorded.sound op
    rw [made] at spec
    exact UndoBuffer.not_redo_of_made spec
  · intro ops
    have recorded := ComposerEditBuffer.recorded_reached unicode visibleWidth depth text ops
    refine ⟨recorded.exact, fun op made => ?_⟩
    have spec := @ComposerEditBuffer.stepSpec unicode visibleWidth _ recorded.sound op
    rw [made] at spec
    exact UndoBuffer.not_redo_of_made spec

/-- `c` is typed behind `ab`, undone, the cursor moved left and the edit redone. -/
def typedMovedRedone : EditorBuffer × List (Mark × EditorSnapshot) :=
  EditorBuffer.reached ⟨fun _ => false, fun point => 0x30 ≤ point.val⟩ none "ab"
    [.edit (.insertText "c") true, .undo, .move .left, .redo]

/-- The only recorded edit was made with the cursor behind `ab`, but the undo after the redo
leaves the cursor before `b`. -/
theorem undo_restores_moved_cursor :
    typedMovedRedone.2.filter (fun entry => entry.1 = .made) =
        [(.made, (⟨["a", "b"], 2⟩ : EditorSnapshot))] ∧
      typedMovedRedone.1.value = "abc" ∧
      typedMovedRedone.1.undo.1 = true ∧
      typedMovedRedone.1.undo.2.snapshot = (⟨["a", "b"], 1⟩ : EditorSnapshot) := by
  decide

end Loushang.Tui
