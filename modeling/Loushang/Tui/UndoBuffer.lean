import Loushang.Lib.History
import Loushang.Lib.Run
import Loushang.Tui.WordNavigation

/-!
# Text buffers with undo and redo

`UndoStack` of `tui/undo_stack.py`, and what `EditorBuffer` and `ComposerEditBuffer` have in
common: items, a cursor among them and two stacks, lists that start with the newest entry.
A depth that is not positive is refused by the constructors, so a stack has a positive depth
or none. The edits take what happens to the history as a parameter: the two classes differ
there.
-/
namespace Loushang.Tui
open Loushang.Lib

structure UndoStack (T : Type) where
  maxDepth : Option ℕ+
  stack : List T

namespace UndoStack

variable {T : Type}

def push (s : UndoStack T) (snapshot : T) : UndoStack T :=
  { s with stack := keepNewest s.maxDepth (snapshot :: s.stack) }

def pop (s : UndoStack T) : Option T × UndoStack T :=
  match s.stack with
  | [] => (none, s)
  | top :: rest => (some top, { s with stack := rest })

def clear (s : UndoStack T) : UndoStack T := { s with stack := [] }

end UndoStack

/-- `EditorSnapshot` and `ComposerSnapshot`. -/
structure Snapshot (Item : Type) where
  items : List Item
  cursor : Nat
  deriving DecidableEq

structure UndoBuffer (Item : Type) where
  items : List Item
  cursor : Nat
  undoStack : UndoStack (Snapshot Item)
  redoStack : UndoStack (Snapshot Item)

/-- `max(0, min(index, length))`. -/
def clampIndex (index : Int) (length : Nat) : Nat := (max 0 (min index length)).toNat

theorem clampIndex_le (index : Int) (length : Nat) : clampIndex index length ≤ length := by
  unfold clampIndex
  omega

/-- `_clamp_range`. -/
def clampRange (start stop : Int) (length : Nat) : Nat × Nat :=
  let start := clampIndex start length
  let stop := clampIndex stop length
  (start, if stop < start then start else stop)

theorem clampRange_le (start stop : Int) (length : Nat) :
    (clampRange start stop length).1 ≤ (clampRange start stop length).2 ∧
      (clampRange start stop length).2 ≤ length := by
  have first := clampIndex_le start length
  have second := clampIndex_le stop length
  unfold clampRange
  dsimp only
  split <;> omega

/-- `items[start:stop] = inserted`. -/
def replaceSlice {T : Type} (items : List T) (start stop : Nat) (inserted : List T) : List T :=
  items.take start ++ inserted ++ items.drop stop

section

variable {T : Type} {items inserted : List T} {start stop : Nat}

theorem replaceSlice_extract (ordered : start ≤ stop) :
    replaceSlice items start stop (items.extract start stop) = items := by
  unfold replaceSlice
  rw [List.extract_eq_take_drop]
  have middle : (items.drop start).take (stop - start) ++ (items.drop start).drop (stop - start) =
      items.drop start := List.take_append_drop _ _
  rw [List.drop_drop, show start + (stop - start) = stop by omega] at middle
  rw [List.append_assoc, middle, List.take_append_drop]

theorem replaceSlice_eq_iff (ordered : start ≤ stop) :
    replaceSlice items start stop inserted = items ↔ items.extract start stop = inserted := by
  constructor
  · intro same
    have whole := same.trans (@replaceSlice_extract _ items _ _ ordered).symm
    unfold replaceSlice at whole
    exact (List.append_cancel_left (List.append_cancel_right whole)).symm
  · intro same
    rw [← same]
    exact replaceSlice_extract ordered

theorem length_replaceSlice (ordered : start ≤ stop) (inside : stop ≤ items.length) :
    (replaceSlice items start stop inserted).length =
      items.length - (stop - start) + inserted.length := by
  unfold replaceSlice
  rw [List.length_append, List.length_append, List.length_take, List.length_drop]
  omega

theorem eraseIdx_ne {i : Nat} (inside : i < items.length) : items.eraseIdx i ≠ items := by
  intro same
  have shorter := List.length_eraseIdx_of_lt inside
  rw [same] at shorter
  omega

theorem mem_keepNewest {depth : Option ℕ+} {x : T} (member : x ∈ keepNewest depth items) :
    x ∈ items := by
  cases depth with
  | none => exact member
  | some d => exact List.mem_of_mem_take member

end

namespace UndoBuffer

variable {Item : Type}

def snapshot (b : UndoBuffer Item) : Snapshot Item := ⟨b.items, b.cursor⟩

/-- The cursor is clamped to the restored items. -/
def restore (b : UndoBuffer Item) (snapshot : Snapshot Item) : UndoBuffer Item :=
  { b with
    items := snapshot.items
    cursor := clampIndex snapshot.cursor snapshot.items.length }

def pushUndo (snapshot : Snapshot Item) (b : UndoBuffer Item) : UndoBuffer Item :=
  { b with undoStack := b.undoStack.push snapshot, redoStack := b.redoStack.clear }

def clear (b : UndoBuffer Item) : UndoBuffer Item :=
  ⟨[], 0, b.undoStack.clear, b.redoStack.clear⟩

def undo (b : UndoBuffer Item) : Bool × UndoBuffer Item :=
  match b.undoStack.pop with
  | (none, _) => (false, b)
  | (some snapshot, undoStack) =>
    let redoStack := b.redoStack.push b.snapshot
    (true, { b with undoStack := undoStack, redoStack := redoStack }.restore snapshot)

def redo (b : UndoBuffer Item) : Bool × UndoBuffer Item :=
  match b.redoStack.pop with
  | (none, _) => (false, b)
  | (some snapshot, redoStack) =>
    let undoStack := b.undoStack.push b.snapshot
    (true, { b with undoStack := undoStack, redoStack := redoStack }.restore snapshot)

/-- What an edit that changes the items does to the stacks. -/
abbrev Recording (Item : Type) := UndoBuffer Item → UndoBuffer Item

def insertItems (recording : Recording Item) (inserted : List Item) (b : UndoBuffer Item) :
    UndoBuffer Item :=
  if inserted.isEmpty then b
  else
    { recording b with
      items := replaceSlice b.items b.cursor b.cursor inserted
      cursor := b.cursor + inserted.length }

def deleteBackward (recording : Recording Item) (b : UndoBuffer Item) : Bool × UndoBuffer Item :=
  if b.cursor = 0 then (false, b)
  else
    (true,
      { recording b with
        items := b.items.eraseIdx (b.cursor - 1)
        cursor := b.cursor - 1 })

def deleteForward (recording : Recording Item) (b : UndoBuffer Item) : Bool × UndoBuffer Item :=
  if b.items.length ≤ b.cursor then (false, b)
  else
    (true,
      { recording b with
        items := b.items.eraseIdx b.cursor
        cursor := b.cursor })

/-- The answer is what was removed. -/
def deleteRange (recording : Recording Item) (start stop : Int) (b : UndoBuffer Item) :
    List Item × UndoBuffer Item :=
  let (start, stop) := clampRange start stop b.items.length
  if start = stop then ([], b)
  else
    (b.items.extract start stop,
      { recording b with
        items := replaceSlice b.items start stop []
        cursor := start })

/-- A move answers whether the cursor moved. -/
def moveTo (target : Nat) (b : UndoBuffer Item) : Bool × UndoBuffer Item :=
  if target = b.cursor then (false, b) else (true, { b with cursor := target })

def moveLeft (b : UndoBuffer Item) : Bool × UndoBuffer Item :=
  if b.cursor = 0 then (false, b) else (true, { b with cursor := b.cursor - 1 })

def moveRight (b : UndoBuffer Item) : Bool × UndoBuffer Item :=
  if b.items.length ≤ b.cursor then (false, b) else (true, { b with cursor := b.cursor + 1 })

def moveToStart (b : UndoBuffer Item) : Bool × UndoBuffer Item := b.moveTo 0

def moveToEnd (b : UndoBuffer Item) : Bool × UndoBuffer Item := b.moveTo b.items.length

def lineStartIndex (newline : Item → Bool) (b : UndoBuffer Item) : Nat :=
  skipLeft (fun item => !newline item) b.items b.cursor

def lineEndIndex (newline : Item → Bool) (b : UndoBuffer Item) : Nat :=
  skipRight (fun item => !newline item) b.items b.cursor

def moveToLineStart (newline : Item → Bool) (b : UndoBuffer Item) : Bool × UndoBuffer Item :=
  b.moveTo (b.lineStartIndex newline)

def moveToLineEnd (newline : Item → Bool) (b : UndoBuffer Item) : Bool × UndoBuffer Item :=
  b.moveTo (b.lineEndIndex newline)

def moveWordLeft (kindOf : Item → Kind) (atomic : List Kind) (b : UndoBuffer Item) :
    Bool × UndoBuffer Item :=
  b.moveTo (wordLeftIndex b.items b.cursor kindOf atomic)

def moveWordRight (kindOf : Item → Kind) (atomic : List Kind) (b : UndoBuffer Item) :
    Bool × UndoBuffer Item :=
  b.moveTo (wordRightIndex b.items b.cursor kindOf atomic)

/-- The cursor lies within the items, now and in every state the stacks hold. -/
structure Sound (b : UndoBuffer Item) : Prop where
  cursor : b.cursor ≤ b.items.length
  past : ∀ s ∈ b.undoStack.stack, s.cursor ≤ s.items.length
  future : ∀ s ∈ b.redoStack.stack, s.cursor ≤ s.items.length

def timeline (b : UndoBuffer Item) : Timeline (Snapshot Item) :=
  ⟨b.snapshot, b.undoStack.stack, b.redoStack.stack⟩

/-- An edit keeps the items and the stacks, or changes the items and does to the stacks what
recording does. -/
structure Edited (recording : Recording Item) (b after : UndoBuffer Item) : Prop where
  cursor : after.cursor ≤ after.items.length
  history : (after.items = b.items ∧ after.undoStack = b.undoStack ∧
      after.redoStack = b.redoStack) ∨
    (after.items ≠ b.items ∧ after.undoStack = (recording b).undoStack ∧
      after.redoStack = (recording b).redoStack)

/-- A move changes nothing but the cursor. -/
structure Moved (b after : UndoBuffer Item) : Prop where
  cursor : after.cursor ≤ after.items.length
  items : after.items = b.items
  undoStack : after.undoStack = b.undoStack
  redoStack : after.redoStack = b.redoStack

section

variable {b after : UndoBuffer Item} {recording : Recording Item}

theorem edited_self (inside : b.cursor ≤ b.items.length) : Edited recording b b :=
  ⟨inside, Or.inl ⟨rfl, rfl, rfl⟩⟩

theorem edited_insertItems (inside : b.cursor ≤ b.items.length) (inserted : List Item) :
    Edited recording b (b.insertItems recording inserted) := by
  unfold insertItems
  split
  · exact edited_self inside
  · next some =>
    have length := @length_replaceSlice _ b.items inserted _ _ (Nat.le_refl b.cursor) inside
    refine ⟨?_, Or.inr ⟨?_, rfl, rfl⟩⟩
    · dsimp only
      omega
    · dsimp only
      intro same
      rw [same] at length
      have none : inserted.length = 0 := by omega
      exact some (List.isEmpty_iff_length_eq_zero.mpr none)

theorem edited_deleteBackward (inside : b.cursor ≤ b.items.length) :
    Edited recording b (b.deleteBackward recording).2 := by
  unfold deleteBackward
  split
  · exact edited_self inside
  · have removes : b.cursor - 1 < b.items.length := by omega
    refine ⟨?_, Or.inr ⟨eraseIdx_ne removes, rfl, rfl⟩⟩
    dsimp only
    rw [List.length_eraseIdx_of_lt removes]
    omega

theorem edited_deleteForward (inside : b.cursor ≤ b.items.length) :
    Edited recording b (b.deleteForward recording).2 := by
  unfold deleteForward
  split
  · exact edited_self inside
  · have removes : b.cursor < b.items.length := by omega
    refine ⟨?_, Or.inr ⟨eraseIdx_ne removes, rfl, rfl⟩⟩
    dsimp only
    rw [List.length_eraseIdx_of_lt removes]
    omega

theorem edited_deleteRange (inside : b.cursor ≤ b.items.length) (start stop : Int) :
    Edited recording b (b.deleteRange recording start stop).2 := by
  have range := clampRange_le start stop b.items.length
  unfold deleteRange
  dsimp only
  split
  · exact edited_self inside
  · next wide =>
    have length := @length_replaceSlice _ b.items [] _ _ range.1 range.2
    refine ⟨?_, Or.inr ⟨?_, rfl, rfl⟩⟩
    · dsimp only
      rw [length, List.length_nil]
      omega
    · dsimp only
      intro same
      rw [same, List.length_nil] at length
      omega

/-- Replacing a range by other items changes the items; by the same ones, the cursor at most. -/
theorem edited_replaceSlice {start stop : Nat} {inserted : List Item} (ordered : start ≤ stop)
    (inside : stop ≤ b.items.length) (different : b.items.extract start stop ≠ inserted) :
    Edited recording b
      { recording b with
        items := replaceSlice b.items start stop inserted
        cursor := start + inserted.length } := by
  have length := @length_replaceSlice _ b.items inserted _ _ ordered inside
  refine ⟨?_, Or.inr ⟨?_, rfl, rfl⟩⟩
  · dsimp only
    omega
  · exact fun same => different ((replaceSlice_eq_iff ordered).mp same)

theorem edited_replaceSame {start stop : Nat} {inserted : List Item} (ordered : start ≤ stop)
    (inside : stop ≤ b.items.length) (same : b.items.extract start stop = inserted) :
    Edited recording b { b with cursor := start + inserted.length } := by
  have length := @length_replaceSlice _ b.items inserted _ _ ordered inside
  rw [(replaceSlice_eq_iff ordered).mpr same] at length
  refine ⟨?_, Or.inl ⟨rfl, rfl, rfl⟩⟩
  dsimp only
  omega

theorem moved_moveTo {target : Nat} (inside : b.cursor ≤ b.items.length)
    (reachable : target ≤ b.items.length) : Moved b (b.moveTo target).2 := by
  unfold moveTo
  split
  · exact ⟨inside, rfl, rfl, rfl⟩
  · exact ⟨reachable, rfl, rfl, rfl⟩

theorem moved_moveLeft (inside : b.cursor ≤ b.items.length) : Moved b b.moveLeft.2 := by
  unfold moveLeft
  split
  · exact ⟨inside, rfl, rfl, rfl⟩
  · refine ⟨?_, rfl, rfl, rfl⟩
    dsimp only
    omega

theorem moved_moveRight (inside : b.cursor ≤ b.items.length) : Moved b b.moveRight.2 := by
  unfold moveRight
  split
  · exact ⟨inside, rfl, rfl, rfl⟩
  · refine ⟨?_, rfl, rfl, rfl⟩
    dsimp only
    omega

theorem restore_exact {s : Snapshot Item} (inside : s.cursor ≤ s.items.length) :
    (b.restore s).snapshot = s := by
  have exact : clampIndex s.cursor s.items.length = s.cursor := by
    unfold clampIndex
    omega
  simp only [restore, snapshot, exact]

/-- What a step is to the timeline, with what it leaves alone. -/
structure StepSpec (mark : Mark) (b after : UndoBuffer Item) : Prop where
  sound : after.Sound
  depth : after.undoStack.maxDepth = b.undoStack.maxDepth
  redoDepth : after.redoStack.maxDepth = b.redoStack.maxDepth
  marked : Marked b.undoStack.maxDepth b.redoStack.maxDepth mark b.timeline after.timeline

theorem stepSpec_kept (sound : b.Sound) (cursor : after.cursor ≤ after.items.length)
    (past : after.undoStack = b.undoStack) (future : after.redoStack = b.redoStack) :
    StepSpec .kept b after where
  sound := ⟨cursor, past ▸ sound.past, future ▸ sound.future⟩
  depth := by rw [past]
  redoDepth := by rw [future]
  marked := by
    have same : after.timeline = { b.timeline with now := after.snapshot } := by
      unfold timeline
      rw [past, future]
    rw [same]
    exact Marked.kept _ _

theorem stepSpec_dropped (sound : b.Sound) (cursor : after.cursor ≤ after.items.length)
    (past : after.undoStack = b.undoStack) (future : after.redoStack = b.redoStack.clear) :
    StepSpec .dropped b after where
  sound := ⟨cursor, past ▸ sound.past, by rw [future]; nofun⟩
  depth := by rw [past]
  redoDepth := by rw [future]; rfl
  marked := by
    have same : after.timeline = { b.timeline with now := after.snapshot, future := [] } := by
      unfold timeline
      rw [past, future]
      rfl
    rw [same]
    exact Marked.dropped _ _

theorem stepSpec_made (sound : b.Sound) (cursor : after.cursor ≤ after.items.length)
    (past : after.undoStack = b.undoStack.push b.snapshot)
    (future : after.redoStack = b.redoStack.clear) : StepSpec .made b after where
  sound := by
    refine ⟨cursor, ?_, by rw [future]; nofun⟩
    intro s member
    rw [past] at member
    rcases List.mem_cons.mp (mem_keepNewest member) with now | older
    · rw [now]
      exact sound.cursor
    · exact sound.past s older
  depth := by rw [past]; rfl
  redoDepth := by rw [future]; rfl
  marked := by
    have same : after.timeline = ⟨after.snapshot,
        keepNewest b.undoStack.maxDepth (b.timeline.now :: b.timeline.past), []⟩ := by
      unfold timeline
      rw [past, future]
      rfl
    rw [same]
    exact Marked.made _ _

theorem stepSpec_reset (cursor : after.cursor ≤ after.items.length)
    (past : after.undoStack = b.undoStack.clear) (future : after.redoStack = b.redoStack.clear) :
    StepSpec .reset b after where
  sound := ⟨cursor, by rw [past]; nofun, by rw [future]; nofun⟩
  depth := by rw [past]; rfl
  redoDepth := by rw [future]; rfl
  marked := by
    have same : after.timeline = ⟨after.snapshot, [], []⟩ := by
      unfold timeline
      rw [past, future]
      rfl
    rw [same]
    exact Marked.reset _ _

theorem sameStack {T : Type} {s t : UndoStack T} (depth : s.maxDepth = t.maxDepth)
    (stack : s.stack = t.stack) : s = t := by
  cases s
  cases t
  cases depth
  cases stack
  rfl

theorem StepSpec.frame_of_kept (spec : StepSpec .kept b after) :
    after.undoStack = b.undoStack ∧ after.redoStack = b.redoStack := by
  have marked := spec.marked
  generalize same : after.timeline = t at marked
  cases marked with
  | kept _ next =>
    exact ⟨sameStack spec.depth (congrArg Timeline.past same),
      sameStack spec.redoDepth (congrArg Timeline.future same)⟩

theorem StepSpec.frame_of_dropped (spec : StepSpec .dropped b after) :
    after.undoStack = b.undoStack ∧ after.redoStack = b.redoStack.clear := by
  have marked := spec.marked
  generalize same : after.timeline = t at marked
  cases marked with
  | dropped _ next =>
    exact ⟨sameStack spec.depth (congrArg Timeline.past same),
      sameStack spec.redoDepth (congrArg Timeline.future same)⟩

/-- A call of `undo` or `redo` answers whether its stack had an entry; then it is the
timeline's own step, else it changes nothing. -/
structure CallSpec (stack : List (Snapshot Item)) (result : Timeline (Snapshot Item))
    (b : UndoBuffer Item) (call : Bool × UndoBuffer Item) : Prop where
  answer : call.1 = true ↔ stack ≠ []
  refused : call.1 = false → call.2 = b
  sound : call.2.Sound
  depth : call.2.undoStack.maxDepth = b.undoStack.maxDepth
  redoDepth : call.2.redoStack.maxDepth = b.redoStack.maxDepth
  timeline : call.2.timeline = result

theorem undo_spec (sound : b.Sound) :
    CallSpec b.undoStack.stack (b.timeline.undo b.redoStack.maxDepth) b b.undo := by
  cases found : b.undoStack.stack with
  | nil =>
    have outcome : b.undo = (false, b) := by simp only [undo, UndoStack.pop, found]
    rw [outcome]
    refine ⟨by simp, fun _ => rfl, sound, rfl, rfl, ?_⟩
    simp only [timeline, Timeline.undo, found]
  | cons top rest =>
    have inside : top.cursor ≤ top.items.length :=
      sound.past top (found ▸ List.mem_cons_self)
    have outcome : b.undo = (true, { b with
        undoStack := { b.undoStack with stack := rest }
        redoStack := b.redoStack.push b.snapshot }.restore top) := by
      simp only [undo, UndoStack.pop, found]
    rw [outcome]
    have now := @restore_exact _ { b with
        undoStack := { b.undoStack with stack := rest }
        redoStack := b.redoStack.push b.snapshot } top inside
    refine ⟨by simp, by simp, ⟨clampIndex_le _ _, ?_, ?_⟩, rfl, rfl, ?_⟩
    · intro s member
      exact sound.past s (found ▸ List.mem_cons_of_mem _ member)
    · intro s member
      rcases List.mem_cons.mp (mem_keepNewest member) with same | older
      · rw [same]
        exact sound.cursor
      · exact sound.future s older
    · simp only [timeline, Timeline.undo, found]
      rw [now]
      rfl

theorem redo_spec (sound : b.Sound) :
    CallSpec b.redoStack.stack (b.timeline.redo b.undoStack.maxDepth) b b.redo := by
  cases found : b.redoStack.stack with
  | nil =>
    have outcome : b.redo = (false, b) := by simp only [redo, UndoStack.pop, found]
    rw [outcome]
    refine ⟨by simp, fun _ => rfl, sound, rfl, rfl, ?_⟩
    simp only [timeline, Timeline.redo, found]
  | cons top rest =>
    have inside : top.cursor ≤ top.items.length :=
      sound.future top (found ▸ List.mem_cons_self)
    have outcome : b.redo = (true, { b with
        redoStack := { b.redoStack with stack := rest }
        undoStack := b.undoStack.push b.snapshot }.restore top) := by
      simp only [redo, UndoStack.pop, found]
    rw [outcome]
    have now := @restore_exact _ { b with
        redoStack := { b.redoStack with stack := rest }
        undoStack := b.undoStack.push b.snapshot } top inside
    refine ⟨by simp, by simp, ⟨clampIndex_le _ _, ?_, ?_⟩, rfl, rfl, ?_⟩
    · intro s member
      rcases List.mem_cons.mp (mem_keepNewest member) with same | older
      · rw [same]
        exact sound.cursor
      · exact sound.past s older
    · intro s member
      exact sound.future s (found ▸ List.mem_cons_of_mem _ member)
    · simp only [timeline, Timeline.redo, found]
      rw [now]
      rfl

/-- A successful undo is an undone step, a refused one changes nothing. -/
theorem stepSpec_undo (sound : b.Sound) :
    StepSpec (if b.undo.1 = true then .undone else .kept) b b.undo.2 := by
  have spec := undo_spec sound
  split
  · next done =>
    refine ⟨spec.sound, spec.depth, spec.redoDepth, ?_⟩
    rw [spec.timeline]
    exact Marked.undone _ (spec.answer.mp done)
  · next refused =>
    rw [spec.refused (by simpa using refused)]
    exact stepSpec_kept sound sound.cursor rfl rfl

theorem stepSpec_redo (sound : b.Sound) :
    StepSpec (if b.redo.1 = true then .redone else .kept) b b.redo.2 := by
  have spec := redo_spec sound
  split
  · next done =>
    refine ⟨spec.sound, spec.depth, spec.redoDepth, ?_⟩
    rw [spec.timeline]
    exact Marked.redone _ (spec.answer.mp done)
  · next refused =>
    rw [spec.refused (by simpa using refused)]
    exact stepSpec_kept sound sound.cursor rfl rfl

end

section

variable {Op Answer : Type} {b : UndoBuffer Item} {marks : List (Mark × Snapshot Item)}
  {depth : Option ℕ+}

/-- Operations on a buffer that also keep the marks of the run so far, newest first, each
with the state it met. -/
def historyMachine (step : UndoBuffer Item → Op → Answer × UndoBuffer Item)
    (mark : UndoBuffer Item → Op → Mark) :
    Machine (UndoBuffer Item × List (Mark × Snapshot Item)) Op Answer where
  step s op := ((step s.1 op).1, ((step s.1 op).2, (mark s.1 op, s.1.snapshot) :: s.2))

/-- What a run keeps: the stacks agree with its marks. -/
structure Recorded (depth : Option ℕ+) (b : UndoBuffer Item)
    (marks : List (Mark × Snapshot Item)) : Prop where
  sound : b.Sound
  bound : b.undoStack.maxDepth = depth
  redoBound : Timeline.SameBound depth b.redoStack.maxDepth
  agrees : Agrees depth marks b.timeline

/-- Run lemma: where every operation is the timeline step its mark says, the stacks agree with
the marks after every run. -/
theorem recorded_final {step : UndoBuffer Item → Op → Answer × UndoBuffer Item}
    {mark : UndoBuffer Item → Op → Mark}
    (spec : ∀ b op, Sound b → StepSpec (mark b op) b (step b op).2)
    (start : Recorded depth b marks) (ops : List Op) :
    Recorded depth ((historyMachine step mark).final (b, marks) ops).1
      ((historyMachine step mark).final (b, marks) ops).2 := by
  refine @Machine.final_of_invariant _ _ _ (historyMachine step mark)
    (fun s => Recorded depth s.1 s.2) ?_ (b, marks) start ops
  intro s op kept
  have stepped := spec s.1 op kept.sound
  have marked := stepped.marked
  rw [kept.bound] at marked
  refine ⟨stepped.sound, stepped.depth.trans kept.bound, ?_, ?_⟩
  · show Timeline.SameBound depth (step s.1 op).2.redoStack.maxDepth
    rw [stepped.redoDepth]
    exact kept.redoBound
  · exact kept.agrees.step kept.redoBound marked

/-- What exactness says of a buffer reached with `marks`: where the cursor may be, when an
undo or a redo does something, what it brings back, and that as many redos as undos bring
everything back. -/
structure Exact (depth : Option ℕ+) (b : UndoBuffer Item) (marks : List (Mark × Snapshot Item)) :
    Prop where
  cursor : b.cursor ≤ b.items.length
  undo_answer : b.undo.1 = true ↔ 0 < available depth marks
  undo_restores : b.undo.1 = true → standing 0 marks = some b.undo.2.snapshot
  undo_refused : b.undo.1 = false → b.undo.2 = b
  redo_answer : b.redo.1 = true ↔ (redoable 0 marks).isSome
  redo_restores : b.redo.1 = true → redoable 0 marks = some b.redo.2.snapshot
  redo_refused : b.redo.1 = false → b.redo.2 = b
  undos : ∀ k < available depth marks, ((fun b => (undo b).2)^[k] b).undo.1 = true
  redos : ∀ k ≤ available depth marks,
    (fun b => (redo b).2)^[k] ((fun b => (undo b).2)^[k] b) = b

theorem eq_of_timeline {other : UndoBuffer Item} (same : b.timeline = other.timeline)
    (depths : b.undoStack.maxDepth = other.undoStack.maxDepth)
    (redoDepths : b.redoStack.maxDepth = other.redoStack.maxDepth) : b = other := by
  obtain ⟨items, cursor, ⟨depth, past⟩, ⟨redoDepth, future⟩⟩ := b
  obtain ⟨items', cursor', ⟨depth', past'⟩, ⟨redoDepth', future'⟩⟩ := other
  simp only [timeline, snapshot, Timeline.mk.injEq, Snapshot.mk.injEq] at same depths redoDepths ⊢
  simp only [same, depths, redoDepths]

/-- Undos one after the other are the timeline's. -/
theorem undos_spec (sound : b.Sound) (k : Nat) :
    ((fun b => (undo b).2)^[k] b).Sound ∧
      ((fun b => (undo b).2)^[k] b).undoStack.maxDepth = b.undoStack.maxDepth ∧
      ((fun b => (undo b).2)^[k] b).redoStack.maxDepth = b.redoStack.maxDepth ∧
      ((fun b => (undo b).2)^[k] b).timeline = (Timeline.undo b.redoStack.maxDepth)^[k] b.timeline := by
  induction k with
  | zero => exact ⟨sound, rfl, rfl, rfl⟩
  | succ k ih =>
    obtain ⟨before, depths, redoDepths, same⟩ := ih
    have spec := undo_spec before
    rw [Function.iterate_succ_apply', Function.iterate_succ_apply', ← same, ← redoDepths]
    exact ⟨spec.sound, spec.depth.trans depths, spec.redoDepth, spec.timeline⟩

theorem redos_spec (sound : b.Sound) (k : Nat) :
    ((fun b => (redo b).2)^[k] b).Sound ∧
      ((fun b => (redo b).2)^[k] b).undoStack.maxDepth = b.undoStack.maxDepth ∧
      ((fun b => (redo b).2)^[k] b).redoStack.maxDepth = b.redoStack.maxDepth ∧
      ((fun b => (redo b).2)^[k] b).timeline = (Timeline.redo b.undoStack.maxDepth)^[k] b.timeline := by
  induction k with
  | zero => exact ⟨sound, rfl, rfl, rfl⟩
  | succ k ih =>
    obtain ⟨before, depths, redoDepths, same⟩ := ih
    have spec := redo_spec before
    rw [Function.iterate_succ_apply', Function.iterate_succ_apply', ← same, ← depths]
    exact ⟨spec.sound, spec.depth, spec.redoDepth.trans redoDepths, spec.timeline⟩

/-- A buffer whose stacks agree with the marks is exact. -/
theorem Recorded.exact (recorded : Recorded depth b marks) : Exact depth b marks := by
  obtain ⟨sound, depthEq, redoDepth, agrees⟩ := recorded
  have undone := undo_spec sound
  have redone := redo_spec sound
  have count : b.undoStack.stack.length = available depth marks := agrees.count
  refine ⟨sound.cursor, ?_, ?_, undone.refused, ?_, ?_, redone.refused, ?_, ?_⟩
  · rw [undone.answer, ← count, List.length_pos_iff]
  · intro done
    obtain ⟨top, past, found⟩ := List.exists_cons_of_ne_nil (undone.answer.mp done)
    have newest := agrees.past 0 (by rw [show b.timeline.past = top :: past from found]; simp)
    have back : b.undo.2.snapshot = (b.timeline.undo b.redoStack.maxDepth).now :=
      congrArg Timeline.now undone.timeline
    rw [Timeline.undo_eq redoDepth agrees.fits found] at back
    rw [← newest, back, show b.timeline.past = top :: past from found]
    rfl
  · have newest : b.redoStack.stack[0]? = redoable 0 marks := agrees.future 0
    rw [redone.answer, ← newest]
    cases b.redoStack.stack with
    | nil => simp
    | cons top future => simp
  · intro done
    obtain ⟨top, future, found⟩ := List.exists_cons_of_ne_nil (redone.answer.mp done)
    have newest : b.redoStack.stack[0]? = redoable 0 marks := agrees.future 0
    have back : b.redo.2.snapshot = (b.timeline.redo b.undoStack.maxDepth).now :=
      congrArg Timeline.now redone.timeline
    rw [depthEq, Timeline.redo_eq agrees.fits found] at back
    rw [← newest, back, found]
    rfl
  · intro k inside
    have before := undos_spec sound k
    rw [(undo_spec before.1).answer]
    have left := Timeline.length_undo_iterate redoDepth agrees.fits
      (show k ≤ b.timeline.past.length from Nat.le_of_lt (count ▸ inside))
    have same : ((fun b => (undo b).2)^[k] b).undoStack.stack.length =
        b.undoStack.stack.length - k := by
      rw [← before.2.2.2] at left
      exact left
    intro empty
    rw [empty, List.length_nil] at same
    omega
  · intro k inside
    have before := undos_spec sound k
    have after := redos_spec before.1 k
    apply eq_of_timeline
    · rw [after.2.2.2, before.2.2.2, before.2.1, depthEq]
      exact Timeline.redo_undo_iterate redoDepth agrees.fits (count ▸ inside)
    · rw [after.2.1, before.2.1]
    · rw [after.2.2.1, before.2.2.1]

/-- After an operation marked as a recorded edit there is nothing to redo. -/
theorem not_redo_of_made {after : UndoBuffer Item} (spec : StepSpec .made b after) :
    after.redo.1 = false := by
  have redone := redo_spec spec.sound
  have future : after.redoStack.stack = [] := by
    have marked := spec.marked
    generalize same : after.timeline = t at marked
    cases marked with
    | made _ next => exact congrArg Timeline.future same
  rw [future] at redone
  simpa using redone.answer

end

end UndoBuffer

end Loushang.Tui
