import Loushang.Tui.TerminalImage

/-!
# Lines kept in segments

The line sequences of `render_loop.py`: plain ones, and those that share finalized segments with
earlier frames. What is read off them (the changed range, the images a range draws, the sequences that
delete images) is the same as for the plain list of their lines. Segments are compared as objects, so
every segment carries the number of its allocation.
-/
namespace Loushang.Tui
open Loushang.Lib

/-- An image drawn by a line: the row, the image's number, and the sequence that deletes it. -/
structure KittyImage where
  row : Nat
  imageId : Int
  deleteSequence : Text

def KittyImage.shift (rows : Nat) (image : KittyImage) : KittyImage :=
  { image with row := rows + image.row }

/-- The images of lines, from a row on. -/
def imagesFrom (chars : Characters) : Nat → List Text → List KittyImage
  | _, [] => []
  | row, line :: rest =>
    (extractKittyImageIds chars line).map (fun id => ⟨row, id, deleteSequence line id⟩) ++
      imagesFrom chars (row + 1) rest

/-- `_LogicalLineSegment`. -/
structure LogicalLineSegment where
  object : Nat
  rawLines : List Text
  finalizedLines : List Text
  kittyImages : List KittyImage

/-- `_finalize_render_segment`. -/
def finalizeRenderSegment (chars : Characters) (object : Nat) (lines : List Text) :
    LogicalLineSegment :=
  let finalizedLines := lines.map finalizeRenderedLine
  ⟨object, lines, finalizedLines, imagesFrom chars 0 finalizedLines⟩

/-- The running sums of lengths. -/
def endsFrom : Nat → List Nat → List Nat
  | _, [] => []
  | total, length :: rest => (total + length) :: endsFrom (total + length) rest

/-- `_SegmentedTextLines`. -/
structure SegmentedTextLines where
  segments : List LogicalLineSegment
  finalized : Bool
  segmentEnds : List Nat
  kittyImageEvents : Option (List KittyImage)

namespace SegmentedTextLines

def segmentLines (lines : SegmentedTextLines) (segment : LogicalLineSegment) : List Text :=
  if lines.finalized then segment.finalizedLines else segment.rawLines

/-- `_SegmentedTextLines(segments, finalized=finalized)`. -/
def ofSegments (segments : List LogicalLineSegment) (finalized : Bool) : SegmentedTextLines where
  segments := segments
  finalized := finalized
  segmentEnds := endsFrom 0 (segments.map fun segment =>
    (if finalized then segment.finalizedLines else segment.rawLines).length)
  kittyImageEvents := none

def length (lines : SegmentedTextLines) : Nat := lines.segmentEnds.getLast?.getD 0

/-- `__iter__`. -/
def toList (lines : SegmentedTextLines) : List Text := lines.segments.flatMap lines.segmentLines

/-- `segment_start`. -/
def segmentStart (lines : SegmentedTextLines) (index : Nat) : Nat :=
  if index = 0 then 0 else (lines.segmentEnds[index - 1]?).getD 0

/-- `__getitem__` of a row; the ends ascend, so `bisect_right` counts those up to it. -/
def getItem (lines : SegmentedTextLines) (index : Nat) : Option Text :=
  if lines.length ≤ index then none
  else
    let segmentIndex := (lines.segmentEnds.takeWhile fun stop => stop ≤ index).length
    (lines.segments[segmentIndex]?).bind fun segment =>
      (lines.segmentLines segment)[index - lines.segmentStart segmentIndex]?

def tailSegments (lines : SegmentedTextLines) (start : Nat) : SegmentedTextLines :=
  ofSegments (lines.segments.drop start) lines.finalized

/-- The images of segments whose first row is given. -/
def discovered (lines : SegmentedTextLines) : Nat → List LogicalLineSegment → List KittyImage
  | _, [] => []
  | rows, segment :: rest =>
    segment.kittyImages.map (KittyImage.shift rows) ++
      lines.discovered (rows + (lines.segmentLines segment).length) rest

/-- `iter_kitty_images`. -/
def iterKittyImages (lines : SegmentedTextLines) : List KittyImage :=
  lines.kittyImageEvents.getD (lines.discovered 0 lines.segments)

end SegmentedTextLines

/-- A `Sequence[str]` of the render loop. -/
inductive Lines where
  | flat (lines : List Text)
  | segmented (lines : SegmentedTextLines)

namespace Lines

def toList : Lines → List Text
  | .flat lines => lines
  | .segmented lines => lines.toList

def length : Lines → Nat
  | .flat lines => lines.length
  | .segmented lines => lines.length

def getItem : Lines → Nat → Option Text
  | .flat lines, index => lines[index]?
  | .segmented lines, index => lines.getItem index

/-- The line at a row, blank behind the last. -/
def lineAt (lines : Lines) (row : Nat) : Text :=
  if row < lines.length then (lines.getItem row).getD [] else []

end Lines

/-- `_common_segment_prefix`. -/
def commonSegmentPrefix {A : Type} [DecidableEq A] (previous current : List A) : Nat :=
  let limit := min previous.length current.length
  match (List.range (min limit 2 + 1)).find? fun changedTail =>
      previous.take (limit - changedTail) = current.take (limit - changedTail) with
  | some changedTail => limit - changedTail
  | none => ((List.range limit).find? fun index => previous[index]? ≠ current[index]?).getD limit

/-- `_changed_line_range_flat`. -/
def changedLineRangeFlat (previous current : Lines) : Option (Nat × Nat) :=
  (List.range (max previous.length current.length)).foldl
    (fun range row =>
      if previous.lineAt row = current.lineAt row then range
      else some ((range.map Prod.fst).getD row, row))
    none

/-- `_changed_line_range`. -/
def changedLineRange : Lines → Lines → Option (Nat × Nat)
  | .segmented previous, .segmented current =>
    let common := commonSegmentPrefix (previous.segments.map LogicalLineSegment.object)
      (current.segments.map LogicalLineSegment.object)
    if common = previous.segments.length ∧ common = current.segments.length then none
    else
      let rows := previous.segmentStart common
      if rows ≠ current.segmentStart common then
        changedLineRangeFlat (.segmented previous) (.segmented current)
      else
        (changedLineRangeFlat (.segmented (previous.tailSegments common))
          (.segmented (current.tailSegments common))).map fun range => (rows + range.1, rows + range.2)
  | previous, current => changedLineRangeFlat previous current

/-- `_expand_changed_range_for_kitty_images`. -/
def expandChangedRangeForKittyImages (chars : Characters) (previous : Lines) :
    Option (Nat × Nat) → Option (Nat × Nat)
  | none => none
  | some (first, last) =>
    match previous with
    | .segmented previous =>
      some (first, previous.iterKittyImages.foldl
        (fun last image => if first ≤ image.row then max last image.row else last) last)
    | .flat previous =>
      some (first, (List.range' first (previous.length - first)).foldl
        (fun last row =>
          if ((previous[row]?).any fun line => !(extractKittyImageIds chars line).isEmpty) then max last row
          else last) last)

/-- The sequences that delete the images of plain lines, in the order of their first drawing. -/
def deletesOf (chars : Characters) (lines : List Text) : List Text :=
  (firstOf Prod.fst [] (lines.flatMap fun line =>
    (extractKittyImageIds chars line).map fun id => (id, deleteSequence line id))).map Prod.snd

/-- `_kitty_delete_sequences`. -/
def kittyDeleteSequences (chars : Characters) : Lines → List Text
  | .segmented lines => (firstOf KittyImage.imageId [] lines.iterKittyImages).map KittyImage.deleteSequence
  | .flat lines => deletesOf chars lines

/-- `_kitty_delete_sequences_in_range`. -/
def kittyDeleteSequencesInRange (chars : Characters) (lines : Lines) (first last : Nat) : List Text :=
  if last < first ∨ lines.length ≤ first then []
  else
    match lines with
    | .segmented lines =>
      (firstOf KittyImage.imageId [] (lines.iterKittyImages.filter fun image =>
        first ≤ image.row ∧ image.row ≤ last)).map KittyImage.deleteSequence
    | .flat lines => deletesOf chars ((lines.take (min (last + 1) lines.length)).drop first)

/-! ## Lengths and rows -/

section Rows

theorem endsFrom_cons (total length : Nat) (rest : List Nat) :
    endsFrom total (length :: rest) = (total + length) :: endsFrom (total + length) rest := rfl

theorem getLast?_endsFrom (total : Nat) (lengths : List Nat) :
    (endsFrom total lengths).getLast?.getD total = total + lengths.sum := by
  induction lengths generalizing total with
  | nil => rfl
  | cons length rest ih =>
    rw [endsFrom_cons, List.getLast?_cons, Option.getD_some, ih, List.sum_cons, Nat.add_assoc]

theorem getElem?_endsFrom {total : Nat} {lengths : List Nat} {index : Nat}
    (inside : index < lengths.length) :
    (endsFrom total lengths)[index]? = some (total + (lengths.take (index + 1)).sum) := by
  induction lengths generalizing total index with
  | nil => cases inside
  | cons length rest ih =>
    rw [endsFrom_cons]
    cases index with
    | zero => simp
    | succ index =>
      rw [List.getElem?_cons_succ, ih (Nat.lt_of_succ_lt_succ inside), List.take_succ_cons, List.sum_cons]
      congr 1
      omega

/-- The row found by its segment's end is the row of the joined lines. -/
theorem getItem_endsFrom (linesOf : LogicalLineSegment → List Text) (segments : List LogicalLineSegment)
    {total index : Nat} (behind : total ≤ index) :
    let ends := endsFrom total (segments.map fun segment => (linesOf segment).length)
    let segmentIndex := (ends.takeWhile fun stop => stop ≤ index).length
    ((segments[segmentIndex]?).bind fun segment =>
      (linesOf segment)[index - if segmentIndex = 0 then total
        else (ends[segmentIndex - 1]?).getD 0]?) =
      (segments.flatMap linesOf)[index - total]? := by
  induction segments generalizing total with
  | nil => rfl
  | cons segment rest ih =>
    simp only [List.map_cons, endsFrom, List.flatMap_cons]
    by_cases past : total + (linesOf segment).length ≤ index
    · have later := ih past
      simp only [List.takeWhile_cons, past, decide_true, if_true, List.length_cons,
        List.getElem?_cons_succ, Nat.succ_ne_zero, if_false, Nat.add_sub_cancel]
      rw [List.getElem?_append_right (by omega), Nat.sub_sub]
      rw [← later]
      generalize ((endsFrom (total + (linesOf segment).length)
        (rest.map fun segment => (linesOf segment).length)).takeWhile fun stop => stop ≤ index).length =
          segmentIndex
      cases segmentIndex with
      | zero => rfl
      | succ before => rfl
    · simp only [List.takeWhile_cons, past, decide_false, Bool.false_eq_true, if_false, List.length_nil,
        if_true, List.getElem?_cons_zero, Option.bind_some]
      rw [List.getElem?_append_left (by omega)]

variable {lines : SegmentedTextLines}

/-- The ends of the segments are those of their lines. -/
def SegmentedTextLines.Measured (lines : SegmentedTextLines) : Prop :=
  lines.segmentEnds = endsFrom 0 (lines.segments.map fun segment => (lines.segmentLines segment).length)

theorem measured_ofSegments (segments : List LogicalLineSegment) (finalized : Bool) :
    (SegmentedTextLines.ofSegments segments finalized).Measured := rfl

namespace SegmentedTextLines

theorem Measured.length_eq (measured : lines.Measured) : lines.length = lines.toList.length := by
  unfold length toList
  rw [measured, getLast?_endsFrom, Nat.zero_add, List.length_flatMap]

theorem Measured.getItem_eq (measured : lines.Measured) (index : Nat) :
    lines.getItem index = lines.toList[index]? := by
  unfold getItem
  split
  · next outside =>
    rw [measured.length_eq] at outside
    exact (List.getElem?_eq_none outside).symm
  · have row := getItem_endsFrom lines.segmentLines lines.segments (Nat.zero_le index)
    unfold segmentStart
    rw [measured]
    exact row

theorem Measured.segmentStart_eq (measured : lines.Measured) {index : Nat}
    (inside : index ≤ lines.segments.length) :
    lines.segmentStart index = ((lines.segments.take index).flatMap lines.segmentLines).length := by
  unfold segmentStart
  cases index with
  | zero => rfl
  | succ index =>
    rw [if_neg (Nat.succ_ne_zero _), Nat.add_sub_cancel, measured,
      getElem?_endsFrom (by rw [List.length_map]; omega), Option.getD_some, Nat.zero_add,
      List.length_flatMap, List.map_take]

end SegmentedTextLines

end Rows

/-! ## The changed range -/

section ChangedRange

theorem commonSegmentPrefix_spec {A : Type} [DecidableEq A] (previous current : List A) :
    commonSegmentPrefix previous current ≤ previous.length ∧
      commonSegmentPrefix previous current ≤ current.length ∧
      previous.take (commonSegmentPrefix previous current) =
        current.take (commonSegmentPrefix previous current) := by
  unfold commonSegmentPrefix
  dsimp only
  split
  · next changedTail found =>
    have same := List.find?_some found
    rw [decide_eq_true_eq] at same
    exact ⟨by omega, by omega, same⟩
  · -- The walk: no difference before the row where it stops.
    have walk : ∀ stop, (∀ row < stop, previous[row]? = current[row]?) →
        previous.take stop = current.take stop := by
      intro stop same
      apply List.ext_getElem?
      intro row
      rw [List.getElem?_take, List.getElem?_take]
      split
      · next before => exact same row before
      · rfl
    cases found : (List.range (min previous.length current.length)).find?
        fun index => previous[index]? ≠ current[index]? with
    | none =>
      rw [List.find?_range_eq_none] at found
      refine ⟨Nat.min_le_left _ _, Nat.min_le_right _ _, walk _ ?_⟩
      intro row before
      simpa using found row before
    | some stop =>
      rw [List.find?_range_eq_some] at found
      obtain ⟨_, inside, earlier⟩ := found
      rw [List.mem_range] at inside
      rw [Option.getD_some]
      refine ⟨by omega, by omega, walk _ ?_⟩
      intro row before
      simpa using earlier row before

/-- The first and the last row below a bound that are not the same. -/
def rangeOf (same : Nat → Bool) (bound : Nat) : Option (Nat × Nat) :=
  (List.range bound).foldl
    (fun range row => if same row then range else some ((range.map Prod.fst).getD row, row)) none

variable {same : Nat → Bool}

theorem rangeOf_congr {same' : Nat → Bool} {bound : Nat} (equal : ∀ row < bound, same row = same' row) :
    rangeOf same bound = rangeOf same' bound := by
  unfold rangeOf
  apply List.foldl_ext
  intro range row member
  rw [equal row (List.mem_range.mp member)]

theorem rangeOf_same {bound : Nat} (all : ∀ row < bound, same row = true) : rangeOf same bound = none := by
  rw [rangeOf_congr all]
  unfold rangeOf
  induction List.range bound with
  | nil => rfl
  | cons row rest ih => exact ih

theorem rangeOf_add {skipped : Nat} (all : ∀ row < skipped, same row = true) (bound : Nat) :
    rangeOf same (skipped + bound) =
      (rangeOf (fun row => same (skipped + row)) bound).map fun range =>
        (skipped + range.1, skipped + range.2) := by
  have start := rangeOf_same all
  unfold rangeOf at start ⊢
  rw [List.range_add, List.foldl_append, start, List.foldl_map]
  have shifted : ∀ (rows : List Nat) (range : Option (Nat × Nat)),
      rows.foldl (fun range row => if same (skipped + row) then range
        else some ((range.map Prod.fst).getD (skipped + row), skipped + row))
          (range.map fun range => (skipped + range.1, skipped + range.2)) =
        (rows.foldl (fun range row => if same (skipped + row) then range
          else some ((range.map Prod.fst).getD row, row)) range).map fun range =>
            (skipped + range.1, skipped + range.2) := by
    intro rows
    induction rows with
    | nil =>
      intro range
      rfl
    | cons row rest ih =>
      intro range
      rw [List.foldl_cons, List.foldl_cons, ← ih]
      congr 1
      split
      · rfl
      · cases range with
        | none => rfl
        | some range => rfl
  exact shifted (List.range bound) none

theorem changedLineRangeFlat_rangeOf (previous current : Lines) :
    changedLineRangeFlat previous current =
      rangeOf (fun row => previous.lineAt row = current.lineAt row)
        (max previous.length current.length) := by
  unfold changedLineRangeFlat rangeOf
  simp only [decide_eq_true_eq]

theorem lineAt_flat (lines : List Text) (row : Nat) :
    (Lines.flat lines).lineAt row = (lines[row]?).getD [] := by
  unfold Lines.lineAt
  split
  · rfl
  · next outside =>
    rw [List.getElem?_eq_none (Nat.not_lt.mp outside)]
    rfl

/-- Lines whose rows are found by the ends of their segments. -/
def Lines.Measured : Lines → Prop
  | .flat _ => True
  | .segmented lines => lines.Measured

variable {previous current : Lines}

theorem Lines.Measured.length_eq (measured : previous.Measured) :
    previous.length = previous.toList.length := by
  cases previous with
  | flat lines => rfl
  | segmented lines => exact SegmentedTextLines.Measured.length_eq measured

theorem Lines.Measured.lineAt_eq (measured : previous.Measured) (row : Nat) :
    previous.lineAt row = (previous.toList[row]?).getD [] := by
  cases previous with
  | flat lines => exact lineAt_flat lines row
  | segmented lines =>
    unfold Lines.lineAt
    rw [measured.length_eq]
    split
    · exact congrArg (fun line => line.getD []) (SegmentedTextLines.Measured.getItem_eq measured row)
    · next outside =>
      rw [List.getElem?_eq_none (Nat.not_lt.mp outside)]
      rfl

theorem changedLineRangeFlat_toList (first : previous.Measured) (second : current.Measured) :
    changedLineRangeFlat previous current =
      changedLineRangeFlat (.flat previous.toList) (.flat current.toList) := by
  rw [changedLineRangeFlat_rangeOf, changedLineRangeFlat_rangeOf, first.length_eq, second.length_eq]
  apply rangeOf_congr
  intro row _
  rw [first.lineAt_eq, second.lineAt_eq, lineAt_flat, lineAt_flat]

/-- Equal lines in front do not change; behind them the range is that of the rest. -/
theorem changedLineRangeFlat_append (front previous current : List Text) :
    changedLineRangeFlat (.flat (front ++ previous)) (.flat (front ++ current)) =
      (changedLineRangeFlat (.flat previous) (.flat current)).map fun range =>
        (front.length + range.1, front.length + range.2) := by
  rw [changedLineRangeFlat_rangeOf, changedLineRangeFlat_rangeOf]
  have bound : max (Lines.flat (front ++ previous)).length (Lines.flat (front ++ current)).length =
      front.length + max previous.length current.length := by
    simp only [Lines.length, List.length_append]
    omega
  rw [bound, rangeOf_add]
  · congr 1
    apply rangeOf_congr
    intro row _
    simp only [lineAt_flat]
    rw [List.getElem?_append_right (Nat.le_add_right _ _),
      List.getElem?_append_right (Nat.le_add_right _ _), Nat.add_sub_cancel_left]
  · intro row inside
    simp only [lineAt_flat]
    rw [List.getElem?_append_left inside, List.getElem?_append_left inside]
    exact decide_eq_true rfl

theorem changedLineRangeFlat_self (lines : List Text) :
    changedLineRangeFlat (.flat lines) (.flat lines) = none := by
  rw [changedLineRangeFlat_rangeOf]
  exact rangeOf_same fun row _ => decide_eq_true rfl

/-- Segments of one number are one segment. -/
def SameObjects (previous current : List LogicalLineSegment) : Prop :=
  ∀ s ∈ previous, ∀ t ∈ current, s.object = t.object → s = t

theorem SameObjects.eq {previous current : List LogicalLineSegment}
    (objects : SameObjects previous current)
    (same : previous.map LogicalLineSegment.object = current.map LogicalLineSegment.object) :
    previous = current := by
  induction previous generalizing current with
  | nil => exact (List.map_eq_nil_iff.mp same.symm).symm
  | cons s rest ih =>
    cases current with
    | nil => cases same
    | cons t others =>
      rw [List.map_cons, List.map_cons, List.cons.injEq] at same
      have head := objects s List.mem_cons_self t List.mem_cons_self same.1
      have tail := ih (fun s first t second => objects s (List.mem_cons_of_mem _ first) t
        (List.mem_cons_of_mem _ second)) same.2
      rw [head, tail]

/-- Comparing shared segments first gives the range of the plain lines. -/
theorem changedLineRange_toList (first : previous.Measured) (second : current.Measured)
    (objects : ∀ p c, previous = .segmented p → current = .segmented c →
      p.finalized = c.finalized ∧ SameObjects p.segments c.segments) :
    changedLineRange previous current =
      changedLineRangeFlat (.flat previous.toList) (.flat current.toList) := by
  unfold changedLineRange
  split
  · next p c =>
    obtain ⟨finalized, objects⟩ := objects p c rfl rfl
    dsimp only
    obtain ⟨inside, alsoInside, same⟩ := commonSegmentPrefix_spec
      (p.segments.map LogicalLineSegment.object) (c.segments.map LogicalLineSegment.object)
    generalize commonSegmentPrefix (p.segments.map LogicalLineSegment.object)
      (c.segments.map LogicalLineSegment.object) = common at inside alsoInside same ⊢
    rw [List.length_map] at inside alsoInside
    rw [← List.map_take, ← List.map_take] at same
    have front : p.segments.take common = c.segments.take common :=
      SameObjects.eq (fun s first t second => objects s (List.mem_of_mem_take first) t
        (List.mem_of_mem_take second)) same
    have linesOf : p.segmentLines = c.segmentLines := by
      funext segment
      unfold SegmentedTextLines.segmentLines
      rw [finalized]
    have split : ∀ lines : SegmentedTextLines, lines.toList =
        (lines.segments.take common).flatMap lines.segmentLines ++
          (lines.tailSegments common).toList := by
      intro lines
      unfold SegmentedTextLines.toList
      conv_lhs => rw [← List.take_append_drop common lines.segments]
      rw [List.flatMap_append]
      rfl
    have range : changedLineRangeFlat (.flat p.toList) (.flat c.toList) =
        (changedLineRangeFlat (.flat (p.tailSegments common).toList)
          (.flat (c.tailSegments common).toList)).map fun range =>
            (p.segmentStart common + range.1, p.segmentStart common + range.2) := by
      rw [split p, split c, SegmentedTextLines.Measured.segmentStart_eq first inside, front, linesOf]
      exact changedLineRangeFlat_append _ _ _
    by_cases whole : common = p.segments.length ∧ common = c.segments.length
    · rw [if_pos whole, show (Lines.segmented p).toList = p.toList from rfl,
        show (Lines.segmented c).toList = c.toList from rfl]
      rw [List.take_of_length_le (Nat.le_of_eq whole.1.symm),
        List.take_of_length_le (Nat.le_of_eq whole.2.symm)] at front
      unfold SegmentedTextLines.toList
      rw [front, linesOf, changedLineRangeFlat_self]
    · rw [if_neg whole]
      split
      · exact changedLineRangeFlat_toList first second
      · have tails := @changedLineRangeFlat_toList (.segmented (p.tailSegments common))
          (.segmented (c.tailSegments common)) (measured_ofSegments _ _) (measured_ofSegments _ _)
        rw [tails]
        exact range.symm
  · exact changedLineRangeFlat_toList first second

end ChangedRange

/-! ## The images -/

section Images
variable {chars : Characters}

theorem imagesFrom_cons (row : Nat) (line : Text) (rest : List Text) :
    imagesFrom chars row (line :: rest) =
      (extractKittyImageIds chars line).map (fun id => ⟨row, id, deleteSequence line id⟩) ++
        imagesFrom chars (row + 1) rest := rfl

theorem imagesFrom_append (row : Nat) (front back : List Text) :
    imagesFrom chars row (front ++ back) =
      imagesFrom chars row front ++ imagesFrom chars (row + front.length) back := by
  induction front generalizing row with
  | nil => rfl
  | cons line rest ih =>
    rw [List.cons_append, imagesFrom_cons, imagesFrom_cons, ih, List.append_assoc, List.length_cons,
      Nat.add_assoc, Nat.add_comm 1]

theorem imagesFrom_shift (rows row : Nat) (lines : List Text) :
    (imagesFrom chars row lines).map (KittyImage.shift rows) = imagesFrom chars (rows + row) lines := by
  induction lines generalizing row with
  | nil => rfl
  | cons line rest ih =>
    rw [imagesFrom_cons, imagesFrom_cons, List.map_append, ih, List.map_map]
    rfl

theorem imagesFrom_pairs (row : Nat) (lines : List Text) :
    (imagesFrom chars row lines).map (fun image => (image.imageId, image.deleteSequence)) =
      lines.flatMap fun line =>
        (extractKittyImageIds chars line).map fun id => (id, deleteSequence line id) := by
  induction lines generalizing row with
  | nil => rfl
  | cons line rest ih =>
    rw [imagesFrom_cons, List.map_append, ih, List.map_map, List.flatMap_cons]
    rfl

theorem row_of_mem_imagesFrom {row : Nat} {lines : List Text} {image : KittyImage}
    (member : image ∈ imagesFrom chars row lines) :
    row ≤ image.row ∧ image.row < row + lines.length := by
  induction lines generalizing row with
  | nil => cases member
  | cons line rest ih =>
    rw [List.length_cons]
    rcases List.mem_append.mp member with here | later
    · obtain ⟨id, _, rfl⟩ := List.mem_map.mp here
      exact ⟨Nat.le_refl _, Nat.lt_add_of_pos_right (Nat.succ_pos _)⟩
    · have bounds := ih later
      omega

/-- A row draws an image exactly where its line names one. -/
theorem exists_image_iff {first row : Nat} {lines : List Text} :
    (∃ image ∈ imagesFrom chars first lines, image.row = first + row) ↔
      (lines[row]?).any (fun line => !(extractKittyImageIds chars line).isEmpty) = true := by
  induction lines generalizing first row with
  | nil => simp [imagesFrom]
  | cons line rest ih =>
    rw [imagesFrom_cons]
    cases row with
    | zero =>
      rw [List.getElem?_cons_zero, Option.any_some]
      constructor
      · intro ⟨image, member, same⟩
        rcases List.mem_append.mp member with here | later
        · obtain ⟨id, inside, _⟩ := List.mem_map.mp here
          cases ids : extractKittyImageIds chars line with
          | nil =>
            rw [ids] at inside
            cases inside
          | cons id more => rfl
        · have bounds := row_of_mem_imagesFrom later
          omega
      · intro some
        cases ids : extractKittyImageIds chars line with
        | nil =>
          rw [ids] at some
          cases some
        | cons id more => exact ⟨_, List.mem_append_left _ (List.mem_map_of_mem List.mem_cons_self), rfl⟩
    | succ row =>
      rw [List.getElem?_cons_succ, ← @ih (first + 1) row]
      constructor
      · intro ⟨image, member, same⟩
        rcases List.mem_append.mp member with here | later
        · obtain ⟨id, _, rfl⟩ := List.mem_map.mp here
          dsimp only at same
          omega
        · exact ⟨image, later, by omega⟩
      · intro ⟨image, member, same⟩
        exact ⟨image, List.mem_append_right _ member, by omega⟩

theorem firstOf_map {A B K : Type} [DecidableEq K] (f : A → B) (key : B → K) (seen : List K)
    (items : List A) :
    (firstOf (fun item => key (f item)) seen items).map f = firstOf key seen (items.map f) := by
  induction items generalizing seen with
  | nil => rfl
  | cons item rest ih =>
    rw [List.map_cons]
    unfold firstOf
    split
    · exact ih seen
    · rw [List.map_cons, ih]

theorem deletes_of_images (row : Nat) (lines : List Text) :
    (firstOf KittyImage.imageId [] (imagesFrom chars row lines)).map KittyImage.deleteSequence =
      deletesOf chars lines := by
  unfold deletesOf
  rw [← imagesFrom_pairs row, ← firstOf_map, List.map_map]
  rfl

/-- Segments with the finalized text of their lines and its images, and known ends and images. -/
structure SegmentedTextLines.Faithful (chars : Characters) (lines : SegmentedTextLines) : Prop where
  finalized : lines.finalized = true
  measured : lines.Measured
  images : lines.iterKittyImages = imagesFrom chars 0 lines.toList

def Lines.Faithful (chars : Characters) : Lines → Prop
  | .flat _ => True
  | .segmented lines => lines.Faithful chars

variable {lines : Lines}

theorem Lines.Faithful.measured (faithful : lines.Faithful chars) : lines.Measured := by
  cases lines with
  | flat lines => trivial
  | segmented lines => exact SegmentedTextLines.Faithful.measured faithful

theorem foldl_max_le_iff {A : Type} (counts : A → Bool) (row : A → Nat) (items : List A)
    (start bound : Nat) :
    items.foldl (fun last item => if counts item then max last (row item) else last) start ≤ bound ↔
      start ≤ bound ∧ ∀ item ∈ items, counts item = true → row item ≤ bound := by
  induction items generalizing start with
  | nil => simp
  | cons item rest ih =>
    rw [List.foldl_cons, ih, List.forall_mem_cons]
    cases counts item with
    | false => simp
    | true =>
      rw [if_pos rfl, Nat.max_le]
      simp [and_assoc]

theorem expand_toList (faithful : lines.Faithful chars) (range : Option (Nat × Nat)) :
    expandChangedRangeForKittyImages chars lines range =
      expandChangedRangeForKittyImages chars (.flat lines.toList) range := by
  cases range with
  | none => rfl
  | some range =>
    cases lines with
    | flat lines => rfl
    | segmented lines =>
      obtain ⟨first, last⟩ := range
      unfold expandChangedRangeForKittyImages
      dsimp only
      congr 2
      have rows := SegmentedTextLines.Faithful.images faithful
      apply eq_of_forall_ge_iff
      intro bound
      have segmented := foldl_max_le_iff (fun image : KittyImage => decide (first ≤ image.row))
        KittyImage.row lines.iterKittyImages last bound
      have flat := foldl_max_le_iff (fun row =>
        (lines.toList[row]?).any fun line => !(extractKittyImageIds chars line).isEmpty) id
        (List.range' first (lines.toList.length - first)) last bound
      simp only [decide_eq_true_eq, id_eq] at segmented flat
      refine segmented.trans (Iff.trans ?_ flat.symm)
      refine and_congr_right fun _ => ?_
      rw [rows]
      constructor
      · intro images row member draws
        rw [← @exists_image_iff chars 0] at draws
        obtain ⟨image, inside, same⟩ := draws
        rw [Nat.zero_add] at same
        rw [List.mem_range'_1] at member
        rw [← same]
        exact images image inside (by omega)
      · intro draws image member behind
        have bounds := row_of_mem_imagesFrom member
        refine draws image.row (List.mem_range'_1.mpr (by omega)) ?_
        exact exists_image_iff.mp ⟨image, member, (Nat.zero_add _).symm⟩

theorem kittyDeleteSequences_toList (faithful : lines.Faithful chars) :
    kittyDeleteSequences chars lines = kittyDeleteSequences chars (.flat lines.toList) := by
  cases lines with
  | flat lines => rfl
  | segmented lines =>
    unfold kittyDeleteSequences
    dsimp only
    rw [SegmentedTextLines.Faithful.images faithful]
    exact deletes_of_images 0 lines.toList

theorem filter_imagesFrom (lines : List Text) (first last : Nat) :
    (imagesFrom chars 0 lines).filter (fun image => first ≤ image.row ∧ image.row ≤ last) =
      imagesFrom chars (min first lines.length) ((lines.take (last + 1)).drop first) := by
  have front : (imagesFrom chars 0 (lines.take first)).filter
      (fun image => first ≤ image.row ∧ image.row ≤ last) = [] := by
    refine List.filter_eq_nil_iff.mpr ?_
    intro image member
    have bounds := row_of_mem_imagesFrom member
    rw [List.length_take] at bounds
    simp only [decide_eq_true_eq]
    omega
  conv_lhs => rw [← List.take_append_drop first lines]
  rw [imagesFrom_append, List.filter_append, front, List.nil_append, Nat.zero_add, List.length_take,
    List.drop_take]
  conv_lhs => rw [← List.take_append_drop (last + 1 - first) (lines.drop first)]
  rw [imagesFrom_append, List.filter_append]
  have inside : (imagesFrom chars (min first lines.length)
      ((lines.drop first).take (last + 1 - first))).filter
        (fun image => first ≤ image.row ∧ image.row ≤ last) =
      imagesFrom chars (min first lines.length) ((lines.drop first).take (last + 1 - first)) := by
    refine List.filter_eq_self.mpr ?_
    intro image member
    have bounds := row_of_mem_imagesFrom member
    rw [List.length_take, List.length_drop] at bounds
    simp only [decide_eq_true_eq]
    omega
  have back : (imagesFrom chars (min first lines.length +
      ((lines.drop first).take (last + 1 - first)).length)
        ((lines.drop first).drop (last + 1 - first))).filter
          (fun image => first ≤ image.row ∧ image.row ≤ last) = [] := by
    refine List.filter_eq_nil_iff.mpr ?_
    intro image member
    have bounds := row_of_mem_imagesFrom member
    simp only [List.length_take, List.length_drop] at bounds
    simp only [decide_eq_true_eq]
    omega
  rw [inside, back, List.append_nil]

theorem kittyDeleteSequencesInRange_toList (faithful : lines.Faithful chars) (first last : Nat) :
    kittyDeleteSequencesInRange chars lines first last =
      kittyDeleteSequencesInRange chars (.flat lines.toList) first last := by
  unfold kittyDeleteSequencesInRange
  rw [faithful.measured.length_eq, show (Lines.flat lines.toList).length = lines.toList.length from rfl]
  by_cases outside : last < first ∨ lines.toList.length ≤ first
  · rw [if_pos outside, if_pos outside]
  · rw [if_neg outside, if_neg outside]
    cases lines with
    | flat lines => rfl
    | segmented lines =>
      dsimp only
      rw [SegmentedTextLines.Faithful.images faithful, filter_imagesFrom, deletes_of_images]
      show deletesOf chars ((lines.toList.take (last + 1)).drop first) =
        deletesOf chars ((lines.toList.take (min (last + 1) lines.toList.length)).drop first)
      rw [← List.take_eq_take_min]

end Images

end Loushang.Tui
