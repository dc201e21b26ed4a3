import Loushang.Exec.TextChunks
import Loushang.Exec.WholeLines
import Mathlib.Data.List.Induction

/-!
# The capture of one stream

From `_StreamCapture` in `harness/workspace/exec/service.py`. The artifact a capture may write its
texts to is left out.
-/
namespace Loushang.Exec
open Loushang.Lib Loushang.Lib.Utf8

structure StreamCapture where
  captureFullOutput : Bool
  rollingMaxBytes : Nat
  /-- The request has checked it. -/
  positive : 1 ≤ rollingMaxBytes
  chunks : List Text := []
  chunkBytes : Nat := 0
  rolled : Bool := false
  totalBytes : Nat := 0
  totalLines : Nat := 0
  lineOpen : Bool := false
  lastWasCarriageReturn : Bool := false

namespace StreamCapture

/-- `content`. -/
def content (s : StreamCapture) : Text := s.chunks.flatten

/-- One character of `_record_lines`. -/
def recordCharacter (s : StreamCapture) (character : Character) : StreamCapture :=
  if character = .scalar '\r' then
    { s with totalLines := s.totalLines + 1, lineOpen := false, lastWasCarriageReturn := true }
  else if character = .scalar '\n' then
    { s with
      totalLines := if s.lastWasCarriageReturn then s.totalLines else s.totalLines + 1
      lineOpen := false
      lastWasCarriageReturn := false }
  else { s with lineOpen := true, lastWasCarriageReturn := false }

/-- `_record_lines`. -/
def recordLines (s : StreamCapture) (text : Text) : StreamCapture := text.foldl recordCharacter s

/-- The loop of `_trim_rolling_chunks`, over the chunks, their bytes and `_rolled`. -/
def dropChunks (rollingMaxBytes : Nat) : List Text → Nat → Bool → List Text × Nat × Bool
  | first :: second :: rest, chunkBytes, rolled =>
    if rollingMaxBytes < chunkBytes then
      dropChunks rollingMaxBytes (second :: rest) (chunkBytes - countBytes first) true
    else (first :: second :: rest, chunkBytes, rolled)
  | chunks, chunkBytes, rolled => (chunks, chunkBytes, rolled)

/-- `_trim_rolling_chunks`. -/
def trimRollingChunks (s : StreamCapture) : StreamCapture :=
  let (chunks, chunkBytes, rolled) := dropChunks s.rollingMaxBytes s.chunks s.chunkBytes s.rolled
  match chunks with
  | [] => { s with chunks := chunks, chunkBytes := chunkBytes, rolled := rolled }
  | first :: rest =>
    if chunkBytes ≤ s.rollingMaxBytes then { s with chunks := chunks, chunkBytes := chunkBytes, rolled := rolled }
    else
      let trimmed := (tailWithin first 1000000 s.rollingMaxBytes).content
      { s with chunks := trimmed :: rest, chunkBytes := countBytes trimmed, rolled := true }

def append (s : StreamCapture) (text : Text) : StreamCapture :=
  if text = [] then s
  else
    let counted := ({ s with totalBytes := s.totalBytes + countBytes text }).recordLines text
    if s.captureFullOutput then { counted with chunks := s.chunks ++ [text] }
    else
      ({ counted with chunks := s.chunks ++ [text], chunkBytes := s.chunkBytes + countBytes text }).trimRollingChunks

def close (s : StreamCapture) : StreamCapture :=
  if s.lineOpen then { s with totalLines := s.totalLines + 1, lineOpen := false } else s

/-- A rolling capture after some texts. -/
def rolling (rollingMaxBytes : Nat) (positive : 1 ≤ rollingMaxBytes) (texts : List Text) : StreamCapture :=
  texts.foldl append { captureFullOutput := false, rollingMaxBytes, positive }

/-! ## Lines -/

/-- The line endings `_record_lines` knows. -/
def plainBoundaries : Boundaries Character where
  breaks character := character = .scalar '\r' || character = .scalar '\n'
  cr := .scalar '\r'
  lf := .scalar '\n'
  breaks_cr := by decide
  breaks_lf := by decide
  different := boundaries.different

/-- A line boundary of `str.splitlines` other than CR and LF. -/
def otherBreak (character : Character) : Bool :=
  breaksLine character && !plainBoundaries.breaks character

theorem plain_breaks_cr : plainBoundaries.breaks (.scalar '\r') = true := plainBoundaries.breaks_cr

/-- Only a line feed goes on with a closed line, behind a CR. -/
theorem plain_goesOn (last next : Character) : plainBoundaries.goesOn last next =
    (!plainBoundaries.breaks last || (decide (last = .scalar '\r') && decide (next = .scalar '\n'))) := rfl

/-- The three counters agree with the text recorded so far. -/
structure Recorded (s : StreamCapture) (text : Text) : Prop where
  lines : s.totalLines + (if s.lineOpen then 1 else 0) = plainBoundaries.count text
  open_iff : s.lineOpen = text.getLast?.any fun last => !plainBoundaries.breaks last
  carriage : s.lastWasCarriageReturn = (text.getLast? == some (.scalar '\r'))

theorem Recorded.recordCharacter {s : StreamCapture} {text : Text} (recorded : Recorded s text)
    (character : Character) : Recorded (s.recordCharacter character) (text ++ [character]) := by
  obtain ⟨lines, open_, carriage⟩ := recorded
  have counted : plainBoundaries.count (text ++ [character]) = plainBoundaries.count text +
      (if text.getLast?.any (fun last => plainBoundaries.goesOn last character) then 0 else 1) := by
    cases ends : text.getLast? with
    | none =>
      rw [List.getLast?_eq_none_iff.mp ends]
      rfl
    | some last => exact Boundaries.count_snoc ends character
  unfold StreamCapture.recordCharacter
  by_cases cr : character = .scalar '\r'
  · subst cr
    rw [if_pos rfl]
    refine ⟨?_, by simp [plainBoundaries], by simp⟩
    rw [counted, ← lines, open_]
    cases ends : text.getLast? with
    | none => simp
    | some last => cases breaks : plainBoundaries.breaks last <;> simp [plain_goesOn, breaks]
  rw [if_neg cr]
  by_cases lf : character = .scalar '\n'
  · subst lf
    rw [if_pos rfl]
    refine ⟨?_, by simp [plainBoundaries], by simp⟩
    rw [counted, ← lines, open_, carriage]
    cases ends : text.getLast? with
    | none => simp
    | some last =>
      by_cases afterCr : last = .scalar '\r'
      · subst afterCr
        simp [plain_goesOn, plain_breaks_cr]
      · cases breaks : plainBoundaries.breaks last <;> simp [plain_goesOn, breaks, afterCr]
  · rw [if_neg lf]
    refine ⟨?_, by simp [plainBoundaries, cr, lf], by simp [cr]⟩
    rw [counted]
    rw [← lines, open_]
    cases ends : text.getLast? with
    | none => simp
    | some last => cases breaks : plainBoundaries.breaks last <;> simp [plain_goesOn, breaks, lf]

theorem Recorded.recordLines {s : StreamCapture} {text : Text} (recorded : Recorded s text) (more : Text) :
    Recorded (s.recordLines more) (text ++ more) := by
  unfold StreamCapture.recordLines
  induction more generalizing s text with
  | nil => rwa [List.append_nil]
  | cons character rest ih =>
    rw [List.foldl_cons, List.append_cons]
    exact ih (recorded.recordCharacter character)

/-- `str.splitlines` counts a line more for every other boundary before the last character. -/
theorem count_boundaries (text : Text) :
    boundaries.count text = plainBoundaries.count text + text.dropLast.countP otherBreak := by
  induction text using List.reverseRecOn with
  | nil => rfl
  | append_singleton front next ih =>
    rw [List.dropLast_concat]
    cases ends : front.getLast? with
    | none =>
      rw [List.getLast?_eq_none_iff.mp ends]
      rfl
    | some last =>
      obtain ⟨start, rfl⟩ := List.getLast?_eq_some_iff.mp ends
      rw [List.dropLast_concat] at ih
      rw [Boundaries.count_snoc ends, Boundaries.count_snoc ends, ih, List.countP_append, List.countP_singleton]
      have all : boundaries.goesOn last next =
          (!breaksLine last || (decide (last = .scalar '\r') && decide (next = .scalar '\n'))) := rfl
      rw [all, plain_goesOn]
      have other : otherBreak last = (breaksLine last && !plainBoundaries.breaks last) := rfl
      rw [other]
      cases plain : plainBoundaries.breaks last with
      | false =>
        have notCr : last ≠ .scalar '\r' := by
          rintro rfl
          rw [plain_breaks_cr] at plain
          cases plain
        cases breaks : breaksLine last <;> simp [notCr, Nat.add_assoc]
      | true =>
        have breaks : breaksLine last = true := by
          have which : last = .scalar '\r' ∨ last = .scalar '\n' := by simpa [plainBoundaries] using plain
          rcases which with rfl | rfl <;> decide
        simp [breaks, Nat.add_right_comm]

/-! ## Bytes -/

/-- What a capture keeps of the text it was given. -/
structure Holds (s : StreamCapture) (text : Text) : Prop where
  suffix_ : encode s.content <:+ encode text
  bytes : s.chunkBytes = countBytes s.content
  within : s.chunkBytes ≤ s.rollingMaxBytes
  whole : s.rolled = false → s.content = text

theorem dropChunks_spec (rollingMaxBytes : Nat) (chunks : List Text) (chunkBytes : Nat) (rolled : Bool)
    (bytes : chunkBytes = countBytes chunks.flatten) :
    (∃ dropped, chunks = dropped ++ (dropChunks rollingMaxBytes chunks chunkBytes rolled).1 ∧
      ((dropChunks rollingMaxBytes chunks chunkBytes rolled).2.2 = false → rolled = false ∧ dropped = [])) ∧
    (dropChunks rollingMaxBytes chunks chunkBytes rolled).2.1 =
      countBytes (dropChunks rollingMaxBytes chunks chunkBytes rolled).1.flatten ∧
    ((dropChunks rollingMaxBytes chunks chunkBytes rolled).2.1 ≤ rollingMaxBytes ∨
      (dropChunks rollingMaxBytes chunks chunkBytes rolled).1.length ≤ 1) := by
  induction chunks generalizing chunkBytes rolled with
  | nil => exact ⟨⟨[], rfl, fun same => ⟨same, rfl⟩⟩, bytes, Or.inr (by simp [dropChunks])⟩
  | cons first rest ih =>
    cases rest with
    | nil => exact ⟨⟨[], rfl, fun same => ⟨same, rfl⟩⟩, bytes, Or.inr (by simp [dropChunks])⟩
    | cons second others =>
      unfold dropChunks
      by_cases large : rollingMaxBytes < chunkBytes
      · rw [if_pos large]
        have left : chunkBytes - countBytes first = countBytes (second :: others).flatten := by
          rw [bytes, List.flatten_cons, countBytes_append]
          omega
        obtain ⟨⟨dropped, split, same⟩, counted, ends⟩ := ih _ true left
        refine ⟨⟨first :: dropped, by rw [List.cons_append, ← split], fun unrolled => ?_⟩, counted, ends⟩
        cases (same unrolled).1
      · rw [if_neg large]
        exact ⟨⟨[], rfl, fun same => ⟨same, rfl⟩⟩, bytes, Or.inl (Nat.le_of_not_lt large)⟩

/-- A tail of a text, as bytes. -/
theorem encode_tailWithin (text : Text) {maxLines maxBytes : Nat} (linesPos : 1 ≤ maxLines) :
    encode (tailWithin text maxLines maxBytes).content <:+ encode text ∧
      countBytes (tailWithin text maxLines maxBytes).content ≤ maxBytes := by
  by_cases long : LastLineTooLong text maxBytes
  · obtain ⟨line, last, large⟩ := long
    obtain ⟨front, split⟩ := List.getLast?_eq_some_iff.mp last
    have whole := flatten_splitlines text
    rw [split, List.flatten_append, List.flatten_singleton] at whole
    obtain ⟨⟨before, clipped⟩, small⟩ := encode_clip large
    rw [(tailWithin_of_long linesPos last large).1]
    refine ⟨⟨encode front.flatten ++ before, ?_⟩, small⟩
    rw [List.append_assoc, clipped, ← encode_append, whole]
  · have clean : ¬ ClipRecombines text maxBytes := by
      rintro ⟨line, clip, last, large, _⟩
      exact long ⟨line, last, large⟩
    have longest := ((tailKept_iff linesPos).mpr clean).longest long
    obtain ⟨front, split⟩ := tailOf_suffix longest.whole
    exact ⟨⟨encode front, by rw [← encode_append, split]⟩, longest.fits.2⟩

theorem Holds.trim {s : StreamCapture} {text : Text} (suffix_ : encode s.content <:+ encode text)
    (bytes : s.chunkBytes = countBytes s.content) (whole : s.rolled = false → s.content = text) :
    Holds s.trimRollingChunks text := by
  obtain ⟨⟨dropped, split, unrolled⟩, counted, ends⟩ :=
    dropChunks_spec s.rollingMaxBytes s.chunks s.chunkBytes s.rolled bytes
  unfold StreamCapture.trimRollingChunks
  cases result : dropChunks s.rollingMaxBytes s.chunks s.chunkBytes s.rolled with
  | mk chunks others =>
  obtain ⟨chunkBytes, rolled⟩ := others
  rw [result] at split unrolled counted ends
  dsimp only at split unrolled counted ends ⊢
  have kept : encode chunks.flatten <:+ encode text := by
    obtain ⟨front, same⟩ := suffix_
    refine ⟨front ++ encode dropped.flatten, ?_⟩
    rw [List.append_assoc, ← encode_append, ← List.flatten_append, ← split]
    exact same
  have same : rolled = false → chunks.flatten = text := by
    intro clean
    obtain ⟨before, none_⟩ := unrolled clean
    rw [none_, List.nil_append] at split
    rw [← split]
    exact whole before
  cases chunks with
  | nil =>
    rw [List.flatten_nil, countBytes_nil] at counted
    refine ⟨kept, counted, ?_, same⟩
    rw [counted]
    exact Nat.zero_le _
  | cons first rest =>
    dsimp only
    by_cases small : chunkBytes ≤ s.rollingMaxBytes
    · rw [if_pos small]
      exact ⟨kept, counted, small, same⟩
    · rw [if_neg small]
      have single : rest = [] := by
        rcases ends with fits | few
        · exact absurd fits small
        · exact List.eq_nil_of_length_eq_zero (by simpa using few)
      subst single
      obtain ⟨⟨before, clipped⟩, fits⟩ := @encode_tailWithin first 1000000 s.rollingMaxBytes (by decide)
      rw [List.flatten_singleton] at kept
      obtain ⟨front, tail⟩ := kept
      refine ⟨⟨front ++ before, ?_⟩, ?_, fits, nofun⟩
      · change _ ++ encode [_].flatten = _
        rw [List.flatten_singleton, List.append_assoc, clipped, tail]
      · change _ = countBytes [_].flatten
        rw [List.flatten_singleton]

theorem recordLines_frame (s : StreamCapture) (text : Text) :
    (s.recordLines text).captureFullOutput = s.captureFullOutput ∧
      (s.recordLines text).rollingMaxBytes = s.rollingMaxBytes ∧ (s.recordLines text).chunks = s.chunks ∧
      (s.recordLines text).chunkBytes = s.chunkBytes ∧ (s.recordLines text).rolled = s.rolled ∧
      (s.recordLines text).totalBytes = s.totalBytes := by
  unfold StreamCapture.recordLines
  induction text generalizing s with
  | nil => exact ⟨rfl, rfl, rfl, rfl, rfl, rfl⟩
  | cons character rest ih =>
    rw [List.foldl_cons]
    obtain ⟨full, limit, chunks, chunkBytes, rolled, totalBytes⟩ := ih (s.recordCharacter character)
    rw [full, limit, chunks, chunkBytes, rolled, totalBytes]
    unfold StreamCapture.recordCharacter
    split
    · exact ⟨rfl, rfl, rfl, rfl, rfl, rfl⟩
    · split <;> exact ⟨rfl, rfl, rfl, rfl, rfl, rfl⟩

theorem trimRollingChunks_frame (s : StreamCapture) :
    s.trimRollingChunks.captureFullOutput = s.captureFullOutput ∧
      s.trimRollingChunks.rollingMaxBytes = s.rollingMaxBytes ∧ s.trimRollingChunks.totalBytes = s.totalBytes ∧
      s.trimRollingChunks.totalLines = s.totalLines ∧ s.trimRollingChunks.lineOpen = s.lineOpen ∧
      s.trimRollingChunks.lastWasCarriageReturn = s.lastWasCarriageReturn := by
  unfold trimRollingChunks
  dsimp only
  split
  · exact ⟨rfl, rfl, rfl, rfl, rfl, rfl⟩
  · split <;> exact ⟨rfl, rfl, rfl, rfl, rfl, rfl⟩

/-! ## A rolling capture -/

/-- What a rolling capture says of all the text it was given. -/
structure Rolling (limit : Nat) (s : StreamCapture) (text : Text) : Prop where
  mode : s.captureFullOutput = false
  limited : s.rollingMaxBytes = limit
  holds : Holds s text
  recorded : Recorded s text
  totalBytes : s.totalBytes = countBytes text

theorem Rolling.append {limit : Nat} {s : StreamCapture} {text : Text} (rolling : Rolling limit s text) (more : Text) :
    Rolling limit (s.append more) (text ++ more) := by
  unfold StreamCapture.append
  by_cases empty : more = []
  · rw [if_pos empty, empty, List.append_nil]
    exact rolling
  rw [if_neg empty]
  obtain ⟨mode, limited, holds, recorded, totalBytes⟩ := rolling
  have counting : Recorded { s with totalBytes := s.totalBytes + countBytes more } text :=
    ⟨recorded.lines, recorded.open_iff, recorded.carriage⟩
  have lines := counting.recordLines more
  obtain ⟨full, limit_, chunks, chunkBytes, rolled, total⟩ :=
    recordLines_frame { s with totalBytes := s.totalBytes + countBytes more } more
  generalize ({ s with totalBytes := s.totalBytes + countBytes more } : StreamCapture).recordLines more = counted
    at lines full limit_ chunks chunkBytes rolled total ⊢
  have notFull : ¬ s.captureFullOutput = true := by
    rw [mode]
    exact Bool.false_ne_true
  rw [if_neg notFull]
  obtain ⟨front, before⟩ := holds.suffix_
  have trimmed := @Holds.trim
    { counted with chunks := s.chunks ++ [more], chunkBytes := s.chunkBytes + countBytes more } (text ++ more)
    ⟨front, by
      unfold StreamCapture.content at before ⊢
      rw [List.flatten_append, List.flatten_singleton, encode_append, ← List.append_assoc, before, encode_append]⟩
    (by
      have bytes := holds.bytes
      unfold StreamCapture.content at bytes ⊢
      rw [List.flatten_append, List.flatten_singleton, countBytes_append, ← bytes])
    (by
      intro clean
      have whole := holds.whole (rolled.symm.trans clean)
      unfold StreamCapture.content at whole ⊢
      rw [List.flatten_append, List.flatten_singleton, whole])
  obtain ⟨full', limit', total', lines', open', carriage'⟩ := trimRollingChunks_frame
    { counted with chunks := s.chunks ++ [more], chunkBytes := s.chunkBytes + countBytes more }
  refine ⟨full'.trans (full.trans mode), limit'.trans (limit_.trans limited), trimmed, ⟨?_, ?_, ?_⟩, ?_⟩
  · rw [lines', open']
    exact lines.lines
  · rw [open']
    exact lines.open_iff
  · rw [carriage']
    exact lines.carriage
  · rw [total', countBytes_append, ← totalBytes]
    exact total

theorem rolling_spec (limit : Nat) (positive : 1 ≤ limit) (texts : List Text) :
    Rolling limit (rolling limit positive texts) texts.flatten := by
  have start : Rolling limit { captureFullOutput := false, rollingMaxBytes := limit, positive } [] :=
    ⟨rfl, rfl, ⟨List.suffix_rfl, rfl, Nat.zero_le _, fun _ => rfl⟩, ⟨rfl, rfl, rfl⟩, rfl⟩
  have from_ : ∀ (texts : List Text) (s : StreamCapture) (text : Text), Rolling limit s text →
      Rolling limit (texts.foldl StreamCapture.append s) (text ++ texts.flatten) := by
    intro texts
    induction texts with
    | nil =>
      intro s text rolling
      rwa [List.flatten_nil, List.append_nil]
    | cons more rest ih =>
      intro s text rolling
      rw [List.foldl_cons, List.flatten_cons, ← List.append_assoc]
      exact ih _ _ (rolling.append more)
  exact from_ texts _ [] start

theorem totalLines_close {limit : Nat} (positive : 1 ≤ limit) (texts : List Text) :
    (rolling limit positive texts).close.totalLines = plainBoundaries.count texts.flatten := by
  rw [← (rolling_spec limit positive texts).recorded.lines]
  unfold close
  cases (rolling limit positive texts).lineOpen <;> rfl

/-! ## Streams -/

/-- What the capture of a stream promises: its reads become the same chunks however the pipe splits
them, and a rolling capture of such texts keeps a tail of them and counts what it was given. -/
structure Captured (maxChunkChars rollingMaxBytes : Nat) (positive : 1 ≤ rollingMaxBytes)
    (reads : List (List UInt8)) (texts : List Text) : Prop where
  split : ∀ other : List (List UInt8), other.flatten = reads.flatten →
    chunksOf maxChunkChars other = chunksOf maxChunkChars reads
  bounded : ∀ chunk ∈ chunksOf maxChunkChars reads, chunk ≠ [] ∧ chunk.length ≤ maxChunkChars
  decoded : (chunksOf maxChunkChars reads).flatten = decode reads.flatten
  suffix_ : encode (rolling rollingMaxBytes positive texts).content <:+ encode texts.flatten
  within : (rolling rollingMaxBytes positive texts).rolled = true →
    countBytes (rolling rollingMaxBytes positive texts).content ≤ rollingMaxBytes
  whole : (rolling rollingMaxBytes positive texts).rolled = false → (rolling rollingMaxBytes positive texts).content = texts.flatten
  totalBytes : (rolling rollingMaxBytes positive texts).totalBytes = countBytes texts.flatten
  totalLines : (rolling rollingMaxBytes positive texts).close.totalLines = countLines texts.flatten

/-- The capture keeps all of it exactly when no line boundary other than CR and LF stands before the
last character. -/
theorem captured_iff (maxChunkChars rollingMaxBytes : Nat) (charsPos : 1 ≤ maxChunkChars)
    (positive : 1 ≤ rollingMaxBytes) (reads : List (List UInt8)) (texts : List Text) :
    Captured maxChunkChars rollingMaxBytes positive reads texts ↔
      ∀ character ∈ texts.flatten.dropLast, otherBreak character = false := by
  obtain ⟨_, limited, holds, _, totalBytes⟩ := rolling_spec rollingMaxBytes positive texts
  have lines : (rolling rollingMaxBytes positive texts).close.totalLines = countLines texts.flatten ↔
      ∀ character ∈ texts.flatten.dropLast, otherBreak character = false := by
    have counted : countLines texts.flatten = boundaries.count texts.flatten := countLines_eq _
    rw [totalLines_close, counted, count_boundaries]
    have none_ : texts.flatten.dropLast.countP otherBreak = 0 ↔
        ∀ character ∈ texts.flatten.dropLast, otherBreak character = false := by
      simp only [List.countP_eq_zero, Bool.not_eq_true]
    rw [← none_]
    omega
  have within := holds.within
  rw [limited, holds.bytes] at within
  refine ⟨fun captured => lines.mp captured.totalLines, fun plain => ⟨?_, ?_, ?_, holds.suffix_, fun _ => within,
    holds.whole, totalBytes, lines.mpr plain⟩⟩
  · intro other same
    rw [chunksOf_eq charsPos, chunksOf_eq charsPos, same]
  · rw [chunksOf_eq charsPos]
    exact (takeChunks_spec charsPos true _).1
  · exact chunksOf_flatten charsPos reads

/-- Two lines, in two reads that divide the second one. -/
theorem captured_iff_twoLines :
    Captured 4 3 (by decide) [[0x61, 0x0a, 0xc3], [0xa9, 0x0a]] (chunksOf 4 [[0x61, 0x0a, 0xc3, 0xa9, 0x0a]]) :=
  (captured_iff 4 3 (by decide) (by decide) [[0x61, 0x0a, 0xc3], [0xa9, 0x0a]] _).mpr (by
    have plain : ((chunksOf 4 [[0x61, 0x0a, 0xc3, 0xa9, 0x0a]]).flatten.dropLast.all
        fun character => otherBreak character = false) = true := by decide +kernel
    simpa using plain)

/-- A vertical tab ends a line for `str.splitlines` and not for `_record_lines`. -/
theorem vertical_tab_uncounted :
    chunksOf 8 [[0x61, 0x0b, 0x62]] = [[.scalar 'a', .scalar '\x0b', .scalar 'b']] ∧
    (rolling 8 (by decide) (chunksOf 8 [[0x61, 0x0b, 0x62]])).close.totalLines = 1 ∧
    countLines (chunksOf 8 [[0x61, 0x0b, 0x62]]).flatten = 2 :=
  ⟨by decide, by decide, by decide⟩

end StreamCapture

end Loushang.Exec
