import Loushang.Lib.Splitlines
import Loushang.Lib.Utf8

/-!
# Truncation of tool output

From `harness/workspace/truncation.py`: the head or the tail of a text in whole lines, within a
number of lines and of bytes. A text is one that `errors="surrogateescape"` can encode.
-/
namespace Loushang.Exec
open Loushang.Lib Loushang.Lib.Utf8

inductive TruncationKind where
  | lines
  | bytes

structure TruncationResult where
  content : Text
  truncated : Bool
  truncatedBy : Option TruncationKind
  totalLines : Nat
  totalBytes : Nat
  outputLines : Nat
  outputBytes : Nat
  lastLinePartial : Bool
  firstLineExceedsLimit : Bool
  maxLines : Nat
  maxBytes : Nat

/-- The code points `str.splitlines` ends a line at. -/
def lineBoundaries : List Nat := [0x0a, 0x0b, 0x0c, 0x0d, 0x1c, 0x1d, 0x1e, 0x85, 0x2028, 0x2029]

def breaksLine : Character → Bool
  | .scalar c => c.toNat ∈ lineBoundaries
  | .escaped _ _ => false

def boundaries : Boundaries Character where
  breaks := breaksLine
  cr := .scalar '\r'
  lf := .scalar '\n'
  breaks_cr := by decide
  breaks_lf := by decide
  different := by decide

/-- `content.splitlines(keepends=True)`. -/
def splitlines (content : Text) : List Text := boundaries.split content

/-- `_count_lines`. -/
def countLines (content : Text) : Nat := if content = [] then 0 else boundaries.count content

/-- `_count_bytes`. -/
def countBytes (content : Text) : Nat := (encode content).length

/-- `text.removesuffix(suffix)`. -/
def removeSuffix (suffix text : Text) : Text :=
  if suffix.isSuffixOf text then text.take (text.length - suffix.length) else text

/-- `_strip_line_ending`. -/
def stripLineEnding (line : Text) : Text :=
  removeSuffix [.scalar '\r'] (removeSuffix [.scalar '\n'] (removeSuffix [.scalar '\r', .scalar '\n'] line))

/-- `_validate_limits`, of integers. -/
def validateLimits (maxLines maxBytes : Int) : Except String Unit :=
  if maxLines < 1 then .error "max_lines must be >= 1"
  else if maxBytes < 1 then .error "max_bytes must be >= 1"
  else .ok ()

/-- `_make_result`, the two flags of partial lines apart. -/
def makeResult (content outputContent : Text) (truncatedBy : Option TruncationKind) (maxLines maxBytes : Nat) :
    TruncationResult where
  content := outputContent
  truncated := truncatedBy.isSome
  truncatedBy := truncatedBy
  totalLines := countLines content
  totalBytes := countBytes content
  outputLines := countLines outputContent
  outputBytes := countBytes outputContent
  lastLinePartial := false
  firstLineExceedsLimit := false
  maxLines := maxLines
  maxBytes := maxBytes

/-- The reason given when the loop ran to its end. -/
def lateReason (content outputContent : Text) : Option TruncationKind → Option TruncationKind
  | some kind => some kind
  | none =>
    if outputContent ≠ content then
      some (if countBytes outputContent < countBytes content then .bytes else .lines)
    else none

/-- The loop of `truncate_head`. -/
def headLoop (maxLines maxBytes : Nat) : List Text → List Text → Nat → List Text × Option TruncationKind
  | [], outputLines, _ => (outputLines, none)
  | line :: rest, outputLines, outputBytes =>
    if maxLines ≤ outputLines.length then (outputLines, some .lines)
    else if maxBytes < outputBytes + countBytes line then (outputLines, some .bytes)
    else headLoop maxLines maxBytes rest (outputLines ++ [line]) (outputBytes + countBytes line)

/-- `truncate_head` behind its validation. -/
def headWithin (content : Text) (maxLines maxBytes : Nat) : TruncationResult :=
  let lines := splitlines content
  if countLines content ≤ maxLines ∧ countBytes content ≤ maxBytes then
    makeResult content content none maxLines maxBytes
  else if lines.head?.any fun line => maxBytes < countBytes (stripLineEnding line) then
    { makeResult content [] (some .bytes) maxLines maxBytes with firstLineExceedsLimit := true }
  else
    let (outputLines, truncatedBy) := headLoop maxLines maxBytes lines [] 0
    makeResult content outputLines.flatten (lateReason content outputLines.flatten truncatedBy) maxLines maxBytes

/-- `truncate_head`. -/
def truncateHead (content : Text) (maxLines maxBytes : Int) : Except String TruncationResult :=
  (validateLimits maxLines maxBytes).map fun _ => headWithin content maxLines.toNat maxBytes.toNat

/-- The binary search of `_truncate_utf8_suffix`, in as many rounds as it needs at most. -/
def searchCut (content : Text) (maxBytes : Nat) : Nat → Nat → Nat → Nat
  | 0, left, _ => left
  | rounds + 1, left, right =>
    if left < right then
      let middle := (left + right) / 2
      if maxBytes < countBytes (content.drop middle) then searchCut content maxBytes rounds (middle + 1) right
      else searchCut content maxBytes rounds left middle
    else left

/-- `_truncate_utf8_suffix`. -/
def truncateUtf8Suffix (content : Text) (maxBytes : Nat) : Text × Bool :=
  let encoded := encode content
  if encoded.length ≤ maxBytes then (content, false)
  else
    match decodeStrict (encoded.drop (encoded.length - maxBytes)) with
    | some clipped => (clipped.map .scalar, true)
    | none =>
      let left := searchCut content maxBytes content.length (content.length - maxBytes) content.length
      (content.drop left, true)

/-- The loop of `truncate_tail`, over the lines from the last one on. -/
def tailLoop (maxLines maxBytes : Nat) :
    List Text → List Text → Nat → List Text × Option TruncationKind × Bool
  | [], outputLines, _ => (outputLines, none, false)
  | line :: rest, outputLines, outputBytes =>
    if maxLines ≤ outputLines.length then (outputLines, some .lines, false)
    else if maxBytes < outputBytes + countBytes line then
      if outputLines = [] then
        let (clipped, clippedByBytes) := truncateUtf8Suffix line maxBytes
        ([clipped], some .bytes, clippedByBytes)
      else (outputLines, some .bytes, false)
    else tailLoop maxLines maxBytes rest (outputLines ++ [line]) (outputBytes + countBytes line)

/-- `truncate_tail` behind its validation. -/
def tailWithin (content : Text) (maxLines maxBytes : Nat) : TruncationResult :=
  if countLines content ≤ maxLines ∧ countBytes content ≤ maxBytes then
    makeResult content content none maxLines maxBytes
  else
    let (outputLines, truncatedBy, lastLinePartial) :=
      tailLoop maxLines maxBytes (splitlines content).reverse [] 0
    { makeResult content outputLines.reverse.flatten (lateReason content outputLines.reverse.flatten truncatedBy)
        maxLines maxBytes with
      lastLinePartial := lastLinePartial }

/-- `truncate_tail`. -/
def truncateTail (content : Text) (maxLines maxBytes : Int) : Except String TruncationResult :=
  (validateLimits maxLines maxBytes).map fun _ => tailWithin content maxLines.toNat maxBytes.toNat

end Loushang.Exec
