import Loushang.Lib.Text

/-!
# Editor clusters and word navigation

`_editor_grapheme_clusters` of `tui/cell_width.py`, the units an editor's cursor moves by,
and `tui/word_navigation.py`. The tables of `unicodedata` are a parameter.
-/
namespace Loushang.Tui
open Loushang.Lib

/-- What the code asks `unicodedata` and `str` about a character. -/
structure Unicode where
  /-- `unicodedata.combining(char) != 0`. -/
  combining : CodePoint → Bool
  /-- `char.isalnum()`. -/
  isAlnum : CodePoint → Bool

def isRegionalIndicator (point : CodePoint) : Bool :=
  0x1f1e6 ≤ point.val && point.val ≤ 0x1f1ff

def isClusterSuffix (unicode : Unicode) (point : CodePoint) : Bool :=
  unicode.combining point || (0xfe00 ≤ point.val && point.val ≤ 0xfe0f) ||
    (0x1f3fb ≤ point.val && point.val ≤ 0x1f3ff)

def zeroWidthJoiner : CodePoint := 0x200d

/-- How many of the characters after a cluster's first belong to it: suffixes, and after a
joiner any one character. -/
def suffixLength (unicode : Unicode) : Bool → List CodePoint → Nat
  | _, [] => 0
  | true, _ :: rest => suffixLength unicode false rest + 1
  | false, point :: rest =>
    if isClusterSuffix unicode point then suffixLength unicode false rest + 1
    else if point = zeroWidthJoiner then suffixLength unicode true rest + 1
    else 0

/-- The cluster a text starts with, and the text behind it. -/
def nextEditorCluster (unicode : Unicode) (first : CodePoint) (rest : List CodePoint) :
    PyStr × List CodePoint :=
  let taken :=
    match rest with
    | second :: _ =>
      if isRegionalIndicator first && isRegionalIndicator second then 1
      else suffixLength unicode false rest
    | [] => 0
  (⟨first :: rest.take taken⟩, rest.drop taken)

def editorClusters (unicode : Unicode) : Nat → List CodePoint → List PyStr
  | 0, _ => []
  | _ + 1, [] => []
  | fuel + 1, first :: rest =>
    let (cluster, behind) := nextEditorCluster unicode first rest
    cluster :: editorClusters unicode fuel behind

/-- Every cluster takes a character, so the length of the text is fuel enough. -/
def graphemeClusters (unicode : Unicode) (text : PyStr) : List PyStr :=
  editorClusters unicode text.points.length text.points

inductive Kind where
  | newline
  | space
  | word
  | punctuation
  | pasteMarker
  deriving DecidableEq

def isNewline (cluster : PyStr) : Bool := cluster == "\n"

def clusterKind (unicode : Unicode) (cluster : PyStr) : Kind :=
  if isNewline cluster then .newline
  else if cluster.truthy && cluster.isBlank then .space
  else if (cluster.truthy && cluster.points.all unicode.isAlnum) || cluster == "_" then .word
  else .punctuation

variable {T : Type}

/-- `while index > 0 and test(items[index - 1]): index -= 1`. -/
def skipLeft (test : T → Bool) (items : List T) (index : Nat) : Nat :=
  index - ((items.take index).reverse.takeWhile test).length

/-- `while index < len(items) and test(items[index]): index += 1`. -/
def skipRight (test : T → Bool) (items : List T) (index : Nat) : Nat :=
  index + ((items.drop index).takeWhile test).length

theorem skipLeft_le (test : T → Bool) (items : List T) (index : Nat) :
    skipLeft test items index ≤ index :=
  Nat.sub_le _ _

theorem skipRight_le (test : T → Bool) {items : List T} {index : Nat}
    (inside : index ≤ items.length) : skipRight test items index ≤ items.length := by
  have short := (List.takeWhile_sublist (l := items.drop index) test).length_le
  rw [List.length_drop] at short
  unfold skipRight
  omega

/-- `atomic` are the kinds of which one item is a word of its own. -/
def wordLeftIndex (items : List T) (cursor : Nat) (kindOf : T → Kind) (atomic : List Kind) : Nat :=
  let index := skipLeft (fun item => kindOf item == .space) items (min cursor items.length)
  if index = 0 then index
  else
    match items[index - 1]? with
    | none => index
    | some item =>
      if kindOf item ∈ atomic then index - 1
      else skipLeft (fun other => kindOf other == kindOf item) items index

def wordRightIndex (items : List T) (cursor : Nat) (kindOf : T → Kind) (atomic : List Kind) : Nat :=
  let index := skipRight (fun item => kindOf item == .space) items (min cursor items.length)
  match items[index]? with
  | none => index
  | some item =>
    if kindOf item ∈ atomic then index + 1
    else skipRight (fun other => kindOf other == kindOf item) items index

theorem wordLeftIndex_le (items : List T) (cursor : Nat) (kindOf : T → Kind) (atomic : List Kind) :
    wordLeftIndex items cursor kindOf atomic ≤ items.length := by
  have start := skipLeft_le (fun item => kindOf item == .space) items (min cursor items.length)
  unfold wordLeftIndex
  dsimp only
  split
  · omega
  · split
    · omega
    · next item _ =>
      split
      · omega
      · have next := skipLeft_le (fun other => kindOf other == kindOf item) items
          (skipLeft (fun item => kindOf item == .space) items (min cursor items.length))
        omega

theorem wordRightIndex_le (items : List T) (cursor : Nat) (kindOf : T → Kind) (atomic : List Kind) :
    wordRightIndex items cursor kindOf atomic ≤ items.length := by
  have start := @skipRight_le _ (fun item => kindOf item == .space) items (min cursor items.length)
    (Nat.min_le_right _ _)
  unfold wordRightIndex
  dsimp only
  split
  · exact start
  · next item found =>
    obtain ⟨inside, -⟩ := List.getElem?_eq_some_iff.mp found
    split
    · exact inside
    · exact skipRight_le _ start

end Loushang.Tui
