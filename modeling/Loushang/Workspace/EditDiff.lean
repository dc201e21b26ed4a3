import Loushang.Lib.Splice
import Loushang.Lib.Text

/-!
# Text edits of a workspace file

`harness/tools/workspace/edit_diff.py`: the text goes through LF line ends, and through a fuzzy form
when an edit needs it, before the edits are cut into it. `unicodedata.normalize("NFKC", …)` is a
parameter, as its tables are a Unicode version's. The diffs shown to a reader are left out.
-/
namespace Loushang.Workspace
open Lib

/-- A `str`. -/
abbrev Text := List CodePoint

def lf : CodePoint := 10
def cr : CodePoint := 13
def bomMark : CodePoint := 0xfeff

inductive LineEnding where
  | crlf
  | lf

def LineEnding.text : LineEnding → Text
  | .crlf => [Workspace.cr, Workspace.lf]
  | .lf => [Workspace.lf]

structure EditEntry where
  oldText : Text
  newText : Text

structure BomText where
  bom : Text
  text : Text

/-- `index` is `none` for -1, where `found` is false. -/
structure FuzzyMatchResult where
  index : Option Nat
  matchLength : Nat
  usedFuzzyMatch : Bool
  contentForReplacement : Text

structure AppliedEditsResult where
  baseContent : Text
  newContent : Text
  deriving DecidableEq

inductive EditError where
  | emptyOldText (index : Nat)
  | noMatch (index : Nat) (oldText : Text)
  | ambiguous (index : Nat) (oldText : Text)
  | overlap (previous current : Nat)
  | noChanges
  deriving DecidableEq

/-- A piece of an f-string: a literal, `{value}`, or `{value!r}`. -/
inductive MessagePiece where
  | lit (text : String)
  | number (value : Nat)
  | text (value : Text)
  | repr (value : Text)

/-- The text of the `ValueError`. -/
def EditError.message (path : Text) : EditError → List MessagePiece
  | .emptyOldText index =>
    [.lit "edits[", .number index, .lit "].oldText must not be empty in ", .text path, .lit "."]
  | .noMatch index oldText =>
    [.lit "edits[", .number index, .lit "] in ", .text path, .lit " did not match any content: ",
      .repr oldText]
  | .ambiguous index oldText =>
    [.lit "edits[", .number index, .lit "] in ", .text path, .lit " matched more than once: ", .repr oldText]
  | .overlap previous current =>
    [.lit "edits[", .number previous, .lit "] and edits[", .number current, .lit "] overlap in ", .text path,
      .lit ". ", .lit "Merge them into one edit or target disjoint regions."]
  | .noChanges =>
    [.lit "No changes made to ", .text path, .lit ". The replacement produced identical content."]

/-- `_SMART_QUOTE_TRANSLATION`. -/
def smartQuoteTranslation (point : CodePoint) : CodePoint :=
  let n := point.val
  if 0x2018 ≤ n ∧ n ≤ 0x201b then 0x27
  else if 0x201c ≤ n ∧ n ≤ 0x201f then 0x22
  else if (0x2010 ≤ n ∧ n ≤ 0x2015) ∨ n = 0x2212 then 0x2d
  else if n = 0xa0 ∨ (0x2002 ≤ n ∧ n ≤ 0x200a) ∨ n = 0x202f ∨ n = 0x205f ∨ n = 0x3000 then 0x20
  else point

def detectLineEnding (content : Text) : LineEnding :=
  match findSub [cr, lf] content, findSub [lf] content with
  | some crlfIndex, some lfIndex => if crlfIndex ≤ lfIndex then .crlf else .lf
  | _, _ => .lf

def normalizeToLf (text : Text) : Text := replaceSub [cr] [lf] (replaceSub [cr, lf] [lf] text)

def restoreLineEndings (text : Text) (ending : LineEnding) : Text :=
  match ending with
  | .crlf => replaceSub [lf] [cr, lf] text
  | .lf => text

def rstrip (line : Text) : Text := (line.reverse.dropWhile fun point : CodePoint => isSpaceCode point).reverse

/-- What `normalize_for_fuzzy_match` does after NFKC. -/
def cleanLines (normalized : Text) : Text :=
  let strippedTrailingWhitespace := List.intercalate [lf] ((normalized.splitOn lf).map rstrip)
  strippedTrailingWhitespace.map smartQuoteTranslation

section Fuzzy

variable (nfkc : Text → Text)

def normalizeForFuzzyMatch (text : Text) : Text := cleanLines (nfkc text)

def fuzzyFindText (content oldText : Text) : FuzzyMatchResult :=
  match findSub oldText content with
  | some index => ⟨some index, oldText.length, false, content⟩
  | none =>
    let fuzzyContent := normalizeForFuzzyMatch nfkc content
    let fuzzyOldText := normalizeForFuzzyMatch nfkc oldText
    match findSub fuzzyOldText fuzzyContent with
    | none => ⟨none, 0, false, content⟩
    | some index => ⟨some index, fuzzyOldText.length, true, fuzzyContent⟩

/-- `_count_occurrences`. -/
def countOccurrences (content oldText : Text) : Nat :=
  let needle := normalizeForFuzzyMatch nfkc oldText
  if needle = [] then 0 else countFrom needle 0 (normalizeForFuzzyMatch nfkc content)

def stripBom (content : Text) : BomText :=
  match content with
  | point :: rest => if point = bomMark then ⟨[bomMark], rest⟩ else ⟨[], content⟩
  | [] => ⟨[], []⟩

def EditEntry.normalized (edit : EditEntry) : EditEntry :=
  ⟨normalizeToLf edit.oldText, normalizeToLf edit.newText⟩

/-- An entry of `planned`, with the index of its edit. -/
structure PlannedEdit where
  cut : Cut CodePoint
  index : Nat

def checkOldTexts : List (EditEntry × Nat) → Except EditError Unit
  | [] => .ok ()
  | (edit, index) :: rest =>
    if edit.oldText = [] then .error (.emptyOldText index) else checkOldTexts rest

/-- `base_content`. -/
def baseContent (normalizedContent : Text) (normalizedEdits : List EditEntry) : Text :=
  if normalizedEdits.any fun edit => (fuzzyFindText nfkc normalizedContent edit.oldText).usedFuzzyMatch then
    normalizeForFuzzyMatch nfkc normalizedContent
  else normalizedContent

def planEdit (base : Text) (edit : EditEntry) (index : Nat) : Except EditError PlannedEdit :=
  let found := fuzzyFindText nfkc base edit.oldText
  match found.index with
  | none => .error (.noMatch index edit.oldText)
  | some start =>
    if countOccurrences nfkc base edit.oldText > 1 then .error (.ambiguous index edit.oldText)
    else .ok ⟨⟨start, start + found.matchLength, edit.newText⟩, index⟩

def planEdits (base : Text) : List (EditEntry × Nat) → Except EditError (List PlannedEdit)
  | [] => .ok []
  | (edit, index) :: rest => do
    let first ← planEdit nfkc base edit index
    let others ← planEdits base rest
    return first :: others

/-- `planned.sort(key=lambda item: item[0])`. -/
def sortPlanned (planned : List PlannedEdit) : List PlannedEdit :=
  planned.mergeSort fun first second => first.cut.start ≤ second.cut.start

/-- The loop over `zip(planned, planned[1:])`. -/
def checkDisjoint : List PlannedEdit → Except EditError Unit
  | previous :: current :: rest =>
    if current.cut.start < previous.cut.stop then .error (.overlap previous.index current.index)
    else checkDisjoint (current :: rest)
  | _ => .ok ()

def applyEditsToNormalizedContent (normalizedContent : Text) (edits : List EditEntry) :
    Except EditError AppliedEditsResult := do
  let normalizedEdits := edits.map EditEntry.normalized
  checkOldTexts normalizedEdits.zipIdx
  let base := baseContent nfkc normalizedContent normalizedEdits
  let planned ← planEdits nfkc base normalizedEdits.zipIdx
  let sorted := sortPlanned planned
  checkDisjoint sorted
  let newContent := applyCuts (sorted.map PlannedEdit.cut) base
  if newContent = base then .error .noChanges
  else return ⟨base, newContent⟩

def applyTextEdits (content : Text) (edits : List EditEntry) : Except EditError Text := do
  let stripped := stripBom content
  let lineEnding := detectLineEnding stripped.text
  let normalizedBody := normalizeToLf stripped.text
  let applied ← applyEditsToNormalizedContent nfkc normalizedBody edits
  return stripped.bom ++ restoreLineEndings applied.newContent lineEnding

end Fuzzy

end Loushang.Workspace
