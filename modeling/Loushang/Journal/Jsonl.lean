import Loushang.Lib.Lines
import Loushang.Lib.Text

/-!
# JSONL journals

`journal/jsonl.py:307-385,444-671,781-908` on the text of one file. The codecs are
the product's and `json` is the language's: a codec's laws and the three
facts used of `json.dumps` are fields of their structures. A record is one the
codec can encode. Locks, durability, paths and the diagnostics' severity are left
out; writes are assumed to reach the file.
-/
namespace Loushang.Journal
open Loushang.Lib

inductive HeaderMode where
  | required
  | absent

inductive InvalidValueBehavior where
  | raise
  | skip
  deriving DecidableEq

inductive PartialTailBehavior where
  | raise
  | skip
  | repair
  deriving DecidableEq

structure JournalLoadPolicy where
  header : HeaderMode
  invalidHeader : InvalidValueBehavior
  invalidRecord : InvalidValueBehavior
  partialTail : PartialTailBehavior

/-- The same policy without tolerance for an incomplete tail. -/
def JournalLoadPolicy.strict (policy : JournalLoadPolicy) : JournalLoadPolicy :=
  { policy with partialTail := .raise }

structure JournalDiagnostic where
  code : String
  message : String
  lineNumber : Nat

structure JsonlSnapshot (H R : Type) where
  header : Option H
  records : List R
  diagnostics : List JournalDiagnostic

inductive JournalError where
  | file (message code : String) (lineNumber : Option Nat)
  | value (message : String)

/-- Why a line is no strict JSON object. -/
inductive MappingFault where
  | json
  | shape
  | value
  deriving DecidableEq

/-- `json.dumps` under a format profile and `json.loads` with the object and
strict-value checks, on the strict JSON objects `V`. -/
structure JsonText (V : Type) where
  dumps : V → List Char
  loads : List Char → Except MappingFault V
  loads_dumps : ∀ value, loads (dumps value) = .ok value
  dumps_unbroken : ∀ value, ∀ c ∈ dumps value, isEnding c = false
  dumps_not_blank : ∀ value, isBlank (dumps value) = false

/-- A decoder fails with a `JournalCodecError`'s code, or with another exception. -/
structure JournalRecordCodec (V R : Type) where
  encodeRecord : R → V
  decodeRecord : V → Except (Option String) R
  decode_encode : ∀ record, decodeRecord (encodeRecord record) = .ok record

structure JournalHeaderCodec (V H : Type) where
  decodeHeader : V → Except (Option String) H

/-- `JournalFormatProfile.newline`, which has to be a JSONL line ending. -/
inductive Newline where
  | lf
  | cr
  | crlf

def Newline.text : Newline → List Char
  | .lf => ['\n']
  | .cr => ['\r']
  | .crlf => ['\r', '\n']

/-- How the file is read: through a rooted descriptor the bytes are decoded as they
are, through a path the text layer translates every line ending. -/
inductive ReadMode where
  | rooted
  | path

def readText : ReadMode → List Char → List Char
  | .rooted, content => content
  | .path, content => universalNewlines content

/-! ## Framing -/

def hasTrailingNewline (raw : List Char) : Bool := endsLine raw

/-- `_split_jsonl_physical_lines`. -/
def splitJsonlPhysicalLines (raw : List Char) : List (List Char) :=
  if raw = [] then []
  else
    let pieces := if '\r' ∈ raw then splitEndings raw else raw.splitOn '\n'
    if hasTrailingNewline raw then pieces.dropLast else pieces

/-- `_line_start_offset`; `none` is its `ValueError`. -/
def lineStartOffset (raw : List Char) (lineNumber : Nat) : Option Nat :=
  if lineNumber < 1 then none
  else if lineNumber = 1 ∧ raw ≠ [] then some 0
  else if lineNumber = 1 then none
  else (lineEnds 0 raw)[lineNumber - 2]?.filter fun offset => offset < raw.length

section

variable {V H R : Type}

/-! ## Decoding -/

/-- `JournalFileError`, or any other exception with its codec code. -/
inductive LineFault where
  | file (message code : String)
  | other (code : Option String)

/-- `_load_mapping`. -/
def loadMapping (json : JsonText V) (kind : String) (line : List Char) : Except LineFault V :=
  match json.loads line with
  | .ok value => .ok value
  | .error .json => .error (.file ("Journal " ++ kind ++ " is not valid JSON") ("invalid_" ++ kind ++ "_json"))
  | .error .shape =>
    .error (.file ("Journal " ++ kind ++ " must be a JSON object") ("invalid_" ++ kind ++ "_shape"))
  | .error .value =>
    .error (.file ("Journal " ++ kind ++ " contains a value outside strict JSON")
      ("invalid_" ++ kind ++ "_value"))

def decodeHeaderLine (json : JsonText V) (codec : JournalHeaderCodec V H) (line : List Char) :
    Except LineFault H :=
  match loadMapping json "header" line with
  | .error fault => .error fault
  | .ok value => (codec.decodeHeader value).mapError .other

/-- The `try` body of the record loop. -/
def decodeRecordLine (json : JsonText V) (codec : JournalRecordCodec V R) (line : List Char)
    (isPartialTail : Bool) : Except LineFault R :=
  match loadMapping json "record" line with
  | .error fault => .error fault
  | .ok value =>
    match codec.decodeRecord value with
    | .error code => .error (.other code)
    | .ok record =>
      if isPartialTail then
        .error (.file "Journal record is missing its commit newline" "partial_journal_tail")
      else .ok record

/-- Non-blank lines with their line numbers. -/
def numberedLines (first : Nat) (physicalLines : List (List Char)) : List (Nat × List Char) :=
  ((physicalLines.zipIdx first).map Prod.swap).filter fun numbered => !isBlank numbered.2

/-- The header, the lines left for records and the header's diagnostics. -/
def decodeHeaderPart (json : JsonText V) (headerCodec : Option (JournalHeaderCodec V H))
    (policy : JournalLoadPolicy) (numbered : List (Nat × List Char)) :
    Except JournalError (Option H × List (Nat × List Char) × List JournalDiagnostic) :=
  match policy.header with
  | .absent => .ok (none, numbered, [])
  | .required =>
    match numbered, headerCodec with
    | [], _ => .error (.file "Journal file is empty" "empty_journal" none)
    | _, none => .error (.value "header_codec is required by the load policy")
    | (lineNumber, line) :: rest, some codec =>
      match decodeHeaderLine json codec line with
      | .ok header => .ok (some header, rest, [])
      | .error (.file message code) =>
        if policy.invalidHeader = .raise then .error (.file message code lineNumber)
        else .ok (none, rest, [⟨"invalid_journal_header",
          "Journal header was skipped because it is invalid.", lineNumber⟩])
      | .error (.other code) =>
        if policy.invalidHeader = .raise then
          .error (.file "Journal header is invalid" (code.getD "invalid_header") lineNumber)
        else .ok (none, rest, [⟨code.getD "invalid_header",
          "Journal header was skipped because its value is invalid.", lineNumber⟩])

def skippedRecordMessage : String := "Journal record was skipped because it is incomplete or invalid."

/-- The body of the record loop: the line's record, or what a skipped line is reported as. -/
def decodeRecordEntry (json : JsonText V) (codec : JournalRecordCodec V R) (policy : JournalLoadPolicy)
    (isPartialTail : Bool) (lineNumber : Nat) (line : List Char) :
    Except JournalError (R ⊕ JournalDiagnostic) :=
  if isPartialTail ∧ policy.partialTail ≠ .raise then
    .ok (.inr ⟨"partial_journal_tail", skippedRecordMessage, lineNumber⟩)
  else
    match decodeRecordLine json codec line isPartialTail with
    | .ok record => .ok (.inl record)
    | .error fault =>
      if (if isPartialTail then decide (policy.partialTail = .raise)
          else decide (policy.invalidRecord = .raise)) then
        match fault with
        | .file message code => .error (.file message code lineNumber)
        | .other code =>
          .error (.file "Journal record is invalid" (code.getD "invalid_record") lineNumber)
      else .ok (.inr ⟨if isPartialTail then "partial_journal_tail" else "invalid_journal_record",
        skippedRecordMessage, lineNumber⟩)

/-- The record loop. -/
def decodeRecords (json : JsonText V) (codec : JournalRecordCodec V R) (policy : JournalLoadPolicy)
    (unterminatedTailLine : Option Nat) :
    List (Nat × List Char) → Except JournalError (List R × List JournalDiagnostic)
  | [] => .ok ([], [])
  | (lineNumber, line) :: rest =>
    match decodeRecordEntry json codec policy (unterminatedTailLine = some lineNumber) lineNumber line with
    | .error error => .error error
    | .ok entry =>
      (decodeRecords json codec policy unterminatedTailLine rest).map fun later =>
        match entry with
        | .inl record => (record :: later.1, later.2)
        | .inr diagnostic => (later.1, diagnostic :: later.2)

/-- The whitespace tail's diagnostic. -/
def blankTail (policy : JournalLoadPolicy) (physicalLines : List (List Char)) :
    Option Nat → List JournalDiagnostic
  | none => []
  | some lineNumber =>
    if (physicalLines.getLast?.any isBlank) ∧ policy.partialTail ≠ .raise then
      [⟨"partial_journal_tail",
        "Journal trailing whitespace was skipped because it is incomplete.", lineNumber⟩]
    else []

/-- `_decode_jsonl` once the text is framed. -/
def decodeLines (json : JsonText V) (headerCodec : Option (JournalHeaderCodec V H))
    (recordCodec : JournalRecordCodec V R) (policy : JournalLoadPolicy)
    (physicalLines : List (List Char)) (unterminatedTailLine : Option Nat) :
    Except JournalError (JsonlSnapshot H R) :=
  match decodeHeaderPart json headerCodec policy (numberedLines 1 physicalLines) with
  | .error error => .error error
  | .ok (header, recordLines, headerDiagnostics) =>
    (decodeRecords json recordCodec policy unterminatedTailLine recordLines).map fun result =>
      ⟨header, result.1, headerDiagnostics ++ result.2 ++
        blankTail policy physicalLines unterminatedTailLine⟩

def unterminatedTailLine (raw : List Char) : Option Nat :=
  if raw ≠ [] ∧ hasTrailingNewline raw = false then some (splitJsonlPhysicalLines raw).length else none

/-- `_decode_jsonl`. -/
def decodeJsonl (json : JsonText V) (headerCodec : Option (JournalHeaderCodec V H))
    (recordCodec : JournalRecordCodec V R) (policy : JournalLoadPolicy) (raw : List Char) :
    Except JournalError (JsonlSnapshot H R) :=
  decodeLines json headerCodec recordCodec policy (splitJsonlPhysicalLines raw) (unterminatedTailLine raw)

/-! ## Files -/

/-- `load_jsonl` on a file's text: the snapshot and the text left in the file.
`validateSnapshot` is the owner's check. -/
def loadJsonl (json : JsonText V) (headerCodec : Option (JournalHeaderCodec V H))
    (recordCodec : JournalRecordCodec V R) (policy : JournalLoadPolicy) (mode : ReadMode)
    (validateSnapshot : JsonlSnapshot H R → Option JournalError) (content : List Char) :
    Except JournalError (JsonlSnapshot H R × List Char) :=
  match decodeJsonl json headerCodec recordCodec policy (readText mode content) with
  | .error error => .error error
  | .ok snapshot =>
    match validateSnapshot snapshot with
    | some error => .error error
    | none =>
      match snapshot.diagnostics.find? fun diagnostic => diagnostic.code = "partial_journal_tail" with
      | none => .ok (snapshot, content)
      | some diagnostic =>
        if policy.partialTail = .repair then
          match lineStartOffset (readText mode content) diagnostic.lineNumber with
          | none => .error (.value "line does not exist in journal")
          | some offset => .ok (snapshot, (readText mode content).take offset)
        else .ok (snapshot, content)

def dumpRecord (json : JsonText V) (codec : JournalRecordCodec V R) (record : R) : List Char :=
  json.dumps (codec.encodeRecord record)

/-- `append_jsonl_record`. -/
def appendJsonlRecord (json : JsonText V) (codec : JournalRecordCodec V R) (newline : Newline)
    (content : List Char) (record : R) : List Char :=
  content ++ dumpRecord json codec record ++ newline.text

/-- `append_jsonl_records`: one write of all lines. -/
def appendJsonlRecords (json : JsonText V) (codec : JournalRecordCodec V R) (newline : Newline)
    (content : List Char) (records : List R) : List Char :=
  if records = [] then content
  else content ++ (newline.text.intercalate (records.map (dumpRecord json codec)) ++ newline.text)

end

end Loushang.Journal
