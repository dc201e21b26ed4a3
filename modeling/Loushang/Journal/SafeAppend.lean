import Loushang.Journal.Repair

/-!
# Repair and append

After `load_jsonl` with `partial_tail="repair"` the file is meant to end on a record
boundary, so that an append starts a line of its own. It does, except where the
unterminated line is the header: the header is never reported as a partial tail, and
no repair is made. A header codec that fails with the tail's code is the other exception.
-/
namespace Loushang.Journal
open Loushang.Lib

section

variable {V H R : Type} (json : JsonText V) (headerCodec : Option (JournalHeaderCodec V H))
  (recordCodec : JournalRecordCodec V R) (policy : JournalLoadPolicy)

/-! ## Appended text -/

theorem dumpRecord_ne_nil (record : R) : dumpRecord json recordCodec record ≠ [] := by
  intro empty
  have blank := json.dumps_not_blank (recordCodec.encodeRecord record)
  rw [show json.dumps (recordCodec.encodeRecord record) = [] from empty] at blank
  cases blank

/-- A text that can be written as one line. -/
def OneLine (text : List Char) : Prop := text ≠ [] ∧ ∀ c ∈ text, isEnding c = false

theorem oneLine_dumpRecord (record : R) : OneLine (dumpRecord json recordCodec record) :=
  ⟨dumpRecord_ne_nil json recordCodec record, json.dumps_unbroken _⟩

theorem lines_concat_newline (newline : Newline) {text : List Char} (oneLine : OneLine text) :
    lines (text ++ newline.text) = [text] := by
  obtain ⟨nonempty, unbroken⟩ := oneLine
  induction text with
  | nil => exact absurd rfl nonempty
  | cons c rest ih =>
    rw [List.cons_append, lines_char (unbroken c List.mem_cons_self)]
    by_cases last : rest = []
    · rw [last]
      cases newline <;> rfl
    · rw [ih last fun d member => unbroken d (List.mem_cons_of_mem _ member)]

/-- Each text followed by a line ending. -/
def terminated (newline : Newline) (texts : List (List Char)) : List Char :=
  texts.flatMap fun text => text ++ newline.text

variable {texts : List (List Char)}

theorem apart_terminated (newline : Newline) (oneLines : ∀ text ∈ texts, OneLine text) (front : List Char) :
    Apart front (terminated newline texts) := by
  intro _ next
  cases texts with
  | nil => cases next
  | cons text rest =>
    obtain ⟨nonempty, unbroken⟩ := oneLines text List.mem_cons_self
    cases text with
    | nil => exact nonempty rfl
    | cons c more =>
      have open_ := unbroken c List.mem_cons_self
      obtain rfl : c = '\n' := by simpa [terminated] using next
      cases open_

theorem closed_concat_newline (newline : Newline) (front : List Char) :
    Closed (front ++ newline.text) := by
  right
  cases newline <;> simp [Newline.text, endsLine, isEnding]

variable {front : List Char}

/-- Terminated texts after a closed front are lines of their own. -/
theorem lines_append_terminated (newline : Newline) (closed : Closed front)
    (oneLines : ∀ text ∈ texts, OneLine text) :
    lines (front ++ terminated newline texts) = lines front ++ texts := by
  rw [lines_append closed (apart_terminated newline oneLines front)]
  congr 1
  induction texts with
  | nil => rfl
  | cons text rest ih =>
    have others : ∀ text ∈ rest, OneLine text := fun text member =>
      oneLines text (List.mem_cons_of_mem _ member)
    have split : terminated newline (text :: rest) =
        (text ++ newline.text) ++ terminated newline rest := rfl
    rw [split, lines_append (closed_concat_newline newline text)
      (apart_terminated newline others _), lines_concat_newline newline (oneLines text List.mem_cons_self),
      ih others]
    rfl

theorem closed_append_terminated (newline : Newline) (closed : Closed front) (texts : List (List Char)) :
    Closed (front ++ terminated newline texts) := by
  rcases List.eq_nil_or_concat texts with rfl | ⟨rest, text, rfl⟩
  · simpa [terminated] using closed
  · have split : front ++ terminated newline (rest.concat text) =
        (front ++ terminated newline rest ++ text) ++ newline.text := by
      simp [terminated]
    rw [split]
    exact closed_concat_newline newline _

theorem appendJsonlRecords_eq (newline : Newline) (content : List Char) (records : List R) :
    appendJsonlRecords json recordCodec newline content records =
      content ++ terminated newline (records.map (dumpRecord json recordCodec)) := by
  unfold appendJsonlRecords
  split
  · next empty =>
    rw [empty]
    exact (List.append_nil content).symm
  · next some_ =>
    congr 1
    induction records with
    | nil => exact absurd rfl some_
    | cons record rest ih =>
      cases rest with
      | nil => simp [terminated, List.intercalate]
      | cons next more =>
        have later := ih (by simp)
        simp only [List.map_cons, terminated, List.flatMap_cons] at later ⊢
        rw [← later]
        simp [List.intercalate]

/-- One record is the batch of one. -/
theorem appendJsonlRecord_eq (newline : Newline) (content : List Char) (record : R) :
    appendJsonlRecord json recordCodec newline content record =
      appendJsonlRecords json recordCodec newline content [record] := by
  rw [appendJsonlRecords_eq]
  simp [appendJsonlRecord, terminated]

/-! ## Loading what was appended -/

/-- The part of a snapshot a load is compared on. -/
def JsonlSnapshot.contents (snapshot : JsonlSnapshot H R) : Option H × List R :=
  (snapshot.header, snapshot.records)

/-- A strict load, reduced to header and records. -/
def strictContents (mode : ReadMode) (content : List Char) :
    Except JournalError (Option H × List R) :=
  (loadJsonl json headerCodec recordCodec policy.strict mode (fun _ => none) content).map
    fun loaded => loaded.1.contents

theorem strictContents_eq (mode : ReadMode) (content : List Char) :
    strictContents json headerCodec recordCodec policy mode content =
      (decodeJsonl json headerCodec recordCodec policy.strict content).map
        JsonlSnapshot.contents := by
  unfold strictContents loadJsonl
  rw [decodeJsonl_readText]
  cases decodeJsonl json headerCodec recordCodec policy.strict content with
  | error error => rfl
  | ok snapshot =>
    simp only [JournalLoadPolicy.strict, reduceCtorEq, if_false]
    split <;> rfl

variable {content : List Char}

theorem decodeJsonl_of_closed (closed : Closed content) :
    decodeJsonl json headerCodec recordCodec policy content =
      decodeLines json headerCodec recordCodec policy (lines content) none := by
  rw [decodeJsonl, splitJsonlPhysicalLines_eq, unterminatedTailLine_of_closed closed]

theorem decodeJsonl_of_open (opened : ¬ Closed content) :
    decodeJsonl json headerCodec recordCodec policy content =
      decodeLines json headerCodec recordCodec policy (lines content)
        (some (lines content).length) := by
  rw [decodeJsonl, splitJsonlPhysicalLines_eq, unterminatedTailLine_of_open opened]

variable {physicalLines : List (List Char)} {tail : Option Nat} {snapshot : JsonlSnapshot H R}

/-- The parts of a successful decoding. -/
theorem decodeLines_ok
    (success : decodeLines json headerCodec recordCodec policy physicalLines tail = .ok snapshot) :
    ∃ part result,
      decodeHeaderPart json headerCodec policy (numberedLines 1 physicalLines) = .ok part ∧
      decodeRecords json recordCodec policy tail part.2.1 = .ok result ∧
      snapshot = ⟨part.1, result.1, part.2.2 ++ result.2 ++ blankTail policy physicalLines tail⟩ := by
  unfold decodeLines at success
  cases header : decodeHeaderPart json headerCodec policy (numberedLines 1 physicalLines) with
  | error error =>
    rw [header] at success
    cases success
  | ok part =>
    rw [header] at success
    simp only at success
    cases loop : decodeRecords json recordCodec policy tail part.2.1 with
    | error error =>
      rw [loop] at success
      cases success
    | ok result =>
      rw [loop] at success
      cases success
      exact ⟨part, result, rfl, loop, rfl⟩

/-- A required header leaves no line to the records. -/
theorem decodeLines_length (required : policy.header = .required)
    (success : decodeLines json headerCodec recordCodec policy physicalLines tail = .ok snapshot) :
    snapshot.records.length + 1 ≤ (physicalLines.filter fun line => !isBlank line).length := by
  obtain ⟨part, result, header, loop, rfl⟩ :=
    decodeLines_ok json headerCodec recordCodec policy success
  have shorter := decodeRecords_length json recordCodec policy loop
  rw [← length_numberedLines 1]
  rcases decodeHeaderPart_cases json headerCodec policy header with
    ⟨absent, _⟩ | ⟨_, _, _, _, _, split, _⟩
  · rw [required] at absent
    cases absent
  · rw [split, List.length_cons]
    exact Nat.succ_le_succ shorter

/-- Dumped records after decoded lines are read after the decoded records. -/
theorem decodeLines_extend
    (success : decodeLines json headerCodec recordCodec policy physicalLines none = .ok snapshot)
    (records : List R) :
    (decodeLines json headerCodec recordCodec policy.strict
        (physicalLines ++ records.map (dumpRecord json recordCodec)) none).map
      JsonlSnapshot.contents = .ok (snapshot.header, snapshot.records ++ records) := by
  obtain ⟨part, result, header, loop, rfl⟩ :=
    decodeLines_ok json headerCodec recordCodec policy success
  have first : policy.strict.header = .required → numberedLines 1 physicalLines ≠ [] := by
    intro required empty
    rcases decodeHeaderPart_cases json headerCodec policy header with
      ⟨absent, _⟩ | ⟨_, _, _, _, _, split, _⟩
    · rw [show policy.header = .required from required] at absent
      cases absent
    · rw [empty] at split
      cases split
  have dumped : (numberedLines (1 + physicalLines.length)
      (records.map (dumpRecord json recordCodec))).map Prod.snd =
        records.map (dumpRecord json recordCodec) := by
    rw [map_snd_numberedLines, List.filter_eq_self]
    intro line member
    obtain ⟨record, _, rfl⟩ := List.mem_map.mp member
    rw [dumpRecord, json.dumps_not_blank]
    rfl
  have sameLoop : decodeRecords json recordCodec policy.strict none part.2.1 = .ok result := by
    rw [← loop]
    have same : policy.invalidRecord = policy.strict.invalidRecord := rfl
    refine decodeRecords_of_no_tail json recordCodec policy.strict same ?_
    simp
  unfold decodeLines
  rw [numberedLines_append, decodeHeaderPart_append json headerCodec policy.strict _ first,
    decodeHeaderPart_strict, header]
  simp only [Except.map]
  rw [decodeRecords_append, sameLoop,
    decodeRecords_dumped json recordCodec policy.strict dumped]
  rfl

/-! ## What repair leaves in the file -/

/-- A last line that is no header is reported, and nothing else changes. -/
theorem decodeLines_tail {line : List Char} (lenient : policy.partialTail ≠ .raise)
    (first : policy.header = .required → numberedLines 1 physicalLines ≠ [])
    (success : decodeLines json headerCodec recordCodec policy (physicalLines ++ [line])
      (some (physicalLines.length + 1)) = .ok snapshot) :
    ∃ before message,
      decodeLines json headerCodec recordCodec policy physicalLines none = .ok before ∧
        snapshot = ⟨before.header, before.records,
          before.diagnostics ++ [⟨"partial_journal_tail", message, physicalLines.length + 1⟩]⟩ := by
  obtain ⟨whole, result, header, loop, rfl⟩ :=
    decodeLines_ok json headerCodec recordCodec policy success
  rw [numberedLines_append, decodeHeaderPart_append json headerCodec policy _ first] at header
  cases frontHeader : decodeHeaderPart json headerCodec policy (numberedLines 1 physicalLines) with
  | error error =>
    rw [frontHeader] at header
    cases header
  | ok part =>
    rw [frontHeader] at header
    cases header
    have away : ∀ numbered ∈ part.2.1, some (physicalLines.length + 1) ≠ some numbered.1 := by
      intro numbered member same
      have inside : numbered ∈ numberedLines 1 physicalLines := by
        rcases decodeHeaderPart_cases json headerCodec policy frontHeader with
          ⟨_, rfl⟩ | ⟨_, _, _, _, _, split, _⟩
        · exact member
        · rw [split]
          exact List.mem_cons_of_mem _ member
      obtain ⟨_, before⟩ := mem_numberedLines inside
      have reached := Option.some.inj same
      omega
    rw [decodeRecords_append, decodeRecords_of_no_tail json recordCodec policy rfl away] at loop
    cases frontLoop : decodeRecords json recordCodec policy none part.2.1 with
    | error error =>
      rw [frontLoop] at loop
      cases loop
    | ok front =>
      rw [frontLoop] at loop
      have before : decodeLines json headerCodec recordCodec policy physicalLines none =
          .ok ⟨part.1, front.1, part.2.2 ++ front.2⟩ := by
        unfold decodeLines
        rw [frontHeader]
        simp [frontLoop, Except.map, blankTail]
      cases blank : isBlank line with
      | true =>
        refine ⟨_, "Journal trailing whitespace was skipped because it is incomplete.", before, ?_⟩
        have nothing : numberedLines (1 + physicalLines.length) [line] = [] := by
          simp [numberedLines, blank]
        rw [nothing] at loop
        cases loop
        simp [blankTail, blank, lenient]
      | false =>
        refine ⟨_, skippedRecordMessage, before, ?_⟩
        have one : numberedLines (1 + physicalLines.length) [line] =
            [(physicalLines.length + 1, line)] := by
          simp [numberedLines, blank, Nat.add_comm]
        rw [one] at loop
        simp only [decodeRecords, decodeRecordEntry, decide_true, lenient, ne_eq, not_false_eq_true,
          and_self, if_true, Except.map] at loop
        cases loop
        simp [blankTail, blank]

/-- The only line with content is the header, and it has no line ending. -/
def HeaderIsTail (content : List Char) : Prop :=
  policy.header = .required ∧ ∃ numbered, numberedLines 1 (lines content) = [numbered] ∧
    unterminatedTailLine content = some numbered.1

/-- Without a tail only the header codec can report the tail's code. -/
theorem decodeLines_quiet (quiet : ¬ ReportsTailCode json headerCodec policy (numberedLines 1 physicalLines))
    (success : decodeLines json headerCodec recordCodec policy physicalLines none = .ok snapshot) :
    ∀ diagnostic ∈ snapshot.diagnostics, diagnostic.code ≠ "partial_journal_tail" := by
  obtain ⟨part, result, header, loop, rfl⟩ :=
    decodeLines_ok json headerCodec recordCodec policy success
  intro diagnostic member
  simp only [blankTail, List.append_nil, List.mem_append] at member
  rcases member with member | member
  · rcases decodeHeaderPart_cases json headerCodec policy header with
      ⟨_, rfl⟩ | ⟨_, _, _, _, _, _, split, _, codes⟩
    · cases member
    · rw [split] at member
      exact codes quiet diagnostic member
  · rw [decodeRecords_codes json recordCodec policy loop diagnostic member]
    decide

theorem find_partialTail_eq_none {diagnostics : List JournalDiagnostic}
    (codes : ∀ diagnostic ∈ diagnostics, diagnostic.code ≠ "partial_journal_tail") :
    (diagnostics.find? fun diagnostic => diagnostic.code = "partial_journal_tail") = none := by
  simpa [List.find?_eq_none] using codes

variable {mode : ReadMode} {validateSnapshot : JsonlSnapshot H R → Option JournalError}
  {content' : List Char}

/-- What `load_jsonl` does to the file once the text is decoded. -/
theorem loadJsonl_ok (repairs : policy.partialTail = .repair)
    (success : loadJsonl json headerCodec recordCodec policy mode validateSnapshot content =
      .ok (snapshot, content')) :
    decodeJsonl json headerCodec recordCodec policy content = .ok snapshot ∧
      match snapshot.diagnostics.find? fun diagnostic => diagnostic.code = "partial_journal_tail" with
      | none => content' = content
      | some diagnostic => ∃ offset,
          lineStartOffset (readText mode content) diagnostic.lineNumber = some offset ∧
            content' = (readText mode content).take offset := by
  unfold loadJsonl at success
  rw [decodeJsonl_readText] at success
  cases decoded : decodeJsonl json headerCodec recordCodec policy content with
  | error error =>
    rw [decoded] at success
    cases success
  | ok loaded =>
    rw [decoded] at success
    simp only [repairs, if_true] at success
    cases verdict : validateSnapshot loaded with
    | some error =>
      rw [verdict] at success
      cases success
    | none =>
      rw [verdict] at success
      cases reported : loaded.diagnostics.find? fun diagnostic =>
          diagnostic.code = "partial_journal_tail" with
      | none =>
        rw [reported] at success
        cases success
        refine ⟨rfl, ?_⟩
        rw [reported]
      | some diagnostic =>
        rw [reported] at success
        simp only at success
        cases start : lineStartOffset (readText mode content) diagnostic.lineNumber with
        | none =>
          rw [start] at success
          cases success
        | some offset =>
          rw [start] at success
          cases success
          refine ⟨rfl, ?_⟩
          rw [reported]
          exact ⟨offset, start, rfl⟩

/-- Cutting at the start of a line leaves the lines before it. -/
theorem take_lineStart {index offset : Nat} (inside : index < (lines content).length)
    (start : lineStartOffset (readText mode content) (index + 1) = some offset) :
    Closed ((readText mode content).take offset) ∧
      lines ((readText mode content).take offset) = (lines content).take index := by
  rw [← lines_readText mode content] at inside ⊢
  obtain ⟨front, back, place⟩ := exists_lineStart inside
  rw [lineStartOffset_eq place] at start
  cases start
  have cut : (readText mode content).take front.length = front := by
    rw [place.split, List.take_left']
    rfl
  rw [cut]
  exact ⟨place.closed, place.before⟩

/-- The last line of an open text, and what is before it. -/
theorem lines_of_open (opened : ¬ Closed content) :
    ∃ front last, content = front ++ last ∧ Closed front ∧
      (∀ c ∈ last, isEnding c = false) ∧ lines content = lines front ++ [last] := by
  obtain ⟨front, last, rfl, closed, nonempty, unbroken⟩ := exists_open_line opened
  refine ⟨front, last, rfl, closed, unbroken, ?_⟩
  have apart : Apart front last := by
    intro _ next
    obtain ⟨more, rfl⟩ := List.head?_eq_some_iff.mp next
    have kind := unbroken '\n' List.mem_cons_self
    cases kind
  rw [lines_append closed apart, lines_of_unbroken nonempty unbroken]

/-- The tail is repaired to a record boundary, unless the header is in the way. -/
theorem repair_closed (repairs : policy.partialTail = .repair)
    (success : loadJsonl json headerCodec recordCodec policy mode validateSnapshot content =
      .ok (snapshot, content'))
    (quiet : ¬ ReportsTailCode json headerCodec policy (numberedLines 1 (lines content)))
    (recordTail : ¬ HeaderIsTail policy content) :
    Closed content' ∧ ∃ before,
      decodeLines json headerCodec recordCodec policy (lines content') none = .ok before ∧
        before.contents = snapshot.contents := by
  obtain ⟨decoded, file⟩ := loadJsonl_ok json headerCodec recordCodec policy repairs success
  by_cases closed : Closed content
  · rw [decodeJsonl_of_closed json headerCodec recordCodec policy closed] at decoded
    have codes := decodeLines_quiet json headerCodec recordCodec policy quiet decoded
    rw [find_partialTail_eq_none codes] at file
    subst file
    exact ⟨closed, snapshot, decoded, rfl⟩
  · rw [decodeJsonl_of_open json headerCodec recordCodec policy closed] at decoded
    obtain ⟨front, last, _, _, _, split⟩ := lines_of_open closed
    have length : (lines content).length = (lines front).length + 1 := by simp [split]
    have first : policy.header = .required → numberedLines 1 (lines front) ≠ [] := by
      intro required empty
      have whole := numberedLines_append 1 (lines front) [last]
      rw [← split, empty, List.nil_append] at whole
      cases blank : isBlank last with
      | true =>
        have nothing : numberedLines 1 (lines content) = [] := by
          rw [whole]
          simp [numberedLines, blank]
        obtain ⟨_, _, header, _⟩ := decodeLines_ok json headerCodec recordCodec policy decoded
        rw [nothing, decodeHeaderPart, required] at header
        cases header
      | false =>
        refine recordTail ⟨required, (1 + (lines front).length, last), ?_, ?_⟩
        · rw [whole]
          simp [numberedLines, blank]
        · rw [unterminatedTailLine_of_open closed, length, Nat.add_comm]
    rw [length, split] at decoded
    have lenient : policy.partialTail ≠ .raise := by
      rw [repairs]
      decide
    obtain ⟨before, message, beforeOk, rfl⟩ :=
      decodeLines_tail json headerCodec recordCodec policy lenient first decoded
    have quietFront : ¬ ReportsTailCode json headerCodec policy (numberedLines 1 (lines front)) := by
      intro reports
      apply quiet
      rw [split, numberedLines_append]
      exact reports.append _
    have codes := decodeLines_quiet json headerCodec recordCodec policy quietFront beforeOk
    rw [List.find?_append, find_partialTail_eq_none codes] at file
    obtain ⟨offset, start, rfl⟩ := file
    obtain ⟨cutClosed, cutLines⟩ := take_lineStart (by omega) start
    refine ⟨cutClosed, before, ?_, rfl⟩
    rw [cutLines, split, List.take_left]
    exact beforeOk

variable {newline : Newline}

/-- From a record boundary every appended record comes back. -/
theorem strictContents_append (closed : Closed content)
    (loaded : decodeLines json headerCodec recordCodec policy (lines content) none = .ok snapshot)
    (records : List R) :
    strictContents json headerCodec recordCodec policy mode
        (appendJsonlRecords json recordCodec newline content records) =
      .ok (snapshot.header, snapshot.records ++ records) := by
  have oneLines : ∀ text ∈ records.map (dumpRecord json recordCodec), OneLine text := by
    intro text member
    obtain ⟨record, _, rfl⟩ := List.mem_map.mp member
    exact oneLine_dumpRecord json recordCodec record
  rw [strictContents_eq, appendJsonlRecords_eq,
    decodeJsonl_of_closed json headerCodec recordCodec policy.strict
      (closed_append_terminated newline closed _),
    lines_append_terminated newline closed oneLines]
  exact decodeLines_extend json headerCodec recordCodec policy loaded records

variable {contents : Option H × List R}

/-- With a required header there are fewer records than lines with content. -/
theorem strictContents_length (closed : Closed content) (required : policy.header = .required)
    (success : strictContents json headerCodec recordCodec policy mode content = .ok contents) :
    contents.2.length + 1 ≤ ((lines content).filter fun line => !isBlank line).length := by
  rw [strictContents_eq,
    decodeJsonl_of_closed json headerCodec recordCodec policy.strict closed] at success
  cases decoded : decodeLines json headerCodec recordCodec policy.strict (lines content) none with
  | error error =>
    rw [decoded] at success
    cases success
  | ok snapshot =>
    rw [decoded] at success
    cases success
    exact decodeLines_length json headerCodec recordCodec policy.strict required decoded

/-- A header that reports the tail's code is cut off with everything after it. -/
theorem cut_of_reports (repairs : policy.partialTail = .repair)
    (success : loadJsonl json headerCodec recordCodec policy mode validateSnapshot content =
      .ok (snapshot, content'))
    (reports : ReportsTailCode json headerCodec policy (numberedLines 1 (lines content))) :
    Closed content' ∧ ∀ line ∈ lines content', isBlank line = true := by
  obtain ⟨decoded, file⟩ := loadJsonl_ok json headerCodec recordCodec policy repairs success
  obtain ⟨part, result, header, _, rfl⟩ := decodeLines_ok json headerCodec recordCodec policy decoded
  rw [splitJsonlPhysicalLines_eq] at header
  rcases decodeHeaderPart_cases json headerCodec policy header with
    ⟨absent, _⟩ | ⟨_, _, lineNumber, line, diagnostics, numbered, split, reported, _⟩
  · rw [reports.1] at absent
    cases absent
  · obtain ⟨message, rfl⟩ := reported reports
    obtain ⟨front, back, place, rfl, blanks⟩ := numberedLines_eq_cons numbered
    rw [show part.2.2 = _ from congrArg (fun part => part.2.2) split] at file
    obtain ⟨offset, start, rfl⟩ : ∃ offset,
        lineStartOffset (readText mode content) (1 + front.length) = some offset ∧
          content' = (readText mode content).take offset := file
    rw [Nat.add_comm] at start
    have inside : front.length < (lines content).length := by
      rw [place, List.length_append, List.length_cons]
      omega
    obtain ⟨cutClosed, cutLines⟩ := take_lineStart inside start
    refine ⟨cutClosed, ?_⟩
    rw [cutLines, place, List.take_left]
    exact blanks

/-- The open line of a header that is the tail. -/
theorem HeaderIsTail.openLine (headerTail : HeaderIsTail policy content) :
    ∃ front last, content = front ++ last ∧ Closed front ∧ lines content = lines front ++ [last] ∧
      (∀ c ∈ last, isEnding c = false) ∧ isBlank last = false ∧
      ∀ line ∈ lines front, isBlank line = true := by
  obtain ⟨_, ⟨lineNumber, line⟩, numbered, tail⟩ := headerTail
  have opened : ¬ Closed content := by
    intro closed
    rw [unterminatedTailLine_of_closed closed] at tail
    cases tail
  obtain ⟨front, last, place, frontClosed, unbroken, split⟩ := lines_of_open opened
  rw [unterminatedTailLine_of_open opened, split, List.length_append, List.length_singleton] at tail
  obtain rfl : (lines front).length + 1 = lineNumber := Option.some.inj tail
  have whole := numberedLines_append 1 (lines front) [last]
  rw [← split, numbered] at whole
  have visible : isBlank last = false := by
    rw [← Bool.not_eq_true]
    intro blank
    have nothing : numberedLines (1 + (lines front).length) [last] = [] := by
      simp [numberedLines, blank]
    rw [nothing, List.append_nil] at whole
    have member : ((lines front).length + 1, line) ∈ numberedLines 1 (lines front) := by
      rw [← whole]
      exact List.mem_singleton.mpr rfl
    obtain ⟨_, inside⟩ := mem_numberedLines member
    omega
  have blanks : numberedLines 1 (lines front) = [] := by
    have one : numberedLines (1 + (lines front).length) [last] =
        [(1 + (lines front).length, last)] := by
      simp [numberedLines, visible]
    have lengths := congrArg List.length whole
    rw [one, List.length_append, List.length_singleton, List.length_singleton] at lengths
    exact List.length_eq_zero_iff.mp (by omega)
  exact ⟨front, last, place, frontClosed, split, unbroken, visible, numberedLines_eq_nil.mp blanks⟩

/-- Nothing is left for the records when the header is the tail. -/
theorem HeaderIsTail.decoded (headerTail : HeaderIsTail policy content)
    (success : decodeJsonl json headerCodec recordCodec policy content = .ok snapshot) :
    decodeHeaderPart json headerCodec policy (numberedLines 1 (lines content)) =
        .ok (snapshot.header, [], snapshot.diagnostics) ∧ snapshot.records = [] := by
  obtain ⟨front, last, _, _, split, _, visible, _⟩ := headerTail.openLine
  obtain ⟨required, _, numbered, tail⟩ := headerTail
  obtain ⟨part, result, header, loop, rfl⟩ := decodeLines_ok json headerCodec recordCodec policy success
  rw [splitJsonlPhysicalLines_eq] at header
  rcases decodeHeaderPart_cases json headerCodec policy header with
    ⟨absent, _⟩ | ⟨_, _, _, _, _, taken, _⟩
  · rw [required] at absent
    cases absent
  · obtain ⟨header', rest, diagnostics⟩ := part
    rw [numbered] at taken
    obtain rfl : [] = rest := (List.cons.inj taken).2
    cases loop
    have noBlankTail : blankTail policy (splitJsonlPhysicalLines content)
        (unterminatedTailLine content) = [] := by
      rw [tail, splitJsonlPhysicalLines_eq, split]
      simp [blankTail, visible]
    rw [noBlankTail]
    simpa using header

/-- A header without a line ending is kept as it is. -/
theorem HeaderIsTail.kept (headerTail : HeaderIsTail policy content) (repairs : policy.partialTail = .repair)
    (success : loadJsonl json headerCodec recordCodec policy mode validateSnapshot content =
      .ok (snapshot, content'))
    (quiet : ¬ ReportsTailCode json headerCodec policy (numberedLines 1 (lines content))) :
    content' = content := by
  obtain ⟨decoded, file⟩ := loadJsonl_ok json headerCodec recordCodec policy repairs success
  obtain ⟨header, _⟩ := headerTail.decoded json headerCodec recordCodec policy decoded
  have codes : ∀ diagnostic ∈ snapshot.diagnostics, diagnostic.code ≠ "partial_journal_tail" := by
    rcases decodeHeaderPart_cases json headerCodec policy header with
      ⟨_, split⟩ | ⟨_, _, _, _, reported, _, split, _, codes⟩
    · have diagnostics : snapshot.diagnostics = [] := congrArg (fun part => part.2.2) split
      simp [diagnostics]
    · have diagnostics : snapshot.diagnostics = reported := congrArg (fun part => part.2.2) split
      rw [diagnostics]
      exact codes quiet
  rw [find_partialTail_eq_none codes] at file
  exact file

/-- On a header that is the tail, the first appended record continues the header's line. -/
theorem HeaderIsTail.merged (headerTail : HeaderIsTail policy content) (record : R) (others : List R)
    (success : strictContents json headerCodec recordCodec policy mode
      (appendJsonlRecords json recordCodec newline content (record :: others)) = .ok contents) :
    contents.2.length ≤ others.length := by
  obtain ⟨front, last, rfl, closed, _, unbroken, visible, blanks⟩ := headerTail.openLine
  have merged : appendJsonlRecords json recordCodec newline (front ++ last) (record :: others) =
      front ++ terminated newline ((last ++ dumpRecord json recordCodec record) ::
        others.map (dumpRecord json recordCodec)) := by
    rw [appendJsonlRecords_eq]
    simp [terminated]
  have oneLines : ∀ text ∈ (last ++ dumpRecord json recordCodec record) ::
      others.map (dumpRecord json recordCodec), OneLine text := by
    intro text member
    rcases List.mem_cons.mp member with rfl | member
    · obtain ⟨nonempty, dumped⟩ := oneLine_dumpRecord json recordCodec record
      refine ⟨by simp [nonempty], ?_⟩
      intro c present
      exact (List.mem_append.mp present).elim (unbroken c) (dumped c)
    · obtain ⟨other, _, rfl⟩ := List.mem_map.mp member
      exact oneLine_dumpRecord json recordCodec other
  rw [merged] at success
  have shorter := strictContents_length json headerCodec recordCodec policy
    (closed_append_terminated newline closed _) headerTail.1 success
  rw [lines_append_terminated newline closed oneLines, List.filter_append,
    List.filter_eq_nil_iff.mpr (by simpa using blanks), List.nil_append] at shorter
  have bound := List.length_filter_le (fun line => !isBlank line)
    ((last ++ dumpRecord json recordCodec record) :: others.map (dumpRecord json recordCodec))
  rw [List.length_cons, List.length_map] at bound
  omega

/-- `appendJsonlRecords` is safe after a repairing load exactly when the header is not
the unterminated line (an empty batch is always safe) and is not reported as one. -/
theorem appendJsonlRecords_loads (repairs : policy.partialTail = .repair)
    (success : loadJsonl json headerCodec recordCodec policy mode validateSnapshot content =
      .ok (snapshot, content')) (records : List R) :
    strictContents json headerCodec recordCodec policy mode
        (appendJsonlRecords json recordCodec newline content' records) =
      .ok (snapshot.header, snapshot.records ++ records) ↔
    ¬ ReportsTailCode json headerCodec policy (numberedLines 1 (lines content)) ∧
      (records = [] ∨ ¬ HeaderIsTail policy content) := by
  constructor
  · intro loads
    have quiet : ¬ ReportsTailCode json headerCodec policy (numberedLines 1 (lines content)) := by
      intro reports
      obtain ⟨closed, blanks⟩ :=
        cut_of_reports json headerCodec recordCodec policy repairs success reports
      have oneLines : ∀ text ∈ records.map (dumpRecord json recordCodec), OneLine text := by
        intro text member
        obtain ⟨record, _, rfl⟩ := List.mem_map.mp member
        exact oneLine_dumpRecord json recordCodec record
      rw [appendJsonlRecords_eq] at loads
      have shorter := strictContents_length json headerCodec recordCodec policy
        (closed_append_terminated newline closed _) reports.1 loads
      rw [lines_append_terminated newline closed oneLines, List.filter_append,
        List.filter_eq_nil_iff.mpr (by simpa using blanks), List.nil_append,
        List.length_append] at shorter
      have bound := List.length_filter_le (fun line => !isBlank line)
        (records.map (dumpRecord json recordCodec))
      rw [List.length_map] at bound
      omega
    refine ⟨quiet, ?_⟩
    cases records with
    | nil => exact Or.inl rfl
    | cons record others =>
      refine Or.inr fun headerTail => ?_
      rw [headerTail.kept json headerCodec recordCodec policy repairs success quiet] at loads
      have shorter := headerTail.merged json headerCodec recordCodec policy record others loads
      rw [List.length_append, List.length_cons] at shorter
      omega
  · rintro ⟨quiet, safe⟩
    by_cases headerTail : HeaderIsTail policy content
    · obtain rfl : records = [] := safe.resolve_right fun other => other headerTail
      obtain ⟨decoded, _⟩ := loadJsonl_ok json headerCodec recordCodec policy repairs success
      obtain ⟨header, noRecords⟩ := headerTail.decoded json headerCodec recordCodec policy decoded
      rw [headerTail.kept json headerCodec recordCodec policy repairs success quiet, noRecords,
        strictContents_eq, decodeJsonl, decodeLines, splitJsonlPhysicalLines_eq,
        decodeHeaderPart_strict]
      simp only [appendJsonlRecords, if_true]
      rw [header]
      rfl
    · obtain ⟨closed, before, loaded, same⟩ := repair_closed json headerCodec recordCodec policy
        repairs success quiet headerTail
      rw [strictContents_append json headerCodec recordCodec policy closed loaded]
      have header : before.header = snapshot.header := congrArg Prod.fst same
      have kept : before.records = snapshot.records := congrArg Prod.snd same
      rw [header, kept]

/-- The two appends after a repairing load. -/
theorem repair_append_loads {mode : ReadMode} {newline : Newline}
    {validateSnapshot : JsonlSnapshot H R → Option JournalError}
    {content content' : List Char} {snapshot : JsonlSnapshot H R}
    (repairs : policy.partialTail = .repair)
    (success : loadJsonl json headerCodec recordCodec policy mode validateSnapshot content =
      .ok (snapshot, content')) :
    (∀ record : R,
      strictContents json headerCodec recordCodec policy mode
          (appendJsonlRecord json recordCodec newline content' record) =
        .ok (snapshot.header, snapshot.records ++ [record]) ↔
      ¬ ReportsTailCode json headerCodec policy (numberedLines 1 (lines content)) ∧
        ¬ HeaderIsTail policy content) ∧
    ∀ records : List R,
      strictContents json headerCodec recordCodec policy mode
          (appendJsonlRecords json recordCodec newline content' records) =
        .ok (snapshot.header, snapshot.records ++ records) ↔
      ¬ ReportsTailCode json headerCodec policy (numberedLines 1 (lines content)) ∧
        (records = [] ∨ ¬ HeaderIsTail policy content) := by
  constructor
  · intro record
    rw [appendJsonlRecord_eq,
      appendJsonlRecords_loads json headerCodec recordCodec policy repairs success [record]]
    simp
  · exact appendJsonlRecords_loads json headerCodec recordCodec policy repairs success

end

/-! ## A journal of flags -/

/-- Two objects, one empty and one with a member. -/
def flagText : JsonText Bool where
  dumps flag := (if flag then "\x7b\"on\":1\x7d" else "\x7b\x7d").toList
  loads text :=
    if text = "\x7b\x7d".toList then .ok false
    else if text = "\x7b\"on\":1\x7d".toList then .ok true
    else .error .json
  loads_dumps := by decide
  dumps_unbroken := by
    have unbroken : ∀ flag : Bool, ((if flag then "\x7b\"on\":1\x7d" else "\x7b\x7d").toList.all
        fun c => !isEnding c) = true := by decide
    intro flag c member
    simpa using List.all_eq_true.mp (unbroken flag) c member
  dumps_not_blank := by decide

def flagCodec : JournalRecordCodec Bool Bool := ⟨id, .ok, fun _ => rfl⟩

def flagHeader : JournalHeaderCodec Bool Bool := ⟨.ok⟩

def flagPolicy : JournalLoadPolicy := ⟨.required, .raise, .raise, .repair⟩

/-- A torn record is cut off, and the next one is read after the one before it. -/
theorem repair_append_loads_flags :
    strictContents flagText (some flagHeader) flagCodec flagPolicy .rooted
        (appendJsonlRecord flagText flagCodec .lf "\x7b\x7d\r\n\x7b\"on\":1\x7d\n".toList false) =
      .ok (some false, [true, false]) := by
  have loaded : loadJsonl flagText (some flagHeader) flagCodec flagPolicy .rooted (fun _ => none)
      "\x7b\x7d\r\n\x7b\"on\":1\x7d\n\x7b\"o".toList =
        .ok (⟨some false, [true], [⟨"partial_journal_tail", skippedRecordMessage, 3⟩]⟩,
          "\x7b\x7d\r\n\x7b\"on\":1\x7d\n".toList) := by
    rfl
  refine ((repair_append_loads flagText (some flagHeader) flagCodec flagPolicy rfl loaded).1 false).mpr
    ⟨?_, ?_⟩
  · rintro ⟨_, ⟨⟩, _⟩
  · rintro ⟨_, _, one, _⟩
    have lengths : 3 = 1 := congrArg List.length one
    exact absurd lengths (by decide)

/-- The header is the unterminated line: nothing is repaired, and the append joins it. -/
theorem repair_append_joins_header :
    loadJsonl flagText (some flagHeader) flagCodec flagPolicy .rooted (fun _ => none) "\x7b\x7d".toList =
        .ok (⟨some false, [], []⟩, "\x7b\x7d".toList) ∧
      strictContents flagText (some flagHeader) flagCodec flagPolicy .rooted
          (appendJsonlRecord flagText flagCodec .lf "\x7b\x7d".toList true) =
        .error (.file "Journal header is not valid JSON" "invalid_header_json" (some 1)) := by
  constructor <;> rfl

end Loushang.Journal
