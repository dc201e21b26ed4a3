import Loushang.Journal.Jsonl

/-!
# Decoding line by line

The framing functions in terms of `lines`, and what the record loop, the header part
and `_decode_jsonl` make of lines appended to other lines.
-/
namespace Loushang.Journal
open Loushang.Lib

/-! ## Framing -/

theorem splitJsonlPhysicalLines_eq (raw : List Char) : splitJsonlPhysicalLines raw = lines raw := by
  unfold splitJsonlPhysicalLines
  split
  · next empty =>
    rw [empty]
    rfl
  · next nonempty =>
    have pieces : (if '\r' ∈ raw then splitEndings raw else raw.splitOn '\n') = splitEndings raw := by
      split
      · rfl
      · next noCr => exact splitOn_eq_splitEndings noCr
    simp only [pieces]
    split
    · next ends =>
      rw [(splitEndings_eq raw).1 (Or.inr ends), List.dropLast_concat]
    · next opened =>
      refine (splitEndings_eq raw).2 ?_
      rintro (empty | ends)
      · exact nonempty empty
      · exact opened ends

variable {raw : List Char}

theorem unterminatedTailLine_of_closed (closed : Closed raw) : unterminatedTailLine raw = none := by
  unfold unterminatedTailLine
  rw [if_neg]
  rintro ⟨nonempty, opened⟩
  rcases closed with empty | ends
  · exact nonempty empty
  · rw [hasTrailingNewline, ends] at opened
    cases opened

theorem unterminatedTailLine_of_open (opened : ¬ Closed raw) :
    unterminatedTailLine raw = some (lines raw).length := by
  unfold unterminatedTailLine
  rw [if_pos, splitJsonlPhysicalLines_eq]
  refine ⟨fun empty => opened (Or.inl empty), ?_⟩
  exact Bool.eq_false_iff.mpr fun ends => opened (Or.inr ends)

/-- The start of a line, as the source computes it. -/
theorem lineStartOffset_eq {front back : List Char} {index : Nat} (start : LineStart raw index front back) :
    lineStartOffset raw (index + 1) = some front.length := by
  have nonempty : raw ≠ [] := by
    rw [start.split]
    simp [start.nonempty]
  unfold lineStartOffset
  cases index with
  | zero =>
    rw [start.first rfl]
    simp [nonempty]
  | succ index =>
    have offset := start.offset (Nat.succ_pos index) 0
    have inside : front.length < raw.length := by
      have := List.length_pos_of_ne_nil start.nonempty
      rw [start.split, List.length_append]
      omega
    simp only [Nat.add_sub_cancel, Nat.zero_add] at offset
    simp [offset, inside]

theorem lines_readText (mode : ReadMode) (content : List Char) :
    lines (readText mode content) = lines content := by
  cases mode with
  | rooted => rfl
  | path => exact lines_universalNewlines content

theorem closed_readText (mode : ReadMode) (content : List Char) :
    Closed (readText mode content) ↔ Closed content := by
  cases mode with
  | rooted => exact Iff.rfl
  | path => simp [readText, Closed, universalNewlines_eq_nil, endsLine_universalNewlines]

/-- The text layer's translation does not change what is framed. -/
theorem decodeJsonl_readText {V H R : Type} (json : JsonText V)
    (headerCodec : Option (JournalHeaderCodec V H)) (recordCodec : JournalRecordCodec V R)
    (policy : JournalLoadPolicy) (mode : ReadMode) (content : List Char) :
    decodeJsonl json headerCodec recordCodec policy (readText mode content) =
      decodeJsonl json headerCodec recordCodec policy content := by
  have tails : unterminatedTailLine (readText mode content) = unterminatedTailLine content := by
    by_cases closed : Closed content
    · rw [unterminatedTailLine_of_closed closed,
        unterminatedTailLine_of_closed ((closed_readText mode content).mpr closed)]
    · rw [unterminatedTailLine_of_open closed,
        unterminatedTailLine_of_open (mt (closed_readText mode content).mp closed), lines_readText]
  rw [decodeJsonl, decodeJsonl, tails, splitJsonlPhysicalLines_eq, splitJsonlPhysicalLines_eq,
    lines_readText]

/-! ## Numbered lines -/

theorem numberedLines_append (first : Nat) (front back : List (List Char)) :
    numberedLines first (front ++ back) =
      numberedLines first front ++ numberedLines (first + front.length) back := by
  simp [numberedLines, List.zipIdx_append]

variable {first lineNumber : Nat} {line : List Char} {physicalLines : List (List Char)}

theorem mem_numberedLines (member : (lineNumber, line) ∈ numberedLines first physicalLines) :
    first ≤ lineNumber ∧ lineNumber < first + physicalLines.length := by
  simp only [numberedLines, List.mem_filter, List.mem_map, Prod.exists, Prod.swap_prod_mk,
    Prod.mk.injEq] at member
  obtain ⟨⟨_, _, found, rfl, rfl⟩, _⟩ := member
  obtain ⟨lower, upper, _⟩ := List.mem_zipIdx found
  omega

/-- Which lines are numbered does not depend on the numbers. -/
theorem map_snd_numberedLines (first : Nat) (physicalLines : List (List Char)) :
    (numberedLines first physicalLines).map Prod.snd =
      physicalLines.filter fun line => !isBlank line := by
  induction physicalLines generalizing first with
  | nil => rfl
  | cons line rest ih =>
    have split := numberedLines_append first [line] rest
    rw [List.singleton_append] at split
    rw [split, List.map_append, ih, List.filter_cons]
    cases blank : isBlank line <;> simp [numberedLines, blank]

theorem length_numberedLines (first : Nat) (physicalLines : List (List Char)) :
    (numberedLines first physicalLines).length =
      (physicalLines.filter fun line => !isBlank line).length := by
  rw [← map_snd_numberedLines first, List.length_map]

theorem numberedLines_eq_nil :
    numberedLines first physicalLines = [] ↔ ∀ line ∈ physicalLines, isBlank line = true := by
  rw [← List.length_eq_zero_iff, length_numberedLines, List.length_eq_zero_iff]
  simp

/-- The first numbered line, and the blank lines before it. -/
theorem numberedLines_eq_cons {rest : List (Nat × List Char)}
    (numbered : numberedLines first physicalLines = (lineNumber, line) :: rest) :
    ∃ front back, physicalLines = front ++ line :: back ∧ lineNumber = first + front.length ∧
      ∀ text ∈ front, isBlank text = true := by
  induction physicalLines generalizing first with
  | nil => cases numbered
  | cons text more ih =>
    have split := numberedLines_append first [text] more
    rw [List.singleton_append] at split
    rw [split] at numbered
    cases blank : isBlank text with
    | true =>
      have nothing : numberedLines first [text] = [] := by simp [numberedLines, blank]
      rw [nothing] at numbered
      obtain ⟨front, back, rfl, rfl, blanks⟩ := ih numbered
      refine ⟨text :: front, back, rfl, ?_, ?_⟩
      · simp only [List.length_cons, List.length_nil]
        omega
      · exact List.forall_mem_cons.mpr ⟨blank, blanks⟩
    | false =>
      have one : numberedLines first [text] = [(first, text)] := by simp [numberedLines, blank]
      rw [one] at numbered
      cases numbered
      exact ⟨[], more, rfl, rfl, by simp⟩

/-! ## The record loop -/

section

variable {V H R : Type} (json : JsonText V) (headerCodec : Option (JournalHeaderCodec V H))
  (recordCodec : JournalRecordCodec V R) (policy : JournalLoadPolicy)

theorem decodeRecords_append (tail : Option Nat) (front back : List (Nat × List Char)) :
    decodeRecords json recordCodec policy tail (front ++ back) =
      match decodeRecords json recordCodec policy tail front with
      | .error error => .error error
      | .ok first => (decodeRecords json recordCodec policy tail back).map fun second =>
          (first.1 ++ second.1, first.2 ++ second.2) := by
  induction front with
  | nil => cases h : decodeRecords json recordCodec policy tail back <;> simp [decodeRecords, h, Except.map]
  | cons numbered rest ih =>
    obtain ⟨lineNumber, line⟩ := numbered
    rw [List.cons_append, decodeRecords, decodeRecords, ih]
    cases decodeRecordEntry json recordCodec policy (tail = some lineNumber) lineNumber line with
    | error error => rfl
    | ok entry =>
      cases decodeRecords json recordCodec policy tail rest with
      | error error => rfl
      | ok first =>
        cases decodeRecords json recordCodec policy tail back with
        | error error => rfl
        | ok second => cases entry <;> rfl

variable {policy' : JournalLoadPolicy}

/-- Away from the tail only `invalidRecord` matters. -/
theorem decodeRecordEntry_of_no_tail (same : policy'.invalidRecord = policy.invalidRecord) (lineNumber : Nat)
    (line : List Char) :
    decodeRecordEntry json recordCodec policy false lineNumber line =
      decodeRecordEntry json recordCodec policy' false lineNumber line := by
  simp [decodeRecordEntry, same]

variable {tail : Option Nat} {numbered : List (Nat × List Char)}

theorem decodeRecords_of_no_tail (same : policy'.invalidRecord = policy.invalidRecord)
    (elsewhere : ∀ numbered' ∈ numbered, tail ≠ some numbered'.1) :
    decodeRecords json recordCodec policy tail numbered =
      decodeRecords json recordCodec policy' none numbered := by
  induction numbered with
  | nil => rfl
  | cons numbered rest ih =>
    obtain ⟨lineNumber, line⟩ := numbered
    have away : tail ≠ some lineNumber := elsewhere _ List.mem_cons_self
    have later := ih fun numbered member => elsewhere numbered (List.mem_cons_of_mem _ member)
    rw [decodeRecords, decodeRecords, later]
    simp only [away, reduceCtorEq, decide_false]
    rw [decodeRecordEntry_of_no_tail json recordCodec policy same]

/-- Dumped records load as themselves. -/
theorem decodeRecords_dumped {numbered : List (Nat × List Char)} {records : List R}
    (dumped : numbered.map Prod.snd = records.map (dumpRecord json recordCodec)) :
    decodeRecords json recordCodec policy none numbered = .ok (records, []) := by
  induction numbered generalizing records with
  | nil =>
    obtain rfl : records = [] := by simpa using dumped.symm
    rfl
  | cons numbered rest ih =>
    obtain ⟨lineNumber, line⟩ := numbered
    cases records with
    | nil => cases dumped
    | cons record others =>
      simp only [List.map_cons, List.cons.injEq] at dumped
      obtain ⟨rfl, more⟩ := dumped
      simp [decodeRecords, decodeRecordEntry, ih more, decodeRecordLine, loadMapping, dumpRecord,
        json.loads_dumps, recordCodec.decode_encode, Except.map]

variable {lineNumber : Nat} {line : List Char}

/-- What one line of the loop can come to. -/
theorem decodeRecordEntry_cases {isPartialTail : Bool} {entry : R ⊕ JournalDiagnostic}
    (success : decodeRecordEntry json recordCodec policy isPartialTail lineNumber line = .ok entry) :
    (∃ record, entry = .inl record) ∨
      entry = .inr ⟨if isPartialTail then "partial_journal_tail" else "invalid_journal_record",
        skippedRecordMessage, lineNumber⟩ := by
  unfold decodeRecordEntry at success
  split at success
  · next skipped =>
    cases success
    exact Or.inr (by rw [if_pos skipped.1])
  · split at success
    · next record _ =>
      cases success
      exact Or.inl ⟨record, rfl⟩
    · next fault _ =>
      by_cases raised : (if isPartialTail then decide (policy.partialTail = .raise)
          else decide (policy.invalidRecord = .raise)) = true
      · rw [if_pos raised] at success
        cases fault <;> cases success
      · rw [if_neg raised] at success
        cases success
        exact Or.inr rfl

variable {result : List R × List JournalDiagnostic}

/-- A line of the loop, once the whole loop succeeds. -/
theorem decodeRecords_cons {rest : List (Nat × List Char)}
    (success : decodeRecords json recordCodec policy tail ((lineNumber, line) :: rest) = .ok result) :
    ∃ later, decodeRecords json recordCodec policy tail rest = .ok later ∧
      ((∃ record, result = (record :: later.1, later.2)) ∨
        result = (later.1, ⟨if tail = some lineNumber then "partial_journal_tail"
          else "invalid_journal_record", skippedRecordMessage, lineNumber⟩ :: later.2)) := by
  rw [decodeRecords] at success
  cases read : decodeRecordEntry json recordCodec policy (tail = some lineNumber) lineNumber line with
  | error error =>
    rw [read] at success
    cases success
  | ok entry =>
    rw [read] at success
    cases more : decodeRecords json recordCodec policy tail rest with
    | error error =>
      rw [more] at success
      cases success
    | ok later =>
      rw [more] at success
      refine ⟨later, rfl, ?_⟩
      rcases decodeRecordEntry_cases json recordCodec policy read with ⟨record, rfl⟩ | rfl
      · cases success
        exact Or.inl ⟨record, rfl⟩
      · cases success
        simp

/-- What a skipped line is reported as, away from the tail. -/
theorem decodeRecords_codes (success : decodeRecords json recordCodec policy none numbered = .ok result) :
    ∀ diagnostic ∈ result.2, diagnostic.code = "invalid_journal_record" := by
  induction numbered generalizing result with
  | nil =>
    cases success
    simp
  | cons numbered rest ih =>
    obtain ⟨lineNumber, line⟩ := numbered
    obtain ⟨later, more, ⟨record, rfl⟩ | rfl⟩ := decodeRecords_cons json recordCodec policy success
    · have codes := ih more
      exact codes
    · intro diagnostic member
      rcases List.mem_cons.mp member with rfl | member
      · rfl
      · exact ih more diagnostic member

/-- Every loaded record has a line of its own. -/
theorem decodeRecords_length (success : decodeRecords json recordCodec policy tail numbered = .ok result) :
    result.1.length ≤ numbered.length := by
  induction numbered generalizing result with
  | nil =>
    cases success
    exact Nat.le_refl 0
  | cons numbered rest ih =>
    obtain ⟨lineNumber, line⟩ := numbered
    obtain ⟨later, more, ⟨record, rfl⟩ | rfl⟩ := decodeRecords_cons json recordCodec policy success
    · have shorter := ih more
      exact Nat.succ_le_succ shorter
    · have shorter := ih more
      exact Nat.le_succ_of_le shorter

/-! ## The header part -/

theorem decodeHeaderPart_strict (numbered : List (Nat × List Char)) :
    decodeHeaderPart json headerCodec policy.strict numbered =
      decodeHeaderPart json headerCodec policy numbered := rfl

/-- The header is on the first line: later lines are left for the records. -/
theorem decodeHeaderPart_append {front : List (Nat × List Char)} (back : List (Nat × List Char))
    (first : policy.header = .required → front ≠ []) :
    decodeHeaderPart json headerCodec policy (front ++ back) =
      (decodeHeaderPart json headerCodec policy front).map fun part =>
        (part.1, part.2.1 ++ back, part.2.2) := by
  unfold decodeHeaderPart
  cases required : policy.header with
  | absent => rfl
  | required =>
    cases front with
    | nil => exact absurd rfl (first required)
    | cons numbered rest =>
      obtain ⟨lineNumber, line⟩ := numbered
      cases headerCodec with
      | none => rfl
      | some codec =>
        simp only [List.cons_append]
        cases decodeHeaderLine json codec line with
        | ok header => rfl
        | error fault =>
          cases fault with
          | file message code =>
            by_cases raised : policy.invalidHeader = .raise <;> simp [raised, Except.map]
          | other code =>
            by_cases raised : policy.invalidHeader = .raise <;> simp [raised, Except.map]

/-- The header's decoder fails with the code of a partial tail. -/
def ReportsTailCode (numbered : List (Nat × List Char)) : Prop :=
  policy.header = .required ∧ policy.invalidHeader = .skip ∧
    ∃ lineNumber line rest codec, numbered = (lineNumber, line) :: rest ∧ headerCodec = some codec ∧
      decodeHeaderLine json codec line = .error (.other (some "partial_journal_tail"))

variable {json headerCodec policy} in
theorem ReportsTailCode.append {front : List (Nat × List Char)}
    (reports : ReportsTailCode json headerCodec policy front) (back : List (Nat × List Char)) :
    ReportsTailCode json headerCodec policy (front ++ back) := by
  obtain ⟨required, skips, lineNumber, line, rest, codec, rfl, someCodec, fails⟩ := reports
  exact ⟨required, skips, lineNumber, line, rest ++ back, codec, rfl, someCodec, fails⟩

/-- What a header part that succeeds has done. -/
theorem decodeHeaderPart_cases {part : Option H × List (Nat × List Char) × List JournalDiagnostic}
    (success : decodeHeaderPart json headerCodec policy numbered = .ok part) :
    (policy.header = .absent ∧ part = (none, numbered, [])) ∨
      (policy.header = .required ∧ ∃ header lineNumber line diagnostics,
        numbered = (lineNumber, line) :: part.2.1 ∧ part = (header, part.2.1, diagnostics) ∧
        (ReportsTailCode json headerCodec policy numbered → ∃ message,
          diagnostics = [⟨"partial_journal_tail", message, lineNumber⟩]) ∧
        (¬ ReportsTailCode json headerCodec policy numbered →
          ∀ diagnostic ∈ diagnostics, diagnostic.code ≠ "partial_journal_tail")) := by
  unfold decodeHeaderPart at success
  cases required : policy.header with
  | absent =>
    rw [required] at success
    cases success
    exact Or.inl ⟨rfl, rfl⟩
  | required =>
    rw [required] at success
    refine Or.inr ⟨rfl, ?_⟩
    cases numbered with
    | nil => cases success
    | cons numbered rest =>
      obtain ⟨lineNumber, line⟩ := numbered
      cases headerCodec with
      | none => cases success
      | some codec =>
        simp only at success
        cases read : decodeHeaderLine json codec line with
        | ok header =>
          rw [read] at success
          cases success
          refine ⟨some header, lineNumber, line, [], rfl, rfl, ?_, by simp⟩
          rintro ⟨_, _, _, _, _, _, same, ⟨⟩, reports⟩
          cases same
          rw [read] at reports
          cases reports
        | error fault =>
          rw [read] at success
          by_cases raised : policy.invalidHeader = .raise
          · cases fault <;> simp [raised] at success
          · have skips : policy.invalidHeader = .skip := by
              cases behavior : policy.invalidHeader with
              | raise => exact absurd behavior raised
              | skip => rfl
            cases fault with
            | file message code =>
              simp only [if_neg raised] at success
              cases success
              refine ⟨none, lineNumber, line, _, rfl, rfl, ?_, by simp⟩
              rintro ⟨_, _, _, _, _, _, same, ⟨⟩, reports⟩
              cases same
              rw [read] at reports
              cases reports
            | other code =>
              simp only [if_neg raised] at success
              cases success
              refine ⟨none, lineNumber, line, _, rfl, rfl, ?_, ?_⟩
              · rintro ⟨_, _, _, _, _, _, same, ⟨⟩, reports⟩
                cases same
                rw [read] at reports
                cases reports
                exact ⟨_, rfl⟩
              · intro quiet diagnostic member
                obtain rfl := List.mem_singleton.mp member
                intro tailCode
                refine quiet ⟨required, skips, _, _, _, _, rfl, rfl, ?_⟩
                rw [read]
                cases code with
                | none =>
                  have same : "invalid_header" = "partial_journal_tail" := tailCode
                  exact absurd same (by decide)
                | some code =>
                  obtain rfl : code = "partial_journal_tail" := tailCode
                  rfl

end

end Loushang.Journal
