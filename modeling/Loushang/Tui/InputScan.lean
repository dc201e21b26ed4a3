import Loushang.Tui.InputReader

/-!
# The reader's scan

How the reader cuts a buffer into sequences and pastes, apart from the events they become:
`feed` is a scan that decides where every sequence and every paste ends, and a decoding of what
it found that may raise. The split is the reader's loop with the events left out.
-/
namespace Loushang.Tui
open Loushang.Lib

/-- What a scan finds; the start of a paste makes the reader forget a pending code point. -/
inductive Token where
  | sequence (text : Text)
  | pasteStart
  | paste (payload : Text)
  deriving DecidableEq

/-- The fields of a reader that decide how text is cut. -/
structure Scan where
  buffer : Text := []
  pasteBuffer : Text := []
  inPaste : Bool := false
  deriving DecidableEq

def InputReader.scan (r : InputReader) : Scan := ⟨r.buffer, r.pasteBuffer, r.inPaste⟩

def Scan.reader (s : Scan) (pending : Option Nat) : InputReader :=
  ⟨s.buffer, s.pasteBuffer, s.inPaste, pending⟩

@[simp] theorem InputReader.scan_reader (r : InputReader) : r.scan.reader r.pending = r := rfl

@[simp] theorem Scan.reader_scan (s : Scan) (pending : Option Nat) : (s.reader pending).scan = s := rfl

/-- The loop of `_feed_events` without events. -/
def scanLoop (chars : Characters) : Nat → Scan → List Token × Scan
  | 0, s => ([], s)
  | fuel + 1, s =>
    if s.buffer = [] then ([], s)
    else if s.inPaste then
      match findSub bracketedPasteEnd s.buffer with
      | none =>
        let (payload, pendingEndMarker) := splitPastePayload s.buffer
        ([], { s with
          pasteBuffer := s.pasteBuffer ++ payload
          buffer := pendingEndMarker })
      | some endIndex =>
        let (tokens, last) :=
          scanLoop chars fuel { buffer := s.buffer.drop (endIndex + bracketedPasteEnd.length) }
        (.paste (s.pasteBuffer ++ s.buffer.take endIndex) :: tokens, last)
    else
      let pasteStart := findSub bracketedPasteStart s.buffer
      if pasteStart = some 0 then
        let (tokens, last) :=
          scanLoop chars fuel
            { buffer := s.buffer.drop bracketedPasteStart.length, inPaste := true }
        (.pasteStart :: tokens, last)
      else
        let parseSource := s.buffer.take (pasteStart.getD s.buffer.length)
        let (sequences, remainder) := extractCompleteSequences chars parseSource
        match pasteStart with
        | none => (sequences.map .sequence, { s with buffer := remainder })
        | some start =>
          let s := { s with buffer := remainder ++ s.buffer.drop start }
          if remainder ≠ [] then (sequences.map .sequence, s)
          else
            let (tokens, last) := scanLoop chars fuel s
            (sequences.map .sequence ++ tokens, last)

/-- A scan until the buffer is used up or has to wait. -/
def Scan.run (chars : Characters) (s : Scan) : List Token × Scan :=
  scanLoop chars (s.buffer.length + 1) s

section Turns
variable {chars : Characters} {fuel : Nat} {s : Scan}

theorem scanLoop_empty (chars : Characters) (fuel : Nat) (empty : s.buffer = []) :
    scanLoop chars fuel s = ([], s) := by
  cases fuel with
  | zero => rfl
  | succ fuel => rw [scanLoop, if_pos empty]

theorem scanLoop_waiting (nonempty : s.buffer ≠ []) (inside : s.inPaste = true)
    (ended : findSub bracketedPasteEnd s.buffer = none) :
    scanLoop chars (fuel + 1) s =
      ([], { s with
        pasteBuffer := s.pasteBuffer ++ (splitPastePayload s.buffer).1
        buffer := (splitPastePayload s.buffer).2 }) := by
  rw [scanLoop, if_neg nonempty, if_pos inside, ended]

theorem scanLoop_pasted (nonempty : s.buffer ≠ []) (inside : s.inPaste = true) {endIndex : Nat}
    (ended : findSub bracketedPasteEnd s.buffer = some endIndex) :
    scanLoop chars (fuel + 1) s =
      (.paste (s.pasteBuffer ++ s.buffer.take endIndex) ::
          (scanLoop chars fuel { buffer := s.buffer.drop (endIndex + bracketedPasteEnd.length) }).1,
        (scanLoop chars fuel { buffer := s.buffer.drop (endIndex + bracketedPasteEnd.length) }).2) := by
  rw [scanLoop, if_neg nonempty, if_pos inside, ended]

theorem scanLoop_start (nonempty : s.buffer ≠ []) (outside : s.inPaste = false)
    (front : findSub bracketedPasteStart s.buffer = some 0) :
    scanLoop chars (fuel + 1) s =
      (.pasteStart :: (scanLoop chars fuel
          { buffer := s.buffer.drop bracketedPasteStart.length, inPaste := true }).1,
        (scanLoop chars fuel
          { buffer := s.buffer.drop bracketedPasteStart.length, inPaste := true }).2) := by
  rw [scanLoop, if_neg nonempty, if_neg (Bool.eq_false_iff.mp outside)]
  rw [if_pos front]

theorem scanLoop_plain (nonempty : s.buffer ≠ []) (outside : s.inPaste = false)
    (absent : findSub bracketedPasteStart s.buffer = none) :
    scanLoop chars (fuel + 1) s =
      ((extractCompleteSequences chars s.buffer).1.map .sequence,
        { s with buffer := (extractCompleteSequences chars s.buffer).2 }) := by
  rw [scanLoop, if_neg nonempty, if_neg (Bool.eq_false_iff.mp outside)]
  rw [absent, if_neg (by simp), Option.getD_none, List.take_length]

theorem scanLoop_stuck (nonempty : s.buffer ≠ []) (outside : s.inPaste = false) {start : Nat}
    (found : findSub bracketedPasteStart s.buffer = some start) (later : start ≠ 0)
    (stuck : (extractCompleteSequences chars (s.buffer.take start)).2 ≠ []) :
    scanLoop chars (fuel + 1) s =
      ((extractCompleteSequences chars (s.buffer.take start)).1.map .sequence,
        { s with
          buffer := (extractCompleteSequences chars (s.buffer.take start)).2 ++ s.buffer.drop start }) := by
  rw [scanLoop, if_neg nonempty, if_neg (Bool.eq_false_iff.mp outside)]
  rw [found, if_neg (by simpa using later)]
  dsimp only [Option.getD_some]
  rw [if_pos stuck]

theorem scanLoop_before (nonempty : s.buffer ≠ []) (outside : s.inPaste = false) {start : Nat}
    (found : findSub bracketedPasteStart s.buffer = some start) (later : start ≠ 0)
    (clear : (extractCompleteSequences chars (s.buffer.take start)).2 = []) :
    scanLoop chars (fuel + 1) s =
      ((extractCompleteSequences chars (s.buffer.take start)).1.map .sequence ++
          (scanLoop chars fuel { s with buffer := s.buffer.drop start }).1,
        (scanLoop chars fuel { s with buffer := s.buffer.drop start }).2) := by
  rw [scanLoop, if_neg nonempty, if_neg (Bool.eq_false_iff.mp outside)]
  rw [found, if_neg (by simpa using later)]
  dsimp only [Option.getD_some]
  rw [if_neg (not_not.mpr clear), clear, List.nil_append]

end Turns

/-- The events of what a scan found, with the pending code point at the end. -/
def decodeTokens (env : Surroundings) (pending : Option Nat) :
    List Token → Except Raised (List InputEvent) × Option Nat
  | [] => (.ok [], pending)
  | .sequence sequence :: rest =>
    match eventFromSequence env pending sequence with
    | .error raised => (.error raised, pending)
    | .ok (event, next) =>
      let (outcome, last) := decodeTokens env next rest
      (outcome.map fun events => event.toList ++ events, last)
  | .pasteStart :: rest => decodeTokens env none rest
  | .paste payload :: rest =>
    match sanitizePasteText env.chars payload with
    | .error raised => (.error raised, pending)
    | .ok text =>
      let (outcome, last) := decodeTokens env none rest
      (outcome.map fun events => pasteEvent text :: events, last)

variable {env : Surroundings}

theorem decodeTokens_sequences (pending : Option Nat) (sequences : List Text) :
    decodeTokens env pending (sequences.map .sequence) = eventsFromSequences env pending sequences := by
  induction sequences generalizing pending with
  | nil => rfl
  | cons sequence rest ih =>
    rw [List.map_cons, decodeTokens, eventsFromSequences]
    cases eventFromSequence env pending sequence with
    | error raised => rfl
    | ok decoded =>
      dsimp only
      rw [ih]

variable {pending : Option Nat} {front : List Token}

/-- Decoding goes on behind a first part that was decoded. -/
theorem decodeTokens_append {between : Option Nat} {events : List InputEvent}
    (decoded : decodeTokens env pending front = (.ok events, between)) (back : List Token) :
    decodeTokens env pending (front ++ back) =
      ((decodeTokens env between back).1.map (events ++ ·), (decodeTokens env between back).2) := by
  induction front generalizing pending events with
  | nil =>
    cases decoded
    rw [List.nil_append]
    cases after : decodeTokens env between back with
    | mk outcome last => cases outcome <;> rfl
  | cons token rest ih =>
    cases token with
    | sequence text =>
      rw [decodeTokens] at decoded
      rw [List.cons_append, decodeTokens]
      cases one : eventFromSequence env pending text with
      | error raised =>
        rw [one] at decoded
        cases decoded
      | ok result =>
        rw [one] at decoded
        dsimp only at decoded ⊢
        cases later : decodeTokens env result.2 rest with
        | mk outcome last =>
          rw [later] at decoded
          cases outcome with
          | error raised => cases decoded
          | ok new =>
            cases decoded
            rw [ih later]
            cases (decodeTokens env last back).1 with
            | error raised => rfl
            | ok more => simp [Except.map]
    | pasteStart => exact ih decoded
    | paste payload =>
      rw [decodeTokens] at decoded
      rw [List.cons_append, decodeTokens]
      cases clean : sanitizePasteText env.chars payload with
      | error raised =>
        rw [clean] at decoded
        cases decoded
      | ok text =>
        rw [clean] at decoded
        dsimp only at decoded ⊢
        cases later : decodeTokens env none rest with
        | mk outcome last =>
          rw [later] at decoded
          cases outcome with
          | error raised => cases decoded
          | ok new =>
            cases decoded
            rw [ih later]
            cases (decodeTokens env last back).1 with
            | error raised => rfl
            | ok more => simp [Except.map]

theorem decodeTokens_append_error {raised : Raised}
    (failed : (decodeTokens env pending front).1 = .error raised) (back : List Token) :
    (decodeTokens env pending (front ++ back)).1 = .error raised := by
  induction front generalizing pending with
  | nil => cases failed
  | cons token rest ih =>
    cases token with
    | sequence text =>
      rw [decodeTokens] at failed
      rw [List.cons_append, decodeTokens]
      cases one : eventFromSequence env pending text with
      | error first =>
        rw [one] at failed
        exact failed
      | ok result =>
        rw [one] at failed
        dsimp only at failed ⊢
        cases later : (decodeTokens env result.2 rest).1 with
        | ok events =>
          rw [later] at failed
          cases failed
        | error first =>
          rw [later] at failed
          cases failed
          rw [ih later]
          rfl
    | pasteStart => exact ih failed
    | paste payload =>
      rw [decodeTokens] at failed
      rw [List.cons_append, decodeTokens]
      cases clean : sanitizePasteText env.chars payload with
      | error first =>
        rw [clean] at failed
        exact failed
      | ok text =>
        rw [clean] at failed
        dsimp only at failed ⊢
        cases later : (decodeTokens env none rest).1 with
        | ok events =>
          rw [later] at failed
          cases failed
        | error first =>
          rw [later] at failed
          cases failed
          rw [ih later]
          rfl

/-- What a loop answers, told by the decoding of what its scan finds: the events, or the exception
the decoding raises. -/
def Answers (events : List InputEvent) (decoded : Except Raised (List InputEvent) × Option Nat)
    (last : Scan) (answer : Except Raised (List InputEvent) × InputReader) : Prop :=
  (∀ new pending, decoded = (.ok new, pending) → answer = (.ok (events ++ new), last.reader pending)) ∧
    ∀ raised, decoded.1 = .error raised → answer.1 = .error raised

theorem Answers.nothing (events : List InputEvent) (s : Scan) (pending : Option Nat) :
    Answers events (.ok [], pending) s (.ok events, s.reader pending) := by
  refine ⟨?_, ?_⟩
  · intro new after same
    cases same
    rw [List.append_nil]
  · intro raised failed
    cases failed

theorem Answers.after {events new : List InputEvent} {last : Scan}
    {decoded : Except Raised (List InputEvent) × Option Nat}
    {answer : Except Raised (List InputEvent) × InputReader}
    (rest : Answers (events ++ new) decoded last answer) :
    Answers events (decoded.1.map (new ++ ·), decoded.2) last answer := by
  obtain ⟨outcome, pending⟩ := decoded
  obtain ⟨good, bad⟩ := rest
  cases outcome with
  | error first =>
    refine ⟨?_, bad⟩
    intro more final same
    cases same
  | ok more =>
    refine ⟨?_, ?_⟩
    · intro all final same
      cases same
      rw [good more pending rfl, List.append_assoc]
    · intro raised failed
      cases failed

theorem Answers.raised {events : List InputEvent} {last : Scan} {raised : Raised}
    {decoded : Except Raised (List InputEvent) × Option Nat} (failed : decoded.1 = .error raised)
    (r : InputReader) : Answers events decoded last (.error raised, r) := by
  refine ⟨?_, ?_⟩
  · intro new after same
    rw [same] at failed
    cases failed
  · intro other same
    rw [failed] at same
    exact same

theorem feedLoop_scan (fuel : Nat) (r : InputReader) (events : List InputEvent) :
    Answers events (decodeTokens env r.pending (scanLoop env.chars fuel r.scan).1)
      (scanLoop env.chars fuel r.scan).2 (feedLoop env fuel r events) := by
  induction fuel generalizing r events with
  | zero => exact Answers.nothing events r.scan r.pending
  | succ fuel ih =>
    rw [feedLoop]
    by_cases empty : r.buffer = []
    · rw [if_pos empty, @scanLoop_empty r.scan env.chars _ empty]
      exact Answers.nothing events r.scan r.pending
    rw [if_neg empty]
    by_cases inside : r.inPaste = true
    · rw [if_pos inside]
      cases ended : findSub bracketedPasteEnd r.buffer with
      | none =>
        rw [@scanLoop_waiting env.chars fuel r.scan empty inside ended]
        exact Answers.nothing events _ r.pending
      | some endIndex =>
        rw [@scanLoop_pasted env.chars fuel r.scan empty inside endIndex ended, decodeTokens]
        dsimp only [InputReader.scan]
        cases clean : sanitizePasteText env.chars (r.pasteBuffer ++ r.buffer.take endIndex) with
        | error first => exact Answers.raised rfl _
        | ok text =>
          exact @Answers.after _ [pasteEvent text] _ _ _ (ih { buffer := r.buffer.drop (endIndex + bracketedPasteEnd.length) } _)
    · rw [if_neg inside]
      have outside : r.inPaste = false := Bool.eq_false_iff.mpr inside
      by_cases front : findSub bracketedPasteStart r.buffer = some 0
      · rw [if_pos front, @scanLoop_start env.chars fuel r.scan empty outside front]
        exact ih { buffer := r.buffer.drop bracketedPasteStart.length, inPaste := true } events
      rw [if_neg front]
      cases found : findSub bracketedPasteStart r.buffer with
      | none =>
        rw [@scanLoop_plain env.chars fuel r.scan empty outside found, decodeTokens_sequences]
        dsimp only [InputReader.scan]
        rw [Option.getD_none, List.take_length]
        cases decoded : eventsFromSequences env r.pending
          (extractCompleteSequences env.chars r.buffer).1 with
        | mk outcome between =>
          cases outcome with
          | error first => exact Answers.raised rfl _
          | ok new =>
            refine ⟨?_, ?_⟩
            · intro other pending same
              cases same
              rfl
            · intro raised failed
              cases failed
      | some start =>
        have later : start ≠ 0 := by
          intro zero
          rw [found, zero] at front
          exact front rfl
        dsimp only [Option.getD_some]
        have decodes := @decodeTokens_sequences env r.pending
          (extractCompleteSequences env.chars (r.buffer.take start)).1
        by_cases stuck : (extractCompleteSequences env.chars (r.buffer.take start)).2 ≠ []
        · rw [@scanLoop_stuck env.chars fuel r.scan empty outside start found later stuck]
          dsimp only [InputReader.scan]
          rw [decodes]
          cases eventsFromSequences env r.pending
            (extractCompleteSequences env.chars (r.buffer.take start)).1 with
          | mk outcome between =>
            cases outcome with
            | error first => exact Answers.raised rfl _
            | ok new =>
              dsimp only
              rw [if_pos stuck]
              refine ⟨?_, ?_⟩
              · intro other pending same
                cases same
                rfl
              · intro raised failed
                cases failed
        · have clear := not_not.mp stuck
          rw [@scanLoop_before env.chars fuel r.scan empty outside start found later clear]
          dsimp only [InputReader.scan]
          cases decoded : eventsFromSequences env r.pending
            (extractCompleteSequences env.chars (r.buffer.take start)).1 with
          | mk outcome between =>
            rw [decoded] at decodes
            cases outcome with
            | error first =>
              exact Answers.raised (decodeTokens_append_error (congrArg Prod.fst decodes) _) _
            | ok new =>
              dsimp only
              rw [if_neg stuck, decodeTokens_append decodes, clear, List.nil_append]
              exact Answers.after (ih ⟨r.buffer.drop start, r.pasteBuffer, r.inPaste, between⟩ _)

/-- `feed`, told by its scan. -/
theorem feed_scan (data : Text) (r : InputReader) :
    Answers [] (decodeTokens env r.pending (Scan.run env.chars ⟨r.buffer ++ data, r.pasteBuffer, r.inPaste⟩).1)
      (Scan.run env.chars ⟨r.buffer ++ data, r.pasteBuffer, r.inPaste⟩).2
      (feedLoop env ((r.buffer ++ data).length + 1) { r with buffer := r.buffer ++ data } []) :=
  feedLoop_scan _ { r with buffer := r.buffer ++ data } []

end Loushang.Tui
