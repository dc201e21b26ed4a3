import Loushang.Lib.Splice
import Loushang.Tui.InputKeys

/-!
# The input reader

`InputReader` of `tui/input.py`: how the text a terminal sends is cut into sequences and
bracketed pastes, and the events they give. A call that raises leaves the fields as they
were at the time. Events are compared in all their fields; resize and signal events are made
outside the reader.
-/
namespace Loushang.Tui
open Loushang.Lib

def esc : CodePoint := 0x1b

/-- `BRACKETED_PASTE_START`, `ESC [ 2 0 0 ~`. -/
def bracketedPasteStart : Text := [0x1b, 0x5b, 0x32, 0x30, 0x30, 0x7e]

/-- `BRACKETED_PASTE_END`, `ESC [ 2 0 1 ~`. -/
def bracketedPasteEnd : Text := [0x1b, 0x5b, 0x32, 0x30, 0x31, 0x7e]

inductive EventKind where
  | key
  | text
  | paste
  | focus
  | mouse
  | signal
  deriving DecidableEq

structure InputEvent where
  kind : EventKind
  text : Text := []
  key : Text := []
  signal : Text := []
  raw : Text := []
  eventType : KeyEventType := .press
  focused : Option Bool := none
  mouse : Option MouseReport := none
  deriving DecidableEq

/-! ## Sequences -/

inductive Status where
  | complete
  | incomplete
  | notEscape
  deriving DecidableEq

/-- `_ALT_WRAPPED_LEGACY_KEY_SEQUENCES`: `ESC ESC`, `[` or `O`, and an arrow's letter. -/
def altWrappedLegacyKeySequences : List (Text × Text) :=
  [([0x1b, 0x1b, 0x5b, 0x41], textOf "alt+up"), ([0x1b, 0x1b, 0x4f, 0x41], textOf "alt+up"),
    ([0x1b, 0x1b, 0x5b, 0x42], textOf "alt+down"), ([0x1b, 0x1b, 0x4f, 0x42], textOf "alt+down"),
    ([0x1b, 0x1b, 0x5b, 0x43], textOf "alt+right"), ([0x1b, 0x1b, 0x4f, 0x43], textOf "alt+right"),
    ([0x1b, 0x1b, 0x5b, 0x44], textOf "alt+left"), ([0x1b, 0x1b, 0x4f, 0x44], textOf "alt+left")]

/-- `_matching_alt_wrapped_legacy_sequence`; the sequences are equally long. -/
def matchingAltWrappedLegacySequence (data : Text) : Option Text :=
  (altWrappedLegacyKeySequences.map Prod.fst).find? fun sequence => sequence.isPrefixOf data

/-- `_complete_alt_wrapped_legacy_status`. -/
def completeAltWrappedLegacyStatus (data : Text) : Status :=
  if !([esc, esc] : Text).isPrefixOf data then .notEscape
  else if (matchingAltWrappedLegacySequence data).isSome then .complete
  else if (altWrappedLegacyKeySequences.map Prod.fst).any fun sequence => data.isPrefixOf sequence then
    .incomplete
  else .notEscape

/-- `_complete_csi_status`. -/
def completeCsiStatus (chars : Characters) (data : Text) : Status :=
  match data.drop 2 with
  | [] => .incomplete
  | first :: rest =>
    if first = 0x4d then if 6 ≤ data.length then .complete else .incomplete
    else
      let last := (first :: rest).getLastD 0
      if 0x40 ≤ last.val ∧ last.val ≤ 0x7e then
        if first = 0x3c ∧ matchSgrMouse chars (first :: rest) = none then .incomplete
        else .complete
      else .incomplete

/-- `_complete_escape_status`. -/
def completeEscapeStatus (chars : Characters) (data : Text) : Status :=
  match data with
  | [] => .notEscape
  | point :: afterEsc =>
    if point ≠ esc then .notEscape
    else
      match afterEsc with
      | [] => .incomplete
      | 0x5b :: _ => completeCsiStatus chars data
      | 0x5d :: _ =>
        if endsWith bell data || endsWith stringTerminator data then .complete else .incomplete
      | 0x50 :: _ | 0x5f :: _ =>
        if endsWith stringTerminator data then .complete else .incomplete
      | 0x4f :: rest => if rest = [] then .incomplete else .complete
      | _ :: _ => .complete

/-- `_starts_escape_tail`, of the character behind a sequence. -/
def startsEscapeTail (behind : Text) : Bool :=
  match behind with
  | [] => false
  | point :: _ => ([0x5b, 0x5d, 0x4f, 0x50, 0x5f] : Text).contains point

/-- Where the sequence at the start of an escape ends: the first prefix that is not
incomplete. -/
def sequenceEnd (chars : Characters) (remaining : Text) : Option Nat :=
  (List.range' 1 remaining.length).find? fun stop =>
    completeEscapeStatus chars (remaining.take stop) != .incomplete

/-- One turn of `_extract_complete_sequences`: the sequence a text starts with and the text
behind it, none where it is not complete. -/
def nextSequence (chars : Characters) (remaining : Text) : Option (Text × Text) :=
  match remaining with
  | [] => none
  | point :: rest =>
    if point ≠ esc then some ([point], rest)
    else
      match completeAltWrappedLegacyStatus remaining with
      | .complete =>
        (matchingAltWrappedLegacySequence remaining).map fun sequence =>
          (sequence, remaining.drop sequence.length)
      | .incomplete => none
      | .notEscape =>
        (sequenceEnd chars remaining).map fun stop =>
          if remaining.take stop = [esc, esc] ∧ startsEscapeTail (remaining.drop stop) = true then
            ([esc], rest)
          else (remaining.take stop, remaining.drop stop)

/-- The loop of `_extract_complete_sequences`; every sequence takes a character. -/
def extractFrom (chars : Characters) : Nat → Text → List Text × Text
  | 0, remaining => ([], remaining)
  | fuel + 1, remaining =>
    match nextSequence chars remaining with
    | none => ([], remaining)
    | some (sequence, behind) =>
      let (sequences, remainder) := extractFrom chars fuel behind
      (sequence :: sequences, remainder)

def extractCompleteSequences (chars : Characters) (buffer : Text) : List Text × Text :=
  extractFrom chars buffer.length buffer

/-! ## Events -/

/-- What a reader asks its surroundings: characters, and `_is_windows_terminal_session`. -/
structure Surroundings where
  chars : Characters
  windowsTerminal : Bool

/-- `_event_from_sequence`, with the pending Kitty code point before and after. -/
def eventFromSequence (env : Surroundings) (pending : Option Nat) (sequence : Text) :
    Except Raised (Option InputEvent × Option Nat) := do
  match sequence with
  | [] => return (none, pending)
  | [point] =>
    if point = esc then
      return (some { kind := .key, key := textOf "escape", raw := sequence }, none)
    else if pending = some point.val then return (none, none)
    else
      match controlKeyMap.lookup sequence with
      | some key =>
        let key := if point = 0x08 && env.windowsTerminal then textOf "ctrl+backspace" else key
        return (some { kind := .key, key := key, raw := sequence }, none)
      | none => return (some { kind := .text, text := sequence }, none)
  | _ =>
    if let some focus := parseFocusSequence sequence then
      return (some { kind := .focus, focused := some focus, raw := sequence }, none)
    else if let some key := altWrappedLegacyKeySequences.lookup sequence then
      return (some { kind := .key, key := key, raw := sequence }, none)
    else
      match ← parseMouseSequence env.chars sequence with
      | some report => return (some { kind := .mouse, mouse := some report, raw := sequence }, none)
      | none =>
        if let some response := parseKittyProtocolResponse env.chars sequence then
          return (some { kind := .signal, signal := textOf "kitty_protocol", text := response,
                         raw := sequence }, none)
        else if let some response := parseCellSizeResponse env.chars sequence then
          return (some { kind := .signal, signal := textOf "cell_size", text := response,
                         raw := sequence }, none)
        else if let some (signal, text) := parseTerminalControlResponse sequence then
          return (some { kind := .signal, signal := signal, text := text, raw := sequence }, none)
        else
          match ← parseKeySequence env.chars sequence with
          | some (key, type) =>
            match ← kittyPrintableText env.chars sequence with
            | some printable =>
              return (some { kind := .text, text := [printable], raw := sequence },
                some printable.val)
            | none =>
              return (some { kind := .key, key := key, raw := sequence, eventType := type }, none)
          | none =>
            if let some key := parseAltControlSequence sequence then
              return (some { kind := .key, key := key, raw := sequence }, none)
            else
              match sequence with
              | [0x1b, point] =>
                return (some { kind := .key, key := textOf "alt+" ++ [point], raw := sequence },
                  pending)
              | _ => return (some { kind := .text, text := sequence }, pending)

/-- `_events_from_sequences`, with the pending code point where it ends or raises. -/
def eventsFromSequences (env : Surroundings) (pending : Option Nat) :
    List Text → Except Raised (List InputEvent) × Option Nat
  | [] => (.ok [], pending)
  | sequence :: rest =>
    match eventFromSequence env pending sequence with
    | .error raised => (.error raised, pending)
    | .ok (event, next) =>
      let (outcome, last) := eventsFromSequences env next rest
      (outcome.map fun events => event.toList ++ events, last)

/-! ## Pastes -/

/-- `CSI_U_CTRL_LETTER_IN_PASTE_RE` at the start of a text. -/
def matchCtrlLetterInPaste (chars : Characters) (text : Text) : Option (Text × Text) := do
  let rest ← literal "\x1b[" text
  let (group, rest) ← digits chars rest
  let rest ← literal ";5u" rest
  return (group, rest)

/-- `_decode_csi_u_control_letters_in_paste`; every turn takes a character. -/
def decodeCtrlLetters (chars : Characters) : Nat → Text → Except Raised Text
  | 0, _ => return []
  | _ + 1, [] => return []
  | fuel + 1, point :: rest => do
    match matchCtrlLetterInPaste chars (point :: rest) with
    | none => return point :: (← decodeCtrlLetters chars fuel rest)
    | some (group, behind) =>
      let codepoint ← intOf chars group
      let replaced ←
        if 97 ≤ codepoint ∧ codepoint ≤ 122 then do pure [← chr (codepoint - 96)]
        else if 65 ≤ codepoint ∧ codepoint ≤ 90 then do pure [← chr (codepoint - 64)]
        else pure ((point :: rest).take (rest.length + 1 - behind.length))
      return replaced ++ (← decodeCtrlLetters chars fuel behind)

/-- `sanitize_paste_text`. -/
def sanitizePasteText (chars : Characters) (text : Text) : Except Raised Text := do
  let decoded ← decodeCtrlLetters chars text.length text
  return decoded.flatMap fun point =>
    if point = esc then textOf "^["
    else if point = 0x09 ∨ point = 0x0a ∨ point = 0x0d then [point]
    else if point.val < 32 then []
    else [point]

/-- `_split_paste_payload_and_pending_end_marker`. -/
def splitPastePayload (text : Text) : Text × Text :=
  let longest := min text.length (bracketedPasteEnd.length - 1)
  match (List.range' 1 longest).reverse.find? fun length =>
      (text.drop (text.length - length)).isPrefixOf bracketedPasteEnd with
  | some length => (text.take (text.length - length), text.drop (text.length - length))
  | none => (text, [])

/-! ## The reader -/

structure InputReader where
  buffer : Text := []
  pasteBuffer : Text := []
  inPaste : Bool := false
  pending : Option Nat := none

def textEvent (text raw : Text) : InputEvent := { kind := .text, text := text, raw := raw }

def pasteEvent (text : Text) : InputEvent := { kind := .paste, text := text }

/-- `_coalesce_text_events`, with the text and raw text gathered so far. -/
def coalesceFrom : Text → Text → List InputEvent → List InputEvent
  | text, raw, [] => if text = [] then [] else [textEvent text raw]
  | text, raw, event :: rest =>
    if event.kind = .text then coalesceFrom (text ++ event.text) (raw ++ event.raw) rest
    else if text = [] then event :: coalesceFrom text raw rest
    else textEvent text raw :: event :: coalesceFrom [] [] rest

def coalesceTextEvents (events : List InputEvent) : List InputEvent := coalesceFrom [] [] events

/-- The loop of `_feed_events`; all but its last turn take a marker off the buffer. -/
def feedLoop (env : Surroundings) :
    Nat → InputReader → List InputEvent → Except Raised (List InputEvent) × InputReader
  | 0, r, events => (.ok events, r)
  | fuel + 1, r, events =>
    if r.buffer = [] then (.ok events, r)
    else if r.inPaste then
      match findSub bracketedPasteEnd r.buffer with
      | none =>
        let (payload, pendingEndMarker) := splitPastePayload r.buffer
        (.ok events, { r with
          pasteBuffer := r.pasteBuffer ++ payload
          buffer := pendingEndMarker })
      | some endIndex =>
        let pasted := r.pasteBuffer ++ r.buffer.take endIndex
        match sanitizePasteText env.chars pasted with
        | .error raised => (.error raised, { r with pasteBuffer := pasted })
        | .ok text =>
          feedLoop env fuel
            { buffer := r.buffer.drop (endIndex + bracketedPasteEnd.length) }
            (events ++ [pasteEvent text])
    else
      let pasteStart := findSub bracketedPasteStart r.buffer
      if pasteStart = some 0 then
        feedLoop env fuel
          { buffer := r.buffer.drop bracketedPasteStart.length, inPaste := true } events
      else
        let parseSource := r.buffer.take (pasteStart.getD r.buffer.length)
        let (sequences, remainder) := extractCompleteSequences env.chars parseSource
        let (outcome, pending) := eventsFromSequences env r.pending sequences
        match outcome with
        | .error raised => (.error raised, { r with pending := pending })
        | .ok new =>
          let events := events ++ new
          match pasteStart with
          | none => (.ok events, { r with buffer := remainder, pending := pending })
          | some start =>
            let r := { r with buffer := remainder ++ r.buffer.drop start, pending := pending }
            if remainder ≠ [] then (.ok events, r) else feedLoop env fuel r events

/-- `feed`. -/
def InputReader.feed (env : Surroundings) (data : Text) (r : InputReader) :
    Except Raised (List InputEvent) × InputReader :=
  let buffer := r.buffer ++ data
  let (outcome, r) := feedLoop env (buffer.length + 1) { r with buffer := buffer } []
  (outcome.map coalesceTextEvents, r)

/-- `flush`. -/
def InputReader.flush (env : Surroundings) (r : InputReader) :
    Except Raised (List InputEvent) × InputReader :=
  if r.inPaste then (.ok [], r)
  else if r.buffer = [] then (.ok [], r)
  else
    let (outcome, pending) := eventsFromSequences env r.pending [r.buffer]
    (outcome.map coalesceTextEvents, { r with buffer := [], pending := pending })

end Loushang.Tui
