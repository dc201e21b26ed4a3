import Loushang.Tui.InputSafety

/-!
# Runs of the input reader

Any calls of `feed` and `flush` one after the other on a new reader, a call that raises included:
what the next call meets is what the last one left.
-/
namespace Loushang.Tui
open Loushang.Lib

/-! ## Pastes -/

/-- The groups of the control letters that `sanitize_paste_text` decodes. -/
def ctrlLetterGroups (chars : Characters) : Nat → Text → List Text
  | 0, _ => []
  | _ + 1, [] => []
  | fuel + 1, point :: rest =>
    match matchCtrlLetterInPaste chars (point :: rest) with
    | none => ctrlLetterGroups chars fuel rest
    | some (group, behind) => group :: ctrlLetterGroups chars fuel behind

def PasteFits (chars : Characters) (payload : Text) : Prop :=
  ∀ group ∈ ctrlLetterGroups chars payload.length payload, Short group

theorem returns_decodeCtrlLetters (chars : Characters) (fuel : Nat) (text : Text) :
    Returns (decodeCtrlLetters chars fuel text) ↔
      ∀ group ∈ ctrlLetterGroups chars fuel text, Short group := by
  induction fuel generalizing text with
  | zero => simp [decodeCtrlLetters, ctrlLetterGroups]
  | succ fuel ih =>
    cases text with
    | nil => simp [decodeCtrlLetters, ctrlLetterGroups]
    | cons point rest =>
      rw [decodeCtrlLetters, ctrlLetterGroups]
      cases matched : matchCtrlLetterInPaste chars (point :: rest) with
      | none => simp [ih]
      | some result =>
        obtain ⟨group, behind⟩ := result
        dsimp only
        rw [List.forall_mem_cons, ← ih behind]
        by_cases short : Short group
        · have letter : ∀ codepoint : Nat, codepoint < 0x110000 →
              ∃ point, chr codepoint = .ok point := by
            intro codepoint inside
            exact (returns_chr codepoint).mpr ⟨by omega, by omega⟩
          rw [intOf_short short, ok_bind]
          simp only [short, true_and]
          split
          · next small =>
            obtain ⟨point, same⟩ := (returns_chr ((groupValue chars group : Int) - 96)).mpr
              ⟨by omega, by omega⟩
            rw [same]
            simp
          split
          · next large =>
            obtain ⟨point, same⟩ := (returns_chr ((groupValue chars group : Int) - 64)).mpr
              ⟨by omega, by omega⟩
            rw [same]
            simp
          · simp
        · rw [intOf_long short]
          simp [short]

theorem returns_sanitize (chars : Characters) (payload : Text) :
    Returns (sanitizePasteText chars payload) ↔ PasteFits chars payload := by
  unfold sanitizePasteText PasteFits
  rw [← returns_decodeCtrlLetters]
  cases decodeCtrlLetters chars payload.length payload <;> simp

/-! ## Calls -/

def Token.Fits (chars : Characters) : Token → Prop
  | .sequence text => SequenceFits chars text
  | .pasteStart => True
  | .paste payload => PasteFits chars payload

theorem returns_decodeTokens (env : Surroundings) (pending : Option Nat) (tokens : List Token) :
    Returns (decodeTokens env pending tokens).1 ↔ ∀ token ∈ tokens, token.Fits env.chars := by
  induction tokens generalizing pending with
  | nil => simp [decodeTokens]
  | cons token rest ih =>
    rw [List.forall_mem_cons]
    cases token with
    | sequence sequence =>
      rw [decodeTokens]
      have one := returns_event env pending sequence
      cases decoded : eventFromSequence env pending sequence with
      | error raised =>
        rw [decoded] at one
        simp [Token.Fits, ← one]
      | ok result =>
        rw [decoded] at one
        simp [Token.Fits, ← one, ih]
    | pasteStart => simp [decodeTokens, Token.Fits, ih]
    | paste payload =>
      rw [decodeTokens]
      have one := returns_sanitize env.chars payload
      cases clean : sanitizePasteText env.chars payload with
      | error raised =>
        rw [clean] at one
        simp [Token.Fits, ← one]
      | ok text =>
        rw [clean] at one
        simp [Token.Fits, ← one, ih]

inductive Call where
  | feed (data : Text)
  | flush

def InputReader.call (env : Surroundings) (r : InputReader) :
    Call → Except Raised (List InputEvent) × InputReader
  | .feed data => r.feed env data
  | .flush => r.flush env

/-- A reader and its calls. -/
def readerMachine (env : Surroundings) : Machine InputReader Call (Except Raised (List InputEvent)) :=
  ⟨InputReader.call env⟩

/-- The call does not raise, and a flush outside a paste leaves an empty buffer. -/
def Unbroken (env : Surroundings) (r : InputReader) (call : Call) : Prop :=
  Returns (r.call env call).1 ∧ (call = .flush ∧ r.inPaste = false → (r.call env call).2.buffer = [])

/-- What the call decodes is in range: the sequences and the pastes that end in the buffer and the
new text, or the buffer that is flushed. -/
def CallFits (env : Surroundings) (r : InputReader) : Call → Prop
  | .feed data =>
    ∀ token ∈ (Scan.run env.chars ⟨r.buffer ++ data, r.pasteBuffer, r.inPaste⟩).1, token.Fits env.chars
  | .flush => r.inPaste = true ∨ r.buffer = [] ∨ SequenceFits env.chars r.buffer

theorem returns_feed (env : Surroundings) (r : InputReader) (data : Text) :
    Returns (r.feed env data).1 ↔ CallFits env r (.feed data) := by
  have told := @feed_scan env data r
  have decodes := returns_decodeTokens env r.pending
    (Scan.run env.chars ⟨r.buffer ++ data, r.pasteBuffer, r.inPaste⟩).1
  unfold InputReader.feed CallFits
  dsimp only
  rw [returns_map, ← decodes]
  constructor
  · intro ⟨events, same⟩
    cases decoded : (decodeTokens env r.pending
      (Scan.run env.chars ⟨r.buffer ++ data, r.pasteBuffer, r.inPaste⟩).1).1 with
    | ok new => exact returns_ok new
    | error raised =>
      rw [told.2 raised decoded] at same
      cases same
  · intro ⟨new, same⟩
    rw [told.1 new _ (Prod.ext same rfl)]
    exact returns_ok _

theorem returns_flush (env : Surroundings) (r : InputReader) :
    Returns (r.flush env).1 ↔ CallFits env r .flush := by
  unfold InputReader.flush CallFits
  by_cases inside : r.inPaste = true
  · simp [inside]
  by_cases empty : r.buffer = []
  · simp [empty]
  · have one := returns_event env r.pending r.buffer
    rw [if_neg inside, if_neg empty]
    simp only [inside, empty, false_or, ← one, returns_map, Bool.false_eq_true]
    rw [eventsFromSequences]
    cases eventFromSequence env r.pending r.buffer <;> simp [eventsFromSequences]

theorem flush_empties (env : Surroundings) {r : InputReader} (outside : r.inPaste = false) :
    (r.flush env).2.buffer = [] := by
  unfold InputReader.flush
  rw [outside, if_neg Bool.false_ne_true]
  split
  · next empty => exact empty
  · rfl

theorem unbroken_iff (env : Surroundings) (r : InputReader) (call : Call) :
    Unbroken env r call ↔ CallFits env r call := by
  unfold Unbroken
  cases call with
  | feed data =>
    rw [← returns_feed]
    constructor
    · intro unbroken
      exact unbroken.1
    · intro returned
      exact ⟨returned, fun flushed => by cases flushed.1⟩
  | flush =>
    rw [← returns_flush]
    constructor
    · intro unbroken
      exact unbroken.1
    · intro returned
      exact ⟨returned, fun flushed => flush_empties env flushed.2⟩

/-- No call of a run raises, and every flush outside a paste empties the buffer, exactly when every
call of the run decodes numbers that are in range. -/
theorem reader_unbroken_iff (env : Surroundings) (calls : List Call) :
    (readerMachine env).AllSteps (Unbroken env) {} calls ↔
      (readerMachine env).AllSteps (CallFits env) {} calls := by
  constructor
  · exact Machine.AllSteps.mono fun r call => (unbroken_iff env r call).mp
  · exact Machine.AllSteps.mono fun r call => (unbroken_iff env r call).mpr

/-- The characters of ASCII, away from Windows Terminal. -/
def asciiSurroundings : Surroundings where
  chars :=
    { digit := fun point => if 48 ≤ point.val ∧ point.val ≤ 57 then some (point.val - 48) else none
      lower := fun point =>
        if letter : 65 ≤ point.val ∧ point.val ≤ 90 then [⟨point.val + 32, by omega⟩] else [point] }
  windowsTerminal := false

/-- A key with a number above the last code point: its sequence stays in the buffer, and every later
call of `feed` raises as well. -/
theorem large_codepoint_breaks :
    ¬ (readerMachine asciiSurroundings).AllSteps (Unbroken asciiSurroundings) {}
        [.feed (textOf "\x1b[1114112u"), .feed (textOf "a")] ∧
      ((readerMachine asciiSurroundings).trace {}
          [.feed (textOf "\x1b[1114112u"), .feed (textOf "a")]).map (fun entry => entry.2.2.1) =
        [.error .notACodePoint, .error .notACodePoint] := by
  have raises : (InputReader.call asciiSurroundings {} (.feed (textOf "\x1b[1114112u"))).1 =
      .error .notACodePoint := by decide +kernel
  refine ⟨?_, by decide +kernel⟩
  intro unbroken
  have returned := unbroken.1.1
  rw [raises] at returned
  exact not_returns_error _ returned

end Loushang.Tui
