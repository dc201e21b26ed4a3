import Loushang.Lib.Folds
import Loushang.Lib.Text

/-!
# `shlex`

`shlex.split` in POSIX mode without comments, which is how the policy reads words, and
`shlex.quote` and `shlex.join`. A text is a list of code points.
-/
namespace Loushang.Policy
open Lib

abbrev Text := List CodePoint

def textOf (text : String) : Text := (PyStr.ofString text).points

namespace Shlex

def backslash : CodePoint := 0x5c
def singleQuote : CodePoint := 0x27
def doubleQuote : CodePoint := 0x22

/-- `self.whitespace`: a blank, tab, carriage return or line feed. -/
def whitespace (c : CodePoint) : Bool := c = 0x20 || c = 0x09 || c = 0x0d || c = 0x0a

def quotes (c : CodePoint) : Bool := c = singleQuote || c = doubleQuote

/-- `self.state`, with `escapedstate` where a backslash has just been read. -/
inductive Mode where
  | blank
  | word
  | quote (mark : CodePoint)
  | escape (back : Option CodePoint)

inductive LexError where
  | noClosingQuotation
  | noEscapedCharacter

/-- The state a backslash leads back to. -/
def resume : Option CodePoint → Mode
  | none => .word
  | some mark => .quote mark

/-- The character after a backslash; in quotes only the quote and the backslash lose it. -/
def escaped (back : Option CodePoint) (c : CodePoint) : Text :=
  match back with
  | none => [c]
  | some mark => if c ≠ backslash && c ≠ mark then [backslash, c] else [c]

/-- What `read_token` returns for the characters read so far; an empty token counts when quoted. -/
def emit (token : Text) (quoted : Bool) : List Text :=
  if token ≠ [] || quoted then [token] else []

/-- The tokens of the rest of an input. -/
def readTokens : Mode → Text → Bool → Text → Except LexError (List Text)
  | .blank, token, quoted, [] => .ok (emit token quoted)
  | .word, token, quoted, [] => .ok (emit token quoted)
  | .quote _, _, _, [] => .error .noClosingQuotation
  | .escape _, _, _, [] => .error .noEscapedCharacter
  | .blank, token, quoted, c :: rest =>
    if whitespace c then
      if token ≠ [] || quoted then do return token :: (← readTokens .blank [] false rest)
      else readTokens .blank token quoted rest
    else if c = backslash then readTokens (.escape none) token quoted rest
    else if quotes c then readTokens (.quote c) token quoted rest
    else readTokens .word [c] quoted rest
  | .word, token, quoted, c :: rest =>
    if whitespace c then
      if token ≠ [] || quoted then do return token :: (← readTokens .blank [] false rest)
      else readTokens .blank token quoted rest
    else if quotes c then readTokens (.quote c) token quoted rest
    else if c = backslash then readTokens (.escape none) token quoted rest
    else readTokens .word (token ++ [c]) quoted rest
  | .quote mark, token, _, c :: rest =>
    if c = mark then readTokens .word token true rest
    else if c = backslash && mark = doubleQuote then readTokens (.escape (some mark)) token true rest
    else readTokens (.quote mark) (token ++ [c]) true rest
  | .escape back, token, quoted, c :: rest =>
    readTokens (resume back) (token ++ escaped back c) quoted rest

/-- `shlex.split(text)`. -/
def split (text : Text) : Except LexError (List Text) := readTokens .blank [] false text

/-- The ASCII characters `shlex.quote` leaves alone. -/
def safe (c : CodePoint) : Bool :=
  (0x30 ≤ c && c ≤ 0x39) || (0x41 ≤ c && c ≤ 0x5a) || (0x61 ≤ c && c ≤ 0x7a) || c ∈ textOf "_@%+=:,./-"

/-- `shlex.quote(text)`: in single quotes, each single quote of the text in double quotes. -/
def quote (text : Text) : Text :=
  if text = [] then [singleQuote, singleQuote]
  else if text.all safe then text
  else singleQuote :: (text.flatMap fun c =>
    if c = singleQuote then [singleQuote, doubleQuote, singleQuote, doubleQuote, singleQuote] else [c]) ++
      [singleQuote]

/-- `shlex.join(words)`. -/
def join (words : List Text) : Text := (textOf " ").intercalate (words.map quote)

/-! ## The length of the tokens -/

/-- The characters of the words, and one for each of them. -/
def weight (words : List Text) : Nat := (words.map fun word => word.length + 1).sum

@[simp] theorem weight_nil : weight [] = 0 := rfl

@[simp] theorem weight_cons (word : Text) (words : List Text) :
    weight (word :: words) = word.length + 1 + weight words := List.sum_cons

@[simp] theorem weight_append (words more : List Text) : weight (words ++ more) = weight words + weight more := by
  unfold weight
  rw [List.map_append, List.sum_append]

/-- A backslash that has been read and may still become a part of the token. -/
def pending : Mode → Nat
  | .escape _ => 1
  | _ => 0

theorem pending_resume (back : Option CodePoint) : pending (resume back) = 0 := by
  cases back <;> rfl

theorem length_escaped (back : Option CodePoint) (c : CodePoint) : (escaped back c).length ≤ 2 := by
  unfold escaped
  split
  · simp
  · split <;> simp

theorem weight_emit (token : Text) (quoted : Bool) : weight (emit token quoted) ≤ token.length + 1 := by
  unfold emit
  split
  · exact Nat.le_refl _
  · exact Nat.zero_le _

/-- Reading makes no characters: the tokens are no longer than what they are read from, the
blank between two tokens paying for the second. -/
theorem weight_readTokens {mode : Mode} {token : Text} {quoted : Bool} {input : Text} {tokens : List Text}
    (read : readTokens mode token quoted input = .ok tokens) :
    weight tokens ≤ token.length + pending mode + input.length + 1 := by
  induction input generalizing mode token quoted tokens with
  | nil =>
    have bound := weight_emit token quoted
    cases mode <;> cases read <;> simpa [pending] using bound
  | cons c rest ih =>
    have skip : ∀ {next : Mode} {kept : Text} {marked : Bool}, readTokens next kept marked rest = .ok tokens →
        kept.length + pending next ≤ token.length + pending mode + 1 →
        weight tokens ≤ token.length + pending mode + (c :: rest).length + 1 := by
      intro next kept marked read fits
      have bound := ih read
      rw [List.length_cons]
      omega
    have emitted : (do return token :: (← readTokens .blank [] false rest) : Except LexError (List Text)) =
        .ok tokens → weight tokens ≤ token.length + pending mode + (c :: rest).length + 1 := by
      intro read
      obtain ⟨later, more, result⟩ := Except.bind_ok_iff.mp read
      cases result
      have bound := ih more
      rw [weight_cons, List.length_cons]
      simp only [List.length_nil, pending] at bound
      omega
    cases mode with
    | blank =>
      unfold readTokens at read
      split at read
      · split at read
        · exact emitted read
        · exact skip read (Nat.le_succ _)
      · split at read
        · exact skip read (Nat.le_refl _)
        · split at read
          · exact skip read (Nat.le_succ _)
          · exact skip read (by simp [pending])
    | word =>
      unfold readTokens at read
      split at read
      · split at read
        · exact emitted read
        · exact skip read (Nat.le_succ _)
      · split at read
        · exact skip read (Nat.le_succ _)
        · split at read
          · exact skip read (Nat.le_refl _)
          · exact skip read (by simp [pending])
    | quote mark =>
      unfold readTokens at read
      split at read
      · exact skip read (Nat.le_succ _)
      · split at read
        · exact skip read (Nat.le_refl _)
        · exact skip read (by simp [pending])
    | escape back =>
      unfold readTokens at read
      refine skip read ?_
      have short := length_escaped back c
      rw [pending_resume, List.length_append]
      simp only [pending]
      omega

theorem weight_split {text : Text} {tokens : List Text} (read : split text = .ok tokens) :
    weight tokens ≤ text.length + 1 := by
  have bound := weight_readTokens read
  simpa [pending] using bound

end Shlex

end Loushang.Policy
