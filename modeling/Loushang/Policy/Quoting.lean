import Loushang.Policy.WrapperOptions

/-!
# A POSIX lexer

The lexer of a shell without expansion: single quotes, double quotes, backslashes and line
continuation, blanks between words, and the separators of commands. What a
character means depends on the quotes it is read in, and every character is marked with them.
-/
namespace Loushang.Policy
open Lib Shlex

/-- What a character is read in: nothing, quotes, or after a backslash outside or inside double quotes. -/
inductive Quoting where
  | bare
  | single
  | double
  | escape
  | doubleEscape
  deriving DecidableEq

def lineFeed : CodePoint := 0x0a
def carriageReturn : CodePoint := 0x0d

def Quoting.advance : Quoting → CodePoint → Quoting
  | .bare, c =>
    if c = singleQuote then .single else if c = doubleQuote then .double else if c = backslash then .escape else .bare
  | .single, c => if c = singleQuote then .bare else .single
  | .double, c => if c = doubleQuote then .bare else if c = backslash then .doubleEscape else .double
  | .escape, _ => .bare
  | .doubleEscape, _ => .double

/-- Each character with what it is read in. -/
def marks : Quoting → Text → List (Quoting × CodePoint)
  | _, [] => []
  | quoting, c :: rest => (quoting, c) :: marks (quoting.advance c) rest

/-- What the character behind a text is read in. -/
def after (quoting : Quoting) (text : Text) : Quoting := text.foldl Quoting.advance quoting

@[simp] theorem after_append (quoting : Quoting) (front back : Text) :
    after quoting (front ++ back) = after (after quoting front) back := List.foldl_append

theorem marks_append (quoting : Quoting) (front back : Text) :
    marks quoting (front ++ back) = marks quoting front ++ marks (after quoting front) back := by
  induction front generalizing quoting with
  | nil => rfl
  | cons c rest ih => exact congrArg ((quoting, c) :: ·) (ih (quoting.advance c))

/-! ## The lexer -/

/-- `blank` characters part words. -/
def isBlankCode (c : CodePoint) : Bool := c = 0x20 || c = 0x09

/-- Characters that end a command; `&&` and `||` end it with their first. -/
def endsCommand (c : CodePoint) : Bool := c = code ';' || c = code '&' || c = code '|' || c = lineFeed

/-- The characters a double quote keeps a backslash from. -/
def doubleEscapes (c : CodePoint) : Bool := c = code '$' || c = code '`' || c = doubleQuote || c = backslash

structure Lexer where
  quoting : Quoting
  word : Option Text
  words : List Text
  commands : List Command

namespace Lexer

/-- Characters added to the word that is being read. -/
def put (s : Lexer) (text : Text) : Lexer := { s with word := some (s.word.getD [] ++ text) }

def endWord (s : Lexer) : Lexer := { s with word := none, words := s.words ++ s.word.toList }

/-- A command without words is none. -/
def endCommand (s : Lexer) : Lexer :=
  let s := s.endWord
  if s.words = [] then s else { s with words := [], commands := s.commands ++ [s.words] }

def read (s : Lexer) (c : CodePoint) : Lexer :=
  let next := { s with quoting := s.quoting.advance c }
  match s.quoting with
  | .bare =>
    if c = singleQuote || c = doubleQuote then next.put []
    else if c = backslash then next
    else if isBlankCode c then next.endWord
    else if endsCommand c then next.endCommand
    else next.put [c]
  | .single => if c = singleQuote then next else next.put [c]
  | .double => if c = doubleQuote || c = backslash then next else next.put [c]
  | .escape => if c = lineFeed then next else next.put [c]
  | .doubleEscape =>
    if c = lineFeed then next else if doubleEscapes c then next.put [c] else next.put [backslash, c]

def start : Lexer := ⟨.bare, none, [], []⟩

end Lexer

/-- The commands of a script; nothing for one that ends in quotes or after a backslash. -/
def shellCommands (script : Text) : Option (List Command) :=
  let s := script.foldl Lexer.read .start
  if s.quoting = .bare then some s.endCommand.commands else none

theorem Lexer.endWord_quoting (s : Lexer) : s.endWord.quoting = s.quoting := rfl

theorem Lexer.endCommand_quoting (s : Lexer) : s.endCommand.quoting = s.quoting := by
  unfold endCommand
  dsimp only
  split <;> rfl

theorem Lexer.read_quoting (s : Lexer) (c : CodePoint) : (s.read c).quoting = s.quoting.advance c := by
  unfold read
  split
  · split
    · rfl
    · split
      · rfl
      · split
        · rfl
        · split
          · exact Lexer.endCommand_quoting _
          · rfl
  · split <;> rfl
  · split <;> rfl
  · split <;> rfl
  · split
    · rfl
    · split <;> rfl

example : shellCommands (textOf "git log \"a b\" \\; c&& 'git' st\\\natus\n\n") =
    some [["git", "log", "a b", ";", "c"].map textOf, ["git", "status"].map textOf] := by decide

/-! ## What the lexer keeps -/

/-- The characters a marked character adds to a word. -/
def kept : Quoting × CodePoint → Text
  | (.bare, c) =>
    if c = singleQuote || c = doubleQuote || c = backslash || isBlankCode c || endsCommand c then [] else [c]
  | (.single, c) => if c = singleQuote then [] else [c]
  | (.double, c) => if c = doubleQuote || c = backslash then [] else [c]
  | (.escape, c) => if c = lineFeed then [] else [c]
  | (.doubleEscape, c) => if c = lineFeed then [] else if doubleEscapes c then [c] else [backslash, c]

/-- All that has been read, in order. -/
def Lexer.contents (s : Lexer) : Text := s.commands.flatten.flatten ++ s.words.flatten ++ s.word.getD []

theorem Lexer.contents_endWord (s : Lexer) : s.endWord.contents = s.contents := by
  unfold contents endWord
  cases s.word <;> simp

theorem Lexer.contents_endCommand (s : Lexer) : s.endCommand.contents = s.contents := by
  rw [← s.contents_endWord]
  unfold endCommand
  dsimp only
  split
  · rfl
  · simp [contents, endWord]

theorem Lexer.contents_put (s : Lexer) (text : Text) : (s.put text).contents = s.contents ++ text := by
  simp [contents, put]

theorem Lexer.contents_read (s : Lexer) (c : CodePoint) :
    (s.read c).contents = s.contents ++ kept (s.quoting, c) := by
  have same : ∀ quoting, { s with quoting := quoting }.contents = s.contents := fun _ => rfl
  unfold read kept
  cases s.quoting with
  | bare =>
    by_cases marked : c = singleQuote ∨ c = doubleQuote
    · simp [marked, contents_put, same]
    by_cases escapes : c = backslash
    · simp [escapes, same, show backslash ≠ singleQuote by decide, show backslash ≠ doubleQuote by decide]
    by_cases blank : isBlankCode c = true
    · simp [marked, escapes, blank, contents_endWord, same]
    by_cases ends : endsCommand c = true
    · simp [marked, escapes, blank, ends, contents_endCommand, same]
    · simp_all [contents_put]
  | single =>
    by_cases ends : c = singleQuote <;> simp [ends, contents_put, same]
  | double =>
    by_cases ends : c = doubleQuote ∨ c = backslash <;> simp [ends, contents_put, same]
  | escape =>
    by_cases continues : c = lineFeed <;> simp [continues, contents_put, same]
  | doubleEscape =>
    by_cases continues : c = lineFeed
    · simp [continues, same]
    · by_cases special : doubleEscapes c = true <;> simp [continues, special, contents_put, same]

theorem Lexer.contents_foldl (text : Text) (s : Lexer) :
    (text.foldl Lexer.read s).contents = s.contents ++ (marks s.quoting text).flatMap kept := by
  induction text generalizing s with
  | nil => simp [marks]
  | cons c rest ih =>
    rw [List.foldl_cons, ih, contents_read, read_quoting, List.append_assoc]
    rfl

/-- The characters of the commands are those kept from the script. -/
theorem shellCommands_contents {script : Text} {commands : List Command}
    (lexed : shellCommands script = some commands) :
    commands.flatten.flatten = (marks .bare script).flatMap kept := by
  unfold shellCommands at lexed
  dsimp only at lexed
  split at lexed
  · cases lexed
    have all := Lexer.contents_foldl script .start
    rw [← Lexer.contents_endCommand] at all
    -- no words are left after the last command
    have done : ∀ s : Lexer, s.endCommand.contents = s.endCommand.commands.flatten.flatten := by
      intro s
      unfold Lexer.endCommand Lexer.contents
      dsimp only
      split
      · next empty =>
        rw [empty]
        simp [Lexer.endWord]
      · simp [Lexer.endWord]
    rw [done] at all
    exact all
  · cases lexed

end Loushang.Policy
