import Loushang.Policy.GitCommands
import Loushang.Policy.Quoting

/-!
# The recognizer and the shell

The two scanners of the recognizer against the lexer of a shell: the splitter cuts a script at the
separators outside quotes, and `shlex` reads the words of each group.
-/
namespace Loushang.Policy
open Lib Shlex

/-! ## Groups of a script -/

/-- The characters at which the recognizer ends a group. -/
def separates (c : CodePoint) : Bool := c ∈ textOf ";&|\r\n"

/-- The pieces of a script between separators outside quotes, blank ones included. -/
def rawGroups : Quoting → Text → Text → List Text
  | _, group, [] => [group]
  | quoting, group, c :: rest =>
    if quoting = .bare && separates c then group :: rawGroups .bare [] rest
    else rawGroups (quoting.advance c) (group ++ [c]) rest

/-- What is read behind an open quote. -/
def quotingOf : Option CodePoint → Quoting
  | none => .bare
  | some quote => if quote = singleQuote then .single else .double

def visibleGroups (groups : List Text) : List Text := (groups.map strip).filter (· ≠ [])

theorem visibleGroups_cons (group : Text) (groups : List Text) :
    visibleGroups (group :: groups) = (if strip group = [] then [] else [strip group]) ++ visibleGroups groups := by
  unfold visibleGroups
  rw [List.map_cons, List.filter_cons]
  split <;> simp_all

variable {group : Text}

theorem closeGroup_some {line : Bool} {closed : List Text} (closes : closeGroup group line = some closed) :
    closed = if strip group = [] then [] else [strip group] := by
  unfold closeGroup at closes
  split at closes
  · next blank =>
    split at closes
    · cases closes
      rw [if_pos blank]
    · cases closes
  · next visible =>
    cases closes
    rw [if_neg visible]

variable {quoting : Quoting} {c : CodePoint}

theorem rawGroups_char (inside : quoting = .bare → separates c = false) (group rest : Text) :
    rawGroups quoting group (c :: rest) = rawGroups (quoting.advance c) (group ++ [c]) rest := by
  rw [rawGroups, if_neg]
  intro both
  obtain ⟨bare, separator⟩ := Bool.and_eq_true_iff.mp both
  rw [inside (of_decide_eq_true bare)] at separator
  cases separator

theorem rawGroups_separator (separator : separates c = true) (group rest : Text) :
    rawGroups .bare group (c :: rest) = group :: rawGroups .bare [] rest := by
  rw [rawGroups, separator]
  rfl

theorem quotes_cases (mark : quotes c = true) : c = singleQuote ∨ c = doubleQuote := by
  simpa [quotes] using mark

theorem quotingOf_ne_bare (quote : CodePoint) : quotingOf (some quote) ≠ .bare := by
  unfold quotingOf
  dsimp only
  split <;> decide

/-- A quote opens and closes what it stands for. -/
theorem advance_quote {quote : CodePoint} (mark : quotes quote = true) :
    Quoting.bare.advance quote = quotingOf (some quote) ∧ (quotingOf (some quote)).advance quote = .bare := by
  rcases quotes_cases mark with rfl | rfl <;> decide

variable {text : Text}

/-- The splitter finds the pieces that are not blank. -/
theorem splitFrom_eq {quote : Option CodePoint} {groups : List Text}
    (known : ∀ mark ∈ quote, quotes mark = true) (splits : splitFrom quote group text = some groups) :
    groups = visibleGroups (rawGroups (quotingOf quote) group text) := by
  fun_induction splitFrom quote group text generalizing groups with
  | case1 => cases splits
  | case2 group =>
    cases splits
    rw [rawGroups, visibleGroups_cons]
    exact (List.append_nil _).symm
  | case3 => cases splits
  | case4 group c rest _ ih =>
    rw [rawGroups_char (fun bare => absurd bare (quotingOf_ne_bare c)), (advance_quote (known c rfl)).2]
    exact ih (by simp) splits
  | case5 => cases splits
  | case6 quote group c _ _ escapes next more ih =>
    obtain ⟨escape, double⟩ := Bool.and_eq_true_iff.mp escapes
    obtain rfl := of_decide_eq_true escape
    obtain rfl := of_decide_eq_true double
    rw [rawGroups_char fun bare => absurd bare (by decide), rawGroups_char fun bare => absurd bare (by decide),
      List.append_assoc]
    exact ih known splits
  | case7 quote group c rest _ other plain ih =>
    rw [rawGroups_char (fun bare => absurd bare (quotingOf_ne_bare quote))]
    have stays : (quotingOf (some quote)).advance c = quotingOf (some quote) := by
      rcases quotes_cases (known quote rfl) with rfl | rfl
      · exact if_neg other
      · have notEscape : c ≠ backslash := by simpa using plain
        exact (if_neg other).trans (if_neg notEscape)
    rw [stays]
    exact ih known splits
  | case8 group c rest opens ih =>
    have mark : quotes c = true := by
      rw [quotes, Bool.or_comm]
      exact opens
    have inside : separates c = false := by rcases quotes_cases mark with rfl | rfl <;> decide
    rw [quotingOf, rawGroups_char fun _ => inside, (advance_quote mark).1]
    exact ih (by simpa using mark) splits
  | case9 => cases splits
  | case10 group _ _ ih =>
    rw [quotingOf, rawGroups_char fun _ => by decide]
    exact ih (by simp) splits
  | case11 group next more _ _ ih =>
    rw [quotingOf, rawGroups_char fun _ => by decide, rawGroups_char fun bare => absurd bare (by decide),
      List.append_assoc]
    exact ih (by simp) splits
  | case12 => cases splits
  | case13 group c rest _ _ _ separator _ ih =>
    obtain ⟨closed, closes, more⟩ := Option.bind_eq_some_iff.mp splits
    obtain ⟨later, goes, rfl⟩ := Option.map_eq_some_iff.mp more
    rw [quotingOf, rawGroups_separator (decide_eq_true separator), visibleGroups_cons, closeGroup_some closes]
    congr 1
    cases rest with
    | nil => exact ih (by simp) goes
    | cons next more =>
      dsimp only at goes
      split at goes
      · next pair =>
        -- the second character of a pair ends a blank group
        have second : separates next = true := by
          simp only [List.map_cons, List.map_nil, List.mem_cons, List.not_mem_nil, or_false] at pair
          rcases pair with same | same | same <;>
            · rw [show next = _ from (List.cons.inj (List.cons.inj same).2).1]
              decide
        rw [rawGroups_separator second, visibleGroups_cons, if_pos (by rfl), List.nil_append]
        exact ih.1 (by simp) goes
      · exact ih.2 (by simp) goes
  | case14 group c rest notQuote _ notEscape plain ih =>
    have stays : Quoting.bare.advance c = .bare := by
      have single : c ≠ singleQuote := fun same => notQuote (by rw [same]; decide)
      have double : c ≠ doubleQuote := fun same => notQuote (by rw [same]; decide)
      exact (if_neg single).trans ((if_neg double).trans (if_neg notEscape))
    rw [quotingOf, rawGroups_char fun _ => decide_eq_false plain, stays]
    exact ih (by simp) splits

/-- No separator stands outside quotes. -/
def Clean (quoting : Quoting) (text : Text) : Prop :=
  ∀ mark ∈ marks quoting text, mark.1 = .bare → separates mark.2 = false

theorem Clean.append_iff {front back : Text} :
    Clean quoting (front ++ back) ↔ Clean quoting front ∧ Clean (after quoting front) back := by
  unfold Clean
  rw [marks_append]
  exact List.forall_mem_append

/-- What a character outside quotes is, in a text without separators. -/
theorem clean_bare {rest : Text} (clean : Clean .bare (c :: rest)) :
    endsCommand c = false ∧ c ≠ carriageReturn := by
  have inside := clean (.bare, c) List.mem_cons_self rfl
  constructor
  · by_contra ends
    have cases_ : c = code ';' ∨ c = code '&' ∨ c = code '|' ∨ c = lineFeed := by
      rw [Bool.not_eq_false] at ends
      simpa [endsCommand, or_assoc] using ends
    rcases cases_ with rfl | rfl | rfl | rfl <;> exact absurd inside (by decide)
  · rintro rfl
    exact absurd inside (by decide)

theorem whitespace_cases (blank : whitespace c = true) :
    c = 0x20 ∨ c = 0x09 ∨ c = carriageReturn ∨ c = lineFeed := by
  simpa [whitespace, or_assoc, carriageReturn, lineFeed] using blank

theorem rawGroups_clean (clean : Clean .bare group) (here : after .bare group = quoting) :
    ∀ raw ∈ rawGroups quoting group text, Clean .bare raw := by
  induction text generalizing quoting group with
  | nil => simpa [rawGroups] using clean
  | cons c rest ih =>
    unfold rawGroups
    split
    · exact List.forall_mem_cons.mpr ⟨clean, ih (by simp [Clean, marks]) rfl⟩
    · next inside =>
      refine ih (Clean.append_iff.mpr ⟨clean, ?_⟩) (by rw [after_append, here]; rfl)
      intro mark member bare
      rw [here] at member
      obtain rfl := List.mem_singleton.mp member
      simpa [show quoting = .bare from bare] using inside

/-! ## What `shlex` keeps -/

/-- The characters a marked character adds to a word of `shlex`, separators having been cut out. -/
def keptByShlex : Quoting × CodePoint → Text
  | (.bare, c) => if c = singleQuote || c = doubleQuote || c = backslash || whitespace c || endsCommand c then [] else [c]
  | (.single, c) => if c = singleQuote then [] else [c]
  | (.double, c) => if c = doubleQuote || c = backslash then [] else [c]
  | (.escape, c) => [c]
  | (.doubleEscape, c) => if c = doubleQuote || c = backslash then [c] else [backslash, c]

/-- A state of `shlex` and what a character is read in. -/
inductive Corresponds : Shlex.Mode → Quoting → Prop
  | blank : Corresponds .blank .bare
  | word : Corresponds .word .bare
  | single : Corresponds (.quote singleQuote) .single
  | double : Corresponds (.quote doubleQuote) .double
  | escape : Corresponds (.escape none) .escape
  | doubleEscape : Corresponds (.escape (some doubleQuote)) .doubleEscape

theorem corresponds_quote (mark : quotes c = true) : Corresponds (.quote c) (Quoting.bare.advance c) := by
  rcases quotes_cases mark with rfl | rfl
  · exact .single
  · exact .double

theorem flatten_emit (token : Text) (quoted : Bool) : (emit token quoted).flatten = token := by
  unfold emit
  split
  · exact List.flatten_singleton
  · next none_ =>
    have empty : token = [] := by
      simp only [Bool.or_eq_true, decide_eq_true_eq, not_or, not_not] at none_
      exact none_.1
    rw [empty]
    rfl

variable {mode : Shlex.Mode} {tokens : List Text}

/-- The tokens hold what `shlex` keeps, in order, and the text ends outside quotes. -/
theorem readTokens_kept {token input : Text} {quoted : Bool} (state : Corresponds mode quoting)
    (fresh : mode = .blank → token = []) (clean : Clean quoting input)
    (read : Shlex.readTokens mode token quoted input = .ok tokens) :
    after quoting input = .bare ∧ tokens.flatten = token ++ (marks quoting input).flatMap keptByShlex := by
  induction input generalizing mode quoting token quoted tokens with
  | nil =>
    cases state <;> cases read
    all_goals exact ⟨rfl, by rw [flatten_emit]; exact (List.append_nil _).symm⟩
  | cons c rest ih =>
    have later : Clean (quoting.advance c) rest := fun mark member => clean mark (List.mem_cons_of_mem _ member)
    have goes : ∀ {next : Shlex.Mode} {more : Text} {marked : Bool}, Corresponds next (quoting.advance c) →
        (next = .blank → token ++ more = []) → keptByShlex (quoting, c) = more →
        Shlex.readTokens next (token ++ more) marked rest = .ok tokens →
        after quoting (c :: rest) = .bare ∧
          tokens.flatten = token ++ (marks quoting (c :: rest)).flatMap keptByShlex := by
      rintro next more marked follows empty rfl reads
      obtain ⟨ends, same⟩ := ih follows empty later reads
      exact ⟨ends, by rw [same, List.append_assoc]; rfl⟩
    -- a blank ends the token, or there is none
    have parts : whitespace c = true → quoting = .bare →
        (if token ≠ [] || quoted then do return token :: (← Shlex.readTokens .blank [] false rest)
          else Shlex.readTokens .blank token quoted rest) = .ok tokens →
        after quoting (c :: rest) = .bare ∧
          tokens.flatten = token ++ (marks quoting (c :: rest)).flatMap keptByShlex := by
      rintro blank rfl reads
      have stays : Quoting.bare.advance c = .bare := by
        rcases whitespace_cases blank with rfl | rfl | rfl | rfl <;> decide
      rw [stays] at later
      have nothing : keptByShlex (.bare, c) = [] := if_pos (by rw [blank]; simp)
      have shape : (marks .bare (c :: rest)).flatMap keptByShlex = (marks .bare rest).flatMap keptByShlex := by
        rw [marks, stays, List.flatMap_cons, nothing, List.nil_append]
      have ends : after .bare (c :: rest) = after .bare rest := by
        change after (Quoting.bare.advance c) rest = _
        rw [stays]
      rw [shape, ends]
      split at reads
      · obtain ⟨more, others, result⟩ := Except.bind_ok_iff.mp reads
        cases result
        obtain ⟨last, same⟩ := ih .blank (fun _ => rfl) later others
        exact ⟨last, by rw [List.flatten_cons, same, List.nil_append]⟩
      · next none_ =>
        have empty : token = [] := by
          simp only [Bool.or_eq_true, decide_eq_true_eq, not_or, not_not] at none_
          exact none_.1
        exact ih .blank (fun _ => empty) later reads
    have unquoted : whitespace c ≠ true → quotes c ≠ true → c ≠ backslash → quoting = .bare →
        Corresponds .word (quoting.advance c) ∧ keptByShlex (quoting, c) = [c] := by
      rintro blank mark escape rfl
      have single : c ≠ singleQuote := fun same => mark (by rw [same]; decide)
      have double : c ≠ doubleQuote := fun same => mark (by rw [same]; decide)
      have plain := (clean_bare clean).1
      constructor
      · have stays : Quoting.bare.advance c = .bare :=
          (if_neg single).trans ((if_neg double).trans (if_neg escape))
        rw [stays]
        exact .word
      · exact if_neg (by simp [single, double, escape, blank, plain])
    have quote_ : quotes c = true → quoting = .bare →
        Corresponds (.quote c) (quoting.advance c) ∧ keptByShlex (quoting, c) = [] := by
      rintro mark rfl
      exact ⟨corresponds_quote mark, by rcases quotes_cases mark with rfl | rfl <;> decide⟩
    have escape_ : c = backslash → quoting = .bare →
        Corresponds (.escape none) (quoting.advance c) ∧ keptByShlex (quoting, c) = [] := by
      rintro rfl rfl
      exact ⟨.escape, by decide⟩
    have plus : ∀ {next : Shlex.Mode} {marked : Bool},
        Corresponds next (quoting.advance c) ∧ keptByShlex (quoting, c) = [] → next ≠ .blank →
        Shlex.readTokens next token marked rest = .ok tokens →
        after quoting (c :: rest) = .bare ∧
          tokens.flatten = token ++ (marks quoting (c :: rest)).flatMap keptByShlex := by
      rintro next marked ⟨follows, nothing⟩ other reads
      rw [← List.append_nil token] at reads
      exact goes follows (fun same => absurd same other) nothing reads
    cases state with
    | blank =>
      have empty := fresh rfl
      subst empty
      unfold Shlex.readTokens at read
      split at read
      · next blank => exact parts blank rfl read
      · next blank =>
        split at read
        · next escape => exact plus (escape_ escape rfl) (by simp) read
        · next escape =>
          split at read
          · next mark => exact plus (quote_ mark rfl) (by simp) read
          · next mark =>
            obtain ⟨follows, adds⟩ := unquoted blank mark escape rfl
            exact goes follows (by simp) adds read
    | word =>
      unfold Shlex.readTokens at read
      split at read
      · next blank => exact parts blank rfl read
      · next blank =>
        split at read
        · next mark => exact plus (quote_ mark rfl) (by simp) read
        · next mark =>
          split at read
          · next escape => exact plus (escape_ escape rfl) (by simp) read
          · next escape =>
            obtain ⟨follows, adds⟩ := unquoted blank mark escape rfl
            exact goes follows (by simp) adds read
    | single =>
      unfold Shlex.readTokens at read
      split at read
      · next ends =>
        subst ends
        exact plus ⟨.word, by decide⟩ (by simp) read
      · next inside =>
        rw [if_neg (by simp [show singleQuote ≠ doubleQuote by decide])] at read
        have stays : Quoting.single.advance c = .single := if_neg inside
        have state : Corresponds (.quote singleQuote) (Quoting.single.advance c) := by
          rw [stays]
          exact .single
        exact goes state (by simp) (if_neg inside) read
    | double =>
      unfold Shlex.readTokens at read
      split at read
      · next ends =>
        subst ends
        exact plus ⟨.word, by decide⟩ (by simp) read
      · next inside =>
        split at read
        · next escapes =>
          obtain rfl := of_decide_eq_true (Bool.and_eq_true_iff.mp escapes).1
          exact plus ⟨.doubleEscape, by decide⟩ (by simp) read
        · next plain =>
          have notEscape : c ≠ backslash := by simpa using plain
          have stays : Quoting.double.advance c = .double := (if_neg inside).trans (if_neg notEscape)
          have state : Corresponds (.quote doubleQuote) (Quoting.double.advance c) := by
            rw [stays]
            exact .double
          exact goes state (by simp) (if_neg (by simp [inside, notEscape])) read
    | escape =>
      unfold Shlex.readTokens at read
      exact goes .word (by simp) rfl read
    | doubleEscape =>
      unfold Shlex.readTokens at read
      refine goes .double (by simp) ?_ read
      unfold keptByShlex escaped
      by_cases special : c = doubleQuote ∨ c = backslash
      · rcases special with rfl | rfl <;> decide
      · have both : c ≠ doubleQuote ∧ c ≠ backslash := not_or.mp special
        simp [both]

theorem split_kept (clean : Clean .bare text) (read : Shlex.split text = .ok tokens) :
    after .bare text = .bare ∧ tokens.flatten = (marks .bare text).flatMap keptByShlex := by
  have all := readTokens_kept .blank (fun _ => rfl) clean read
  exact ⟨all.1, all.2⟩

/-! ## The shell reads the same words -/

/-- The marked characters `shlex` takes for something else than a shell does: a carriage return
outside quotes, a line continuation, and an escaped dollar or grave accent in double quotes. -/
def readApart : Quoting × CodePoint → Bool
  | (.bare, c) => c = carriageReturn
  | (.escape, c) => c = lineFeed
  | (.doubleEscape, c) => c = lineFeed || c = code '$' || c = code '`'
  | _ => false

/-- The word of the shell while `shlex` reads a token. -/
def wordOf : Shlex.Mode → Text → Bool → Option Text
  | .quote _, token, _ => some token
  | .escape (some _), token, _ => some token
  | _, token, quoted => if token ≠ [] || quoted then some token else none

theorem getD_wordOf (mode : Shlex.Mode) (token : Text) (quoted : Bool) : (wordOf mode token quoted).getD [] = token := by
  have plain : (if token ≠ [] || quoted then some token else none).getD [] = token := by
    split
    · rfl
    · next none_ =>
      simp only [Bool.or_eq_true, decide_eq_true_eq, not_or, not_not] at none_
      exact none_.1.symm
  unfold wordOf
  split
  · rfl
  · rfl
  · exact plain

theorem toList_wordOf (token : Text) (quoted : Bool) :
    (if token ≠ [] || quoted then some token else none : Option Text).toList = emit token quoted := by
  unfold emit
  split <;> rfl

theorem read_bare_quote (mark : quotes c = true) (word : Option Text) (words : List Text)
    (commands : List Command) : Lexer.read ⟨.bare, word, words, commands⟩ c =
      ⟨Quoting.bare.advance c, some (word.getD []), words, commands⟩ := by
  rcases quotes_cases mark with rfl | rfl <;> simp [Lexer.read, Lexer.put]

theorem read_bare_blank (blank : c = 0x20 ∨ c = 0x09) (word : Option Text) (words : List Text)
    (commands : List Command) : Lexer.read ⟨.bare, word, words, commands⟩ c =
      ⟨.bare, none, words ++ word.toList, commands⟩ := by
  rcases blank with rfl | rfl <;> rfl

theorem read_bare_plain (mark : quotes c ≠ true) (escape : c ≠ backslash) (blank : isBlankCode c = false)
    (ends : endsCommand c = false) (word : Option Text) (words : List Text) (commands : List Command) :
    Lexer.read ⟨.bare, word, words, commands⟩ c =
      ⟨.bare, some (word.getD [] ++ [c]), words, commands⟩ := by
  have single : c ≠ singleQuote := fun same => mark (by rw [same]; decide)
  have double : c ≠ doubleQuote := fun same => mark (by rw [same]; decide)
  simp [Lexer.read, Lexer.put, Quoting.advance, single, double, escape, blank, ends]

/-- The shell reads the tokens of `shlex` from a text without separators and continuations. -/
theorem readTokens_lexed {token input : Text} {quoted : Bool} (state : Corresponds mode quoting)
    (fresh : mode = .blank → token = [] ∧ quoted = false) (clean : Clean quoting input)
    (plain : ∀ mark ∈ marks quoting input, readApart mark = false)
    (read : Shlex.readTokens mode token quoted input = .ok tokens) (words : List Text)
    (commands : List Command) :
    (input.foldl Lexer.read ⟨quoting, wordOf mode token quoted, words, commands⟩).endWord =
      ⟨.bare, none, words ++ tokens, commands⟩ := by
  induction input generalizing mode quoting token quoted tokens words with
  | nil =>
    cases state <;> cases read
    all_goals
      change Lexer.mk .bare none (words ++ (if token ≠ [] || quoted then some token else none : Option Text).toList)
        commands = _
      rw [toList_wordOf]
  | cons c rest ih =>
    have later : Clean (quoting.advance c) rest := fun mark member => clean mark (List.mem_cons_of_mem _ member)
    have plainer : ∀ mark ∈ marks (quoting.advance c) rest, readApart mark = false :=
      fun mark member => plain mark (List.mem_cons_of_mem _ member)
    have here : readApart (quoting, c) = false := plain _ List.mem_cons_self
    have goes : ∀ {next : Shlex.Mode} {more : Text} {marked : Bool}, Corresponds next (quoting.advance c) →
        next ≠ .blank →
        Lexer.read ⟨quoting, wordOf mode token quoted, words, commands⟩ c =
          ⟨quoting.advance c, wordOf next more marked, words, commands⟩ →
        Shlex.readTokens next more marked rest = .ok tokens →
        ((c :: rest).foldl Lexer.read ⟨quoting, wordOf mode token quoted, words, commands⟩).endWord =
          ⟨.bare, none, words ++ tokens, commands⟩ := by
      intro next more marked follows other step reads
      rw [List.foldl_cons, step]
      exact ih follows (fun same => absurd same other) later plainer reads words
    have unquoted : whitespace c ≠ true → quotes c ≠ true → c ≠ backslash → quoting = .bare →
        Shlex.readTokens .word (token ++ [c]) quoted rest = .ok tokens →
        ((c :: rest).foldl Lexer.read ⟨quoting, wordOf mode token quoted, words, commands⟩).endWord =
          ⟨.bare, none, words ++ tokens, commands⟩ := by
      rintro blank mark escape rfl reads
      have notBlank : isBlankCode c = false := by
        have space : c ≠ 0x20 := fun same => blank (by rw [same]; decide)
        have tab : c ≠ 0x09 := fun same => blank (by rw [same]; decide)
        simp [isBlankCode, space, tab]
      have step := read_bare_plain mark escape notBlank (clean_bare clean).1 (wordOf mode token quoted) words commands
      have stays : Quoting.bare.advance c = .bare := by
        have same := Lexer.read_quoting ⟨.bare, wordOf mode token quoted, words, commands⟩ c
        rw [step] at same
        exact same.symm
      rw [getD_wordOf] at step
      have follows : Corresponds .word (Quoting.bare.advance c) := by
        rw [stays]
        exact .word
      refine goes follows (by simp) ?_ reads
      rw [step, stays]
      simp [wordOf]
    -- a blank ends the token, or there is none
    have parts : whitespace c = true → quoting = .bare →
        wordOf mode token quoted = (if token ≠ [] || quoted then some token else none) →
        (if token ≠ [] || quoted then do return token :: (← Shlex.readTokens .blank [] false rest)
          else Shlex.readTokens .blank token quoted rest) = .ok tokens →
        ((c :: rest).foldl Lexer.read ⟨quoting, wordOf mode token quoted, words, commands⟩).endWord =
          ⟨.bare, none, words ++ tokens, commands⟩ := by
      rintro blank rfl word reads
      have space : c = 0x20 ∨ c = 0x09 := by
        obtain ⟨ends, notReturn⟩ := clean_bare clean
        rcases whitespace_cases blank with same | same | same | same
        · exact Or.inl same
        · exact Or.inr same
        · exact absurd same notReturn
        · rw [same] at ends
          exact absurd ends (by decide)
      have stays : Quoting.bare.advance c = .bare := by rcases space with rfl | rfl <;> rfl
      rw [stays] at later plainer
      rw [List.foldl_cons, read_bare_blank space, word, toList_wordOf]
      unfold emit
      split at reads
      · next some_ =>
        obtain ⟨more, others, result⟩ := Except.bind_ok_iff.mp reads
        cases result
        rw [if_pos some_]
        have read_ := ih .blank (fun _ => ⟨rfl, rfl⟩) later plainer others (words ++ [token])
        rw [List.append_assoc] at read_
        exact read_
      · next none_ =>
        rw [if_neg none_, List.append_nil]
        have empty : token = [] ∧ quoted = false := by simpa using none_
        have read_ := ih .blank (fun _ => empty) later plainer reads words
        rw [wordOf, if_neg none_] at read_
        · exact read_
        · simp
        · simp
    have quote_ : quotes c = true → quoting = .bare → Shlex.readTokens (.quote c) token quoted rest = .ok tokens →
        ((c :: rest).foldl Lexer.read ⟨quoting, wordOf mode token quoted, words, commands⟩).endWord =
          ⟨.bare, none, words ++ tokens, commands⟩ := by
      rintro mark rfl reads
      refine goes (corresponds_quote mark) (by simp) ?_ reads
      rw [read_bare_quote mark, getD_wordOf]
      rfl
    cases state with
    | blank =>
      obtain ⟨rfl, rfl⟩ := fresh rfl
      unfold Shlex.readTokens at read
      split at read
      · next blank => exact parts blank rfl rfl read
      · next blank =>
        split at read
        · next escape =>
          subst escape
          exact goes .escape (by simp) rfl read
        · next escape =>
          split at read
          · next mark => exact quote_ mark rfl read
          · next mark => exact unquoted blank mark escape rfl read
    | word =>
      unfold Shlex.readTokens at read
      split at read
      · next blank => exact parts blank rfl rfl read
      · next blank =>
        split at read
        · next mark => exact quote_ mark rfl read
        · next mark =>
          split at read
          · next escape =>
            subst escape
            exact goes .escape (by simp) rfl read
          · next escape => exact unquoted blank mark escape rfl read
    | single =>
      unfold Shlex.readTokens at read
      split at read
      · next ends =>
        subst ends
        exact goes .word (by simp) (by simp [Lexer.read, wordOf]) read
      · next inside =>
        rw [if_neg (by simp [show singleQuote ≠ doubleQuote by decide])] at read
        have stays : Quoting.single.advance c = .single := if_neg inside
        have state : Corresponds (.quote singleQuote) (Quoting.single.advance c) := by
          rw [stays]
          exact .single
        exact goes state (by simp) (by simp [Lexer.read, Lexer.put, wordOf, inside]) read
    | double =>
      unfold Shlex.readTokens at read
      split at read
      · next ends =>
        subst ends
        exact goes .word (by simp) (by simp [Lexer.read, wordOf]) read
      · next inside =>
        split at read
        · next escapes =>
          obtain rfl := of_decide_eq_true (Bool.and_eq_true_iff.mp escapes).1
          exact goes .doubleEscape (by simp) (by simp [Lexer.read, wordOf]) read
        · next plain_ =>
          have notEscape : c ≠ backslash := by simpa using plain_
          have stays : Quoting.double.advance c = .double := (if_neg inside).trans (if_neg notEscape)
          have state : Corresponds (.quote doubleQuote) (Quoting.double.advance c) := by
            rw [stays]
            exact .double
          exact goes state (by simp) (by simp [Lexer.read, Lexer.put, wordOf, inside, notEscape]) read
    | escape =>
      unfold Shlex.readTokens at read
      have notLine : c ≠ lineFeed := by simpa [readApart] using here
      refine goes .word (by simp) ?_ read
      have step : ∀ word, Lexer.read ⟨.escape, word, words, commands⟩ c =
          ⟨.bare, some (word.getD [] ++ [c]), words, commands⟩ := by
        intro word
        simp [Lexer.read, Lexer.put, Quoting.advance, notLine]
      have more : wordOf .word (token ++ escaped none c) quoted = some (token ++ [c]) := by simp [wordOf, escaped]
      rw [step, getD_wordOf, more]
      rfl
    | doubleEscape =>
      unfold Shlex.readTokens at read
      refine goes .double (by simp) ?_ read
      obtain ⟨⟨notLine, notDollar⟩, notAccent⟩ : (c ≠ lineFeed ∧ c ≠ code '$') ∧ c ≠ code '`' := by
        simpa [readApart] using here
      by_cases special : c = doubleQuote ∨ c = backslash
      · rcases special with rfl | rfl <;> rfl
      · have both : c ≠ doubleQuote ∧ c ≠ backslash := not_or.mp special
        simp [Lexer.read, Lexer.put, notLine, notDollar, notAccent, both, doubleEscapes, escaped, wordOf]

end Loushang.Policy
