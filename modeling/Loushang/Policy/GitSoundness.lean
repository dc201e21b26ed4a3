import Loushang.Policy.GitLexing

/-!
# What the recognizer finds is what a shell runs

For a script that is recognized, a shell without expansion runs exactly the recognized commands
when no character is read apart and only blanks are stripped off a group.
-/
namespace Loushang.Policy
open Lib Shlex

/-! ## Stripping -/

theorem strip_split (text : Text) : ∃ front back, text = front ++ strip text ++ back ∧
    ∀ c ∈ front ++ back, isSpaceCode (c : CodePoint) = true := by
  let spaces : CodePoint → Bool := fun c => isSpaceCode c
  refine ⟨text.takeWhile spaces, (text.dropWhile spaces).rtakeWhile spaces, ?_, ?_⟩
  · rw [List.append_assoc]
    change text = _ ++ ((text.dropWhile spaces).rdropWhile spaces ++ (text.dropWhile spaces).rtakeWhile spaces)
    rw [List.rdropWhile_append_rtakeWhile, List.takeWhile_append_dropWhile]
  · exact List.forall_mem_append.mpr ⟨fun _ front => @List.mem_takeWhile_imp _ spaces _ _ front,
      fun _ back => @List.mem_rtakeWhile_imp _ spaces _ _ back⟩

variable {c : CodePoint}

/-- A character that is stripped is read as itself outside quotes. -/
theorem advance_space (space : isSpaceCode c = true) :
    Quoting.bare.advance c = .bare ∧ c ≠ backslash ∧ quotes c = false := by
  have single : c ≠ singleQuote := by rintro rfl; exact absurd space (by decide)
  have double : c ≠ doubleQuote := by rintro rfl; exact absurd space (by decide)
  have escape : c ≠ backslash := by rintro rfl; exact absurd space (by decide)
  refine ⟨(if_neg single).trans ((if_neg double).trans (if_neg escape)), escape, ?_⟩
  simp [quotes, single, double]

variable {text : Text}

theorem marks_spaces (spaces : ∀ c ∈ text, isSpaceCode (c : CodePoint) = true) :
    marks .bare text = text.map (Quoting.bare, ·) ∧ after .bare text = .bare := by
  induction text with
  | nil => exact ⟨rfl, rfl⟩
  | cons c rest ih =>
    have here := (advance_space (spaces c List.mem_cons_self)).1
    obtain ⟨same, ends⟩ := ih fun other member => spaces other (List.mem_cons_of_mem _ member)
    rw [marks, here, same, List.map_cons]
    refine ⟨rfl, ?_⟩
    change after (Quoting.bare.advance c) rest = _
    rw [here, ends]

/-- Only blanks are stripped off a group. -/
def BlankEdges (group : Text) : Prop :=
  ∃ front back, group = front ++ strip group ++ back ∧ ∀ c ∈ front ++ back, isBlankCode c = true

theorem blank_cases (blank : isBlankCode c = true) : c = 0x20 ∨ c = 0x09 := by
  simpa [isBlankCode] using blank

theorem blank_space (blank : isBlankCode c = true) : isSpaceCode c = true := by
  rcases blank_cases blank with rfl | rfl <;> decide

/-! ## The words of a group -/

/-- A group alone has these words for a shell. -/
def LexesTo (group : Text) (words : List Text) : Prop :=
  ∀ commands, (group.foldl Lexer.read ⟨.bare, none, [], commands⟩).endWord = ⟨.bare, none, words, commands⟩

theorem endWord_endWord (s : Lexer) : s.endWord.endWord = s.endWord := by simp [Lexer.endWord]

theorem foldl_blanks (blanks : ∀ c ∈ text, isBlankCode c = true) (s : Lexer) (bare : s.quoting = .bare) :
    (text.foldl Lexer.read s).endWord = s.endWord := by
  induction text generalizing s with
  | nil => rfl
  | cons c rest ih =>
    have step : s.read c = s.endWord := by
      obtain ⟨quoting, word, words, commands⟩ := s
      cases bare
      exact read_bare_blank (blank_cases (blanks c List.mem_cons_self)) word words commands
    have later := ih (fun other member => blanks other (List.mem_cons_of_mem _ member)) s.endWord bare
    rw [List.foldl_cons, step, later, endWord_endWord]

theorem foldl_blanks_start (blanks : ∀ c ∈ text, isBlankCode c = true) (commands : List Command) :
    text.foldl Lexer.read ⟨.bare, none, [], commands⟩ = ⟨.bare, none, [], commands⟩ := by
  induction text with
  | nil => rfl
  | cons c rest ih =>
    rw [List.foldl_cons, read_bare_blank (blank_cases (blanks c List.mem_cons_self))]
    exact ih fun other member => blanks other (List.mem_cons_of_mem _ member)

/-- The words of a group that is split. -/
def groupWords (raw : Text) : List Text := if strip raw = [] then [] else (groupTokens (strip raw)).getD []

theorem groupTokens_some {group : Text} {tokens : Command} (splits : groupTokens group = some tokens) :
    Shlex.split group = .ok tokens ∧ tokens ≠ [] := by
  unfold groupTokens at splits
  split at splits
  · cases splits
  · cases splits
  · next some_ read =>
    cases splits
    exact ⟨read, some_⟩

/-- The parts of a group: what is stripped is outside quotes. -/
theorem marks_parts {front middle back : Text} (spaces : ∀ c ∈ front ++ back, isSpaceCode (c : CodePoint) = true)
    (ends : after .bare middle = .bare) :
    marks .bare (front ++ middle ++ back) =
      front.map (Quoting.bare, ·) ++ marks .bare middle ++ back.map (Quoting.bare, ·) := by
  have first := marks_spaces fun c member => spaces c (List.mem_append_left _ member)
  have last := marks_spaces fun c member => spaces c (List.mem_append_right _ member)
  rw [marks_append, marks_append, after_append, first.1, first.2, ends, last.1]

theorem clean_parts {front middle back : Text} (spaces : ∀ c ∈ front ++ back, isSpaceCode (c : CodePoint) = true)
    (clean : Clean .bare (front ++ middle ++ back)) : Clean .bare middle := by
  have first := marks_spaces fun c member => spaces c (List.mem_append_left _ member)
  have inner := (Clean.append_iff.mp (Clean.append_iff.mp clean).1).2
  rw [first.2] at inner
  exact inner

/-- Without characters read apart, and with blanks alone stripped, a shell reads the words of the
recognizer in a group. -/
theorem lexesTo_groupWords {raw : Text} (clean : Clean .bare raw)
    (splits : strip raw = [] ∨ ∃ tokens, groupTokens (strip raw) = some tokens)
    (plain : ∀ mark ∈ marks .bare raw, readApart mark = false) (edges : BlankEdges raw) :
    LexesTo raw (groupWords raw) := by
  obtain ⟨front, back, same, blanks⟩ := edges
  have blankFront : ∀ c ∈ front, isBlankCode c = true := fun c member => blanks c (List.mem_append_left _ member)
  have blankBack : ∀ c ∈ back, isBlankCode c = true := fun c member => blanks c (List.mem_append_right _ member)
  have spaces : ∀ c ∈ front ++ back, isSpaceCode (c : CodePoint) = true := fun c member => blank_space (blanks c member)
  intro commands
  unfold groupWords
  by_cases blank : strip raw = []
  · rw [blank, List.append_nil] at same
    rw [if_pos blank, same, foldl_blanks_start blanks]
    rfl
  · obtain ⟨tokens, tokens_⟩ := splits.resolve_left blank
    obtain ⟨read, _⟩ := groupTokens_some tokens_
    rw [if_neg blank, tokens_]
    rw [same] at clean plain
    have cleanMiddle := clean_parts spaces clean
    obtain ⟨ends, _⟩ := split_kept cleanMiddle read
    rw [marks_parts spaces ends] at plain
    have lexed := readTokens_lexed .blank (fun _ => ⟨rfl, rfl⟩) cleanMiddle
      (fun mark member => plain mark (List.mem_append_left _ (List.mem_append_right _ member))) read [] commands
    rw [same, List.foldl_append, List.foldl_append, foldl_blanks_start blankFront]
    have start : wordOf .blank [] false = none := rfl
    rw [start] at lexed
    rw [foldl_blanks blankBack, lexed]
    · rfl
    · have bare := congrArg Lexer.quoting lexed
      exact bare

/-! ## The commands of a script -/

theorem endCommand_of_endWord {s : Lexer} {words : List Text} {commands : List Command}
    (ends : s.endWord = ⟨.bare, none, words, commands⟩) :
    s.endCommand = ⟨.bare, none, [], commands ++ [words].filter (· ≠ [])⟩ := by
  unfold Lexer.endCommand
  dsimp only
  rw [ends]
  split
  · next empty => simp_all
  · next some_ => simp_all

/-- Where no carriage return stands outside quotes, a shell cuts a script as the recognizer does. -/
theorem foldl_rawGroups {words : Text → List Text} {quoting : Quoting} {group : Text}
    (lexes : ∀ raw ∈ rawGroups quoting group text, LexesTo raw (words raw))
    (plain : ∀ mark ∈ marks quoting text, readApart mark = false) (here : after .bare group = quoting)
    (commands : List Command) :
    (text.foldl Lexer.read (group.foldl Lexer.read ⟨.bare, none, [], commands⟩)).quoting = .bare ∧
    (text.foldl Lexer.read (group.foldl Lexer.read ⟨.bare, none, [], commands⟩)).endCommand.commands =
      commands ++ ((rawGroups quoting group text).map words).filter (· ≠ []) := by
  induction text generalizing quoting group commands with
  | nil =>
    have ends := lexes group List.mem_cons_self commands
    refine ⟨congrArg Lexer.quoting ends, ?_⟩
    exact congrArg Lexer.commands (endCommand_of_endWord ends)
  | cons c rest ih =>
    have later : ∀ mark ∈ marks (quoting.advance c) rest, readApart mark = false :=
      fun mark member => plain mark (List.mem_cons_of_mem _ member)
    unfold rawGroups at lexes ⊢
    rw [List.foldl_cons]
    split at lexes
    · next separator =>
      obtain ⟨bare, cuts⟩ := Bool.and_eq_true_iff.mp separator
      obtain rfl := of_decide_eq_true bare
      rw [if_pos separator]
      have ends := lexes group List.mem_cons_self commands
      have notReturn : c ≠ carriageReturn := by simpa [readApart] using plain (.bare, c) List.mem_cons_self
      have cases_ : c = code ';' ∨ c = code '&' ∨ c = code '|' ∨ c = lineFeed := by
        have listed : c ∈ [code ';', code '&', code '|', carriageReturn, lineFeed] := of_decide_eq_true cuts
        simp only [List.mem_cons, List.not_mem_nil, or_false] at listed
        tauto
      have stays : Quoting.bare.advance c = .bare := by rcases cases_ with rfl | rfl | rfl | rfl <;> rfl
      -- the separator ends the command
      have step : ∀ s : Lexer, s.quoting = .bare → s.read c = s.endCommand := by
        rintro ⟨_, word, before, done⟩ bare_
        obtain rfl := bare_
        rcases cases_ with rfl | rfl | rfl | rfl <;> rfl
      have outside : (group.foldl Lexer.read ⟨.bare, none, [], commands⟩).quoting = .bare :=
        congrArg Lexer.quoting ends
      rw [step _ outside, endCommand_of_endWord ends]
      rw [stays] at later
      obtain ⟨last, all⟩ := ih (fun raw member => lexes raw (List.mem_cons_of_mem _ member)) later rfl
        (commands ++ [words group].filter (· ≠ []))
      have shape : ((group :: rawGroups .bare [] rest).map words).filter (· ≠ []) =
          [words group].filter (· ≠ []) ++ ((rawGroups .bare [] rest).map words).filter (· ≠ []) := by
        rw [List.map_cons, ← List.singleton_append, List.filter_append]
      refine ⟨last, ?_⟩
      rw [shape]
      exact all.trans (List.append_assoc _ _ _)
    · next inside =>
      rw [if_neg inside]
      have next_ := ih lexes later (by rw [after_append, here]; rfl) commands
      rw [List.foldl_append] at next_
      exact next_

variable {raws : List Text} {parsed : List Command}

theorem mapM_groupTokens (splits : (visibleGroups raws).mapM groupTokens = some parsed) :
    (∀ raw ∈ raws, strip raw = [] ∨ ∃ tokens, groupTokens (strip raw) = some tokens) ∧
      parsed = (raws.map groupWords).filter (· ≠ []) := by
  induction raws generalizing parsed with
  | nil =>
    cases splits
    exact ⟨by simp, rfl⟩
  | cons raw rest ih =>
    rw [visibleGroups_cons] at splits
    rw [List.map_cons, List.filter_cons, groupWords]
    by_cases blank : strip raw = []
    · rw [if_pos blank, List.nil_append] at splits
      obtain ⟨all, same⟩ := ih splits
      refine ⟨List.forall_mem_cons.mpr ⟨Or.inl blank, all⟩, ?_⟩
      rw [if_pos blank, same]
      rfl
    · rw [if_neg blank, List.singleton_append, List.mapM_cons] at splits
      obtain ⟨tokens, first, more⟩ := Option.bind_eq_some_iff.mp splits
      obtain ⟨others, later, result⟩ := Option.bind_eq_some_iff.mp more
      cases result
      obtain ⟨all, same⟩ := ih later
      refine ⟨List.forall_mem_cons.mpr ⟨Or.inr ⟨tokens, first⟩, all⟩, ?_⟩
      rw [if_neg blank, first, Option.getD_some, same]
      have some_ := (groupTokens_some first).2
      rw [if_pos (by simpa using some_)]

/-! ## Counting characters -/

/-- A line feed or a backslash counts against the other characters. -/
def balance (text : Text) : Int := (text.map fun c => if c = lineFeed || c = backslash then -1 else 1).sum

theorem balance_append (front back : Text) : balance (front ++ back) = balance front + balance back := by
  unfold balance
  rw [List.map_append, List.sum_append]

/-- What the shell keeps more of a marked character, in the balance. -/
def gap : Quoting × CodePoint → Nat
  | (.bare, c) => if c = carriageReturn then 1 else 0
  | (.escape, c) => if c = lineFeed then 1 else 0
  | (.doubleEscape, c) => if c = lineFeed then 2 else if c = code '$' || c = code '`' then 1 else 0
  | _ => 0

theorem gap_eq_zero_iff (mark : Quoting × CodePoint) : gap mark = 0 ↔ readApart mark = false := by
  obtain ⟨quoting, c⟩ := mark
  cases quoting with
  | bare => by_cases apart : c = carriageReturn <;> simp [gap, readApart, apart]
  | single => simp [gap, readApart]
  | double => simp [gap, readApart]
  | escape => by_cases apart : c = lineFeed <;> simp [gap, readApart, apart]
  | doubleEscape =>
    by_cases line : c = lineFeed
    · simp [gap, readApart, line]
    · by_cases dollar : c = code '$'
      · subst dollar
        decide
      · by_cases accent : c = code '`'
        · subst accent
          decide
        · simp [gap, readApart, line, dollar, accent]

theorem balance_kept (mark : Quoting × CodePoint) : balance (kept mark) = balance (keptByShlex mark) + gap mark := by
  obtain ⟨quoting, c⟩ := mark
  cases quoting with
  | bare =>
    by_cases blank : whitespace c = true
    · rcases whitespace_cases blank with rfl | rfl | rfl | rfl <;> decide
    · have notReturn : c ≠ carriageReturn := fun same => blank (by rw [same]; decide)
      have notBlank : isBlankCode c = false := by
        have space : c ≠ 0x20 := fun same => blank (by rw [same]; decide)
        have tab : c ≠ 0x09 := fun same => blank (by rw [same]; decide)
        simp [isBlankCode, space, tab]
      have same : kept (.bare, c) = keptByShlex (.bare, c) := by simp [kept, keptByShlex, blank, notBlank]
      rw [same, gap, if_neg notReturn]
      exact (Int.add_zero _).symm
  | single => exact (Int.add_zero _).symm
  | double => exact (Int.add_zero _).symm
  | escape =>
    by_cases line : c = lineFeed
    · subst line
      decide
    · rw [kept, if_neg line, gap, if_neg line]
      exact (Int.add_zero _).symm
  | doubleEscape =>
    by_cases line : c = lineFeed
    · subst line
      decide
    · by_cases apart : c = code '$' ∨ c = code '`'
      · rcases apart with rfl | rfl <;> decide
      · have same : doubleEscapes c = (c = doubleQuote || c = backslash) := by
          obtain ⟨dollar, accent⟩ := not_or.mp apart
          simp [doubleEscapes, dollar, accent]
        have none_ : gap (.doubleEscape, c) = 0 := by
          rw [gap, if_neg line, if_neg (by simpa using apart)]
        rw [kept, if_neg line, same, none_]
        exact (Int.add_zero _).symm

theorem balance_flatMap_kept (list : List (Quoting × CodePoint)) :
    balance (list.flatMap kept) = balance (list.flatMap keptByShlex) + ((list.map gap).sum : Nat) := by
  induction list with
  | nil => rfl
  | cons mark rest ih =>
    rw [List.flatMap_cons, List.flatMap_cons, balance_append, balance_append, ih, balance_kept, List.map_cons,
      List.sum_cons]
    push_cast
    omega

/-- What `shlex` keeps of a script it keeps of the groups. -/
theorem keptByShlex_rawGroups {quoting : Quoting} {group text : Text} (here : after .bare group = quoting) :
    (marks .bare group ++ marks quoting text).flatMap keptByShlex =
      (rawGroups quoting group text).flatMap fun raw => (marks .bare raw).flatMap keptByShlex := by
  induction text generalizing quoting group with
  | nil => simp [marks, rawGroups]
  | cons c rest ih =>
    unfold rawGroups
    split
    · next separator =>
      obtain ⟨bare, cuts⟩ := Bool.and_eq_true_iff.mp separator
      obtain rfl := of_decide_eq_true bare
      have listed : c ∈ [code ';', code '&', code '|', carriageReturn, lineFeed] := of_decide_eq_true cuts
      simp only [List.mem_cons, List.not_mem_nil, or_false] at listed
      have nothing : keptByShlex (.bare, c) = [] ∧ Quoting.bare.advance c = .bare := by
        rcases listed with rfl | rfl | rfl | rfl | rfl <;> decide
      rw [List.flatMap_append, List.flatMap_cons, marks, List.flatMap_cons, nothing.1, nothing.2, List.nil_append]
      congr 1
      have later := @ih .bare [] rfl
      exact later
    · have later := @ih (quoting.advance c) (group ++ [c]) (by rw [after_append, here]; rfl)
      rw [marks_append, here, List.append_assoc] at later
      exact later

theorem balance_spaces (spaces : ∀ c ∈ text, isSpaceCode (c : CodePoint) = true) :
    balance ((text.map (Quoting.bare, ·)).flatMap keptByShlex) = ((text.countP fun c => !whitespace c : Nat) : Int) := by
  induction text with
  | nil => rfl
  | cons c rest ih =>
    obtain ⟨_, escape, mark⟩ := advance_space (spaces c List.mem_cons_self)
    have later := ih fun other member => spaces other (List.mem_cons_of_mem _ member)
    rw [List.map_cons, List.flatMap_cons, balance_append, later, List.countP_cons]
    by_cases blank : whitespace c = true
    · have nothing : keptByShlex (.bare, c) = [] := if_pos (by rw [blank]; simp)
      rw [nothing, blank]
      exact Int.zero_add _
    · have single : c ≠ singleQuote := by rintro rfl; exact absurd mark (by decide)
      have double : c ≠ doubleQuote := by rintro rfl; exact absurd mark (by decide)
      have ends : endsCommand c = false := by
        by_contra ends
        have space := spaces c List.mem_cons_self
        have cases_ : c = code ';' ∨ c = code '&' ∨ c = code '|' ∨ c = lineFeed := by
          rw [Bool.not_eq_false] at ends
          simpa [endsCommand, or_assoc] using ends
        rcases cases_ with rfl | rfl | rfl | rfl
        · exact absurd space (by decide)
        · exact absurd space (by decide)
        · exact absurd space (by decide)
        · exact blank (by decide)
      have line : c ≠ lineFeed := by rintro rfl; exact blank (by decide)
      have one : balance (keptByShlex (.bare, c)) = 1 := by
        simp [keptByShlex, balance, single, double, escape, blank, ends, line]
      rw [one, if_pos (by simpa using blank)]
      push_cast
      omega

/-- A group holds the words of the recognizer and what is stripped off it. -/
theorem balance_groupWords {raw : Text} (clean : Clean .bare raw)
    (splits : strip raw = [] ∨ ∃ tokens, groupTokens (strip raw) = some tokens) :
    ∃ edges : Nat, balance ((marks .bare raw).flatMap keptByShlex) = balance (groupWords raw).flatten + edges ∧
      (edges = 0 → BlankEdges raw) := by
  obtain ⟨front, back, same, spaces⟩ := strip_split raw
  have cleanWhole := clean
  rw [same] at clean
  have cleanMiddle := clean_parts spaces clean
  have middle : after .bare (strip raw) = .bare ∧
      (marks .bare (strip raw)).flatMap keptByShlex = (groupWords raw).flatten := by
    unfold groupWords
    by_cases blank : strip raw = []
    · rw [if_pos blank, blank]
      exact ⟨rfl, rfl⟩
    · obtain ⟨tokens, tokens_⟩ := splits.resolve_left blank
      obtain ⟨ends, words⟩ := split_kept cleanMiddle (groupTokens_some tokens_).1
      rw [if_neg blank, tokens_]
      exact ⟨ends, words.symm⟩
  have whole := congrArg (List.flatMap keptByShlex) (marks_parts spaces middle.1)
  rw [← same, List.flatMap_append, List.flatMap_append, middle.2] at whole
  refine ⟨(front.countP fun c => !whitespace c) + back.countP fun c => !whitespace c, ?_, fun none_ => ?_⟩
  · rw [whole, balance_append, balance_append,
      balance_spaces fun c member => spaces c (List.mem_append_left _ member),
      balance_spaces fun c member => spaces c (List.mem_append_right _ member)]
    push_cast
    omega
  · refine ⟨front, back, same, fun c member => ?_⟩
    have blank : whitespace c = true := by
      obtain ⟨noFront, noBack⟩ := Nat.add_eq_zero_iff.mp none_
      rcases List.mem_append.mp member with here | here
      · simpa using List.countP_eq_zero.mp noFront c here
      · simpa using List.countP_eq_zero.mp noBack c here
    have inside : separates c = false := by
      refine cleanWhole (.bare, c) ?_ rfl
      rw [same, marks_parts spaces middle.1]
      rcases List.mem_append.mp member with here | here
      · exact List.mem_append_left _ (List.mem_append_left _ (List.mem_map_of_mem here))
      · exact List.mem_append_right _ (List.mem_map_of_mem here)
    rcases whitespace_cases blank with rfl | rfl | rfl | rfl
    · rfl
    · rfl
    · exact absurd inside (by decide)
    · exact absurd inside (by decide)

theorem balance_groups (clean : ∀ raw ∈ raws, Clean .bare raw)
    (splits : ∀ raw ∈ raws, strip raw = [] ∨ ∃ tokens, groupTokens (strip raw) = some tokens) :
    ∃ edges : Nat, balance (raws.flatMap fun raw => (marks .bare raw).flatMap keptByShlex) =
        balance (raws.map groupWords).flatten.flatten + edges ∧
      (edges = 0 → ∀ raw ∈ raws, BlankEdges raw) := by
  induction raws with
  | nil => exact ⟨0, rfl, by simp⟩
  | cons raw rest ih =>
    obtain ⟨here, now, first⟩ := balance_groupWords (clean raw List.mem_cons_self) (splits raw List.mem_cons_self)
    obtain ⟨there, later, others⟩ := ih (fun other member => clean other (List.mem_cons_of_mem _ member))
      fun other member => splits other (List.mem_cons_of_mem _ member)
    refine ⟨here + there, ?_, fun none_ => ?_⟩
    · rw [List.flatMap_cons, balance_append, now, later, List.map_cons, List.flatten_cons, List.flatten_append,
        balance_append]
      push_cast
      omega
    · obtain ⟨noneHere, noneThere⟩ := Nat.add_eq_zero_iff.mp none_
      exact List.forall_mem_cons.mpr ⟨first noneHere, others noneThere⟩

/-- The marks of a group are marks of the script. -/
theorem marks_rawGroups {quoting : Quoting} {group text : Text} (here : after .bare group = quoting) :
    ∀ raw ∈ rawGroups quoting group text, ∀ mark ∈ marks .bare raw,
      mark ∈ marks .bare group ++ marks quoting text := by
  induction text generalizing quoting group with
  | nil => simp [rawGroups, marks]
  | cons c rest ih =>
    unfold rawGroups
    split
    · next separator =>
      obtain ⟨bare, cuts⟩ := Bool.and_eq_true_iff.mp separator
      obtain rfl := of_decide_eq_true bare
      have listed : c ∈ [code ';', code '&', code '|', carriageReturn, lineFeed] := of_decide_eq_true cuts
      have stays : Quoting.bare.advance c = .bare := by
        simp only [List.mem_cons, List.not_mem_nil, or_false] at listed
        rcases listed with rfl | rfl | rfl | rfl | rfl <;> rfl
      rw [marks, stays]
      refine List.forall_mem_cons.mpr ⟨fun mark member => List.mem_append_left _ member, ?_⟩
      intro raw member mark inside
      have later := @ih .bare [] rfl raw member mark inside
      exact List.mem_append_right _ (List.mem_cons_of_mem _ later)
    · intro raw member mark inside
      have later := @ih (quoting.advance c) (group ++ [c]) (by rw [after_append, here]; rfl) raw member mark inside
      rw [marks_append, here, List.append_assoc] at later
      exact later

/-! ## Recognized scripts -/

/-- A shell reads the script as the recognizer does: no character is read apart, and only blanks are
stripped off a group. -/
structure ReadAlike (script : Text) : Prop where
  together : ∀ mark ∈ marks .bare script, readApart mark = false
  edges : ∀ group ∈ rawGroups .bare [] script, BlankEdges group

theorem shellCommands_eq_iff {script : Text}
    (splits : (visibleGroups (rawGroups .bare [] script)).mapM groupTokens = some parsed) :
    shellCommands script = some parsed ↔ ReadAlike script := by
  obtain ⟨all, same⟩ := mapM_groupTokens splits
  have clean : ∀ raw ∈ rawGroups .bare [] script, Clean .bare raw := rawGroups_clean (by simp [Clean, marks]) rfl
  constructor
  · intro lexed
    have contents := shellCommands_contents lexed
    have kept_ := balance_flatMap_kept (marks .bare script)
    rw [← contents] at kept_
    have groups : (marks .bare script).flatMap keptByShlex =
        (rawGroups .bare [] script).flatMap fun raw => (marks .bare raw).flatMap keptByShlex :=
      @keptByShlex_rawGroups .bare [] script rfl
    obtain ⟨edges, counted, blank⟩ := balance_groups clean all
    rw [groups, counted, same, List.flatten_filter_ne_nil] at kept_
    have nothing : edges = 0 ∧ ((marks .bare script).map gap).sum = 0 := by omega
    refine ⟨fun mark member => ?_, blank nothing.1⟩
    exact (gap_eq_zero_iff mark).mp (List.sum_eq_zero_iff_forall_eq_nat.mp nothing.2 _ (List.mem_map_of_mem member))
  · rintro ⟨together, edges⟩
    have lexes : ∀ raw ∈ rawGroups .bare [] script, LexesTo raw (groupWords raw) := by
      intro raw member
      refine lexesTo_groupWords (clean raw member) (all raw member) ?_ (edges raw member)
      exact fun mark inside => together mark (@marks_rawGroups .bare [] script rfl raw member mark inside)
    obtain ⟨ends, commands⟩ := foldl_rawGroups lexes together rfl []
    unfold shellCommands
    rw [same]
    exact (if_pos ends).trans (congrArg some commands)

section
variable {casing : Casing}

theorem recognizedCommands_some {script : Text} {parsed : List Command}
    (recognized : recognizedCommands casing script = some parsed) :
    (visibleGroups (rawGroups .bare [] script)).mapM groupTokens = some parsed ∧
      ∀ tokens ∈ parsed, namesGit casing tokens = true := by
  obtain ⟨groups, splits, more⟩ := Option.bind_eq_some_iff.mp recognized
  obtain ⟨tokens, parses, all⟩ := Option.bind_eq_some_iff.mp more
  obtain ⟨found, cuts, ends⟩ := Option.bind_eq_some_iff.mp splits
  split at all
  · next literal =>
    cases all
    have same : found = groups := by
      split at ends
      · cases ends
      · split at ends
        · cases ends
        · exact Option.some.inj ends
    have pieces := splitFrom_eq (by simp) cuts
    rw [same] at pieces
    change groups = visibleGroups (rawGroups .bare [] script) at pieces
    rw [← pieces]
    refine ⟨parses, fun command member => ?_⟩
    exact (Bool.and_eq_true_iff.mp (List.all_eq_true.mp literal command member)).1
  · cases all

/-- The commands of a recognized script start with Git, and a shell runs exactly these commands when
it reads the script as the recognizer does, and otherwise not. -/
theorem literalGitCommands_sound_iff {script : Text} {groups : List Command}
    (literal : literalGitCommands casing script = some groups) :
    ∃ parsed, recognizedCommands casing script = some parsed ∧ groups = parsed.map (fun tokens => tokens.drop 1) ∧
      (∀ tokens ∈ parsed, namesGit casing tokens = true) ∧
      (shellCommands script = some parsed ↔ ReadAlike script) := by
  obtain ⟨parsed, recognized, rfl⟩ := Option.map_eq_some_iff.mp literal
  obtain ⟨splits, git⟩ := recognizedCommands_some recognized
  exact ⟨parsed, recognized, rfl, git, shellCommands_eq_iff splits⟩

end

/-- The casing of texts in small letters. -/
def smallCasing : Casing := ⟨id, id⟩

def quotedScript : Text := textOf "git commit -m \"a; b\" && git 'log' --oneline | git \\status\n"

theorem literalGitCommands_sound_iff_quotedScript :
    (∃ groups, literalGitCommands smallCasing quotedScript = some groups) ∧ ReadAlike quotedScript := by
  have literal : literalGitCommands smallCasing quotedScript = some
      [["commit", "-m", "a; b"].map textOf, ["log", "--oneline"].map textOf, ["status"].map textOf] := by
    decide +kernel
  obtain ⟨parsed, recognized, _, _, sound⟩ := literalGitCommands_sound_iff literal
  have same : recognizedCommands smallCasing quotedScript = shellCommands quotedScript := by decide +kernel
  exact ⟨⟨_, literal⟩, sound.mp (same.symm.trans recognized)⟩

/-- A line that holds a no-break space is a command of its own, which the recognizer passes over. -/
def spacedScript : Text := textOf "git status\n\u00a0\ngit log"

theorem noBreakSpace_not_recognized :
    literalGitCommands smallCasing spacedScript = some [[textOf "status"], [textOf "log"]] ∧
      shellCommands spacedScript =
        some [["git", "status"].map textOf, [textOf "\u00a0"], ["git", "log"].map textOf] := by
  decide +kernel

end Loushang.Policy
