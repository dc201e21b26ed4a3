import Loushang.Lib.Loop
import Loushang.Policy.WrapperOptions

/-!
# Unwrapping `env`

`_unwrap_env_command` and the functions under it: the options and operands of `env` are taken off
the front of a command. A result also lists the rewrites made on the way: strings split into
words, and shells put before a command.
-/
namespace Loushang.Policy
open Lib

inductive Rewrite where
  | words (value : Text)
  | shell (command : Command)
  deriving DecidableEq

/-- A command, whether it was understood so far, and the rewrites that made it. -/
structure Unwrapped where
  command : Command
  complete : Bool
  rewrites : List Rewrite
  deriving DecidableEq

/-- A part of the work after what has been done. -/
def Unwrapped.andThen (s part : Unwrapped) : Unwrapped :=
  ⟨part.command, s.complete && part.complete, s.rewrites ++ part.rewrites⟩

/-! ## Operands -/

def isEnvOperand (token : Text) : Bool := token.contains (code '=')

def envOperandChangesCommandProjection (token : Text) : Bool :=
  (partition token).2.1 && (partition token).1 ∈ projectionNames

/-- `while command and operand(command[0])`: the operands in front are left out. -/
def dropOperands (operand : Text → Bool) : Command → Bool → Command × Bool
  | [], complete => ([], complete)
  | token :: rest, complete =>
    if operand token then
      dropOperands operand rest (complete && !envOperandChangesCommandProjection token)
    else (token :: rest, complete)

/-! ## `env` -/

def splitEnvString (value : Text) (remainder : Command) : Command :=
  match Shlex.split value with
  | .ok tokens => tokens ++ remainder
  | .error _ => textOf "sh" :: textOf "-lc" :: value :: remainder

/-- A string split into words in front of the remainder. -/
def resplit (value : Text) (remainder : Command) : Unwrapped :=
  ⟨splitEnvString value remainder, false, [.words value]⟩

/-- The loop over the letters of a cluster. -/
def unwrapEnvCluster (remainder : Command) : Text → Bool → Unwrapped
  | [], complete => ⟨remainder, complete, []⟩
  | option :: attached, complete =>
    let complete := complete && option ≠ code 'i'
    if option ∉ envShortValueOptions then
      unwrapEnvCluster remainder attached (complete && option ∈ envShortNoValueOptions)
    else if option = code 'S' then
      if attached ≠ [] then resplit attached remainder
      else match remainder with
        | [] => ⟨[], false, []⟩
        | value :: more => resplit value more
    else
      let complete := complete && option ≠ code 'C' && option ≠ code 'f' && option ≠ code 'a' &&
        !(option = code 'u' && (attached ∈ projectionNames ||
          attached = [] && remainder.head?.any (· ∈ projectionNames)))
      if attached ≠ [] then ⟨remainder, complete, []⟩ else ⟨remainder.drop 1, complete, []⟩

def unwrapEnvShortOptions (token : Text) (remainder : Command) : Unwrapped :=
  match token.drop 1 with
  | [] => ⟨remainder, false, []⟩
  | cluster => unwrapEnvCluster remainder cluster true

/-- The branch for a long option. -/
def envLongStep (head : Text) (rest : Command) : Pass Unwrapped Unwrapped :=
  let separator := (partition head).2.1
  let attachedValue := (partition head).2.2
  match resolveLongOption (partition head).1 envLongOptions with
  | none => .next ⟨rest, false, []⟩
  | some option =>
    if option = textOf "--split-string" then
      if separator then .next (resplit attachedValue rest)
      else match rest with
        | [] => .stop ⟨[], false, []⟩
        | value :: more => .next (resplit value more)
    else if option ∈ envLongValueOptions then
      let optionValue := if separator then some attachedValue else rest.head?
      let complete := option ∉ ["--chdir", "--argv0", "--file"].map textOf &&
        !(option = textOf "--unset" && optionValue.any (· ∈ projectionNames))
      if separator then .next ⟨rest, complete, []⟩
      else match rest with
        | [] => .stop ⟨[], complete, []⟩
        | _ :: more => .next ⟨more, complete, []⟩
    else .next ⟨rest, true, []⟩

/-- One pass of the loop of `_unwrap_env_command`, at a command. -/
def envStep : Command → Pass Unwrapped Unwrapped
  | [] => .stop ⟨[], true, []⟩
  | head :: rest =>
    if head = dashes then
      .stop ⟨(dropOperands isEnvOperand rest true).1, (dropOperands isEnvOperand rest true).2, []⟩
    else if head ∈ envNoValueOptions then
      .next ⟨rest, head ∉ ["-i", "--ignore-environment"].map textOf, []⟩
    else if head = textOf "-S" then
      match rest with
      | [] => .stop ⟨[], false, []⟩
      | value :: more => .next (resplit value more)
    else if startsWith head (textOf "-S") && 2 < head.length then .next (resplit (head.drop 2) rest)
    else if head ∈ envValueOptions && !startsWith head dashes then
      match rest with
      | [] => .stop ⟨[], head ≠ textOf "-C", []⟩
      | value :: more =>
        .next ⟨more, head ∉ ["-C", "-a", "-f"].map textOf && !(head = textOf "-u" && value ∈ projectionNames), []⟩
    else if startsWith head dashes then envLongStep head rest
    else if startsWith head dash then .next (unwrapEnvShortOptions head rest)
    else if envOperandChangesCommandProjection head then .next ⟨rest, false, []⟩
    else if startsWith head dash || isEnvOperand head then .next ⟨rest, true, []⟩
    else .stop ⟨head :: rest, true, []⟩

/-- A pass that goes on from what has been done. -/
def envPass (s : Unwrapped) : Pass Unwrapped Unwrapped :=
  match envStep s.command with
  | .stop part => .stop (s.andThen part)
  | .next part => .next (s.andThen part)

/-! ## The measure -/

/-- The length of a command, none for a command that starts with `sh`, where every loop ends. -/
def commandSize (command : Command) : Nat := if command.head? = some (textOf "sh") then 0 else Shlex.weight command

theorem commandSize_le (command : Command) : commandSize command ≤ Shlex.weight command := by
  unfold commandSize
  split
  · exact Nat.zero_le _
  · exact Nat.le_refl _

theorem weight_drop (command : Command) (n : Nat) : Shlex.weight (command.drop n) ≤ Shlex.weight command := by
  have split := congrArg Shlex.weight (List.take_append_drop n command)
  rw [Shlex.weight_append] at split
  omega

variable {head : Text}

/-- What is left behind a token. -/
theorem commandSize_drop (other : head ≠ textOf "sh") (rest : Command) (n : Nat) :
    commandSize (rest.drop n) < commandSize (head :: rest) := by
  have small := commandSize_le (rest.drop n)
  have shorter := weight_drop rest n
  have whole : commandSize (head :: rest) = Shlex.weight (head :: rest) :=
    if_neg fun same => other (Option.some.inj same)
  rw [whole, Shlex.weight_cons]
  omega

/-- Words take no more room than their string; a command that cannot be split starts with `sh`. -/
theorem commandSize_splitEnvString (value : Text) (remainder : Command) :
    commandSize (splitEnvString value remainder) ≤ value.length + 1 + Shlex.weight remainder := by
  unfold splitEnvString
  split
  · next tokens read =>
    have bound := Shlex.weight_split read
    have small := commandSize_le (tokens ++ remainder)
    rw [Shlex.weight_append] at small
    omega
  · exact Nat.zero_le _

theorem dropOperands_drop (operand : Text → Bool) (command : Command) (complete : Bool) :
    ∃ n, (dropOperands operand command complete).1 = command.drop n := by
  induction command generalizing complete with
  | nil => exact ⟨0, rfl⟩
  | cons token rest ih =>
    unfold dropOperands
    split
    · obtain ⟨n, same⟩ := ih (complete && !envOperandChangesCommandProjection token)
      exact ⟨n + 1, same⟩
    · exact ⟨0, rfl⟩

/-! ## What a part does -/

/-- A part that rewrites does not count as complete; what a complete one drops has a property. -/
structure Drops (P : List Text → Prop) (start : Command) (part : Unwrapped) : Prop where
  rewritten : part.rewrites ≠ [] → part.complete = false
  reads : part.complete = true → ∃ read, Reads read start part.command ∧ P read

variable {P Q : List Text → Prop} {start : Command} {s part : Unwrapped}

theorem Drops.andThen {R : List Text → Prop} (both : ∀ read again, P read → Q again → R (read ++ again))
    (one : Drops P start s) (two : Drops Q s.command part) : Drops R start (s.andThen part) := by
  constructor
  · intro some_
    show (s.complete && part.complete) = false
    by_cases kept : s.rewrites = []
    · have later : part.rewrites ≠ [] := fun none_ => some_ (by rw [Unwrapped.andThen, kept, none_]; rfl)
      rw [two.rewritten later, Bool.and_false]
    · rw [one.rewritten kept, Bool.false_and]
  · intro complete
    obtain ⟨first, second⟩ := Bool.and_eq_true_iff.mp complete
    obtain ⟨read, reads, holds⟩ := one.reads first
    obtain ⟨again, more, holdsToo⟩ := two.reads second
    exact ⟨read ++ again, reads.append more, both read again holds holdsToo⟩

theorem Drops.mono (weaker : ∀ read, P read → Q read) (drops : Drops P start part) : Drops Q start part :=
  ⟨drops.rewritten, fun complete =>
    have ⟨read, reads, holds⟩ := drops.reads complete
    ⟨read, reads, weaker read holds⟩⟩

/-- A complete part drops wrapping alone. -/
def Honest : Command → Unwrapped → Prop := Drops fun read => ∀ token ∈ read, isWrapping token = true

theorem Honest.andThen (one : Honest start s) (two : Honest s.command part) : Honest start (s.andThen part) :=
  Drops.andThen (fun _ _ wraps wrapsToo => List.forall_mem_append.mpr ⟨wraps, wrapsToo⟩) one two

theorem Honest.done (command : Command) (complete : Bool) : Honest command ⟨command, complete, []⟩ :=
  ⟨fun some_ => absurd rfl some_, fun _ => ⟨[], .done command, by simp⟩⟩

theorem Honest.resplit (start : Command) (value : Text) (remainder : Command) :
    Honest start (resplit value remainder) :=
  ⟨fun _ => rfl, nofun⟩

/-- A token is dropped, with its value when it takes one. -/
theorem Honest.drop {rest left : Command} {complete : Bool}
    (wraps : complete = true → isWrapping head = true ∧ left = skip head rest) :
    Honest (head :: rest) ⟨left, complete, []⟩ := by
  refine ⟨fun some_ => absurd rfl some_, fun all => ?_⟩
  obtain ⟨known, rfl⟩ := wraps all
  exact ⟨[head], .token (.done _), by simpa using known⟩

/-- Operands are dropped. -/
theorem Honest.operands (operand : Text → Bool) (assigns : ∀ token, operand token = true → code '=' ∈ token)
    (command : Command) (complete : Bool) :
    ((dropOperands operand command complete).2 = true → complete = true) ∧
    Honest command ⟨(dropOperands operand command complete).1, (dropOperands operand command complete).2, []⟩ := by
  induction command generalizing complete with
  | nil => exact ⟨id, .done [] complete⟩
  | cons token rest ih =>
    unfold dropOperands
    split
    · next dropped =>
      obtain ⟨kept, honest⟩ := ih (complete && !envOperandChangesCommandProjection token)
      refine ⟨fun all => (Bool.and_eq_true_iff.mp (kept all)).1, ?_⟩
      constructor
      · exact fun some_ => absurd rfl some_
      · intro all
        obtain ⟨read, reads, wraps⟩ := honest.reads all
        have inside := assigns token dropped
        have unchanged := (Bool.and_eq_true_iff.mp (kept all)).2
        refine ⟨token :: read, .token ?_, List.forall_mem_cons.mpr ⟨?_, wraps⟩⟩
        · rw [skip_plain (takesValue_assignment inside)]
          exact reads
        · have separated : (partition token).2.1 = true := by simpa [partition] using inside
          have plain : isPlainAssignment token = true := by
            simpa [isPlainAssignment, envOperandChangesCommandProjection, separated] using unchanged
          rw [isWrapping, plain, Bool.or_true]
    · exact ⟨id, .done _ _⟩

theorem envOption_wraps {takes : Bool} (known : envOptions.takes head = some takes) :
    isWrapping head = true ∧ ∀ rest, skip head rest = if takes then rest.drop 1 else rest := by
  constructor
  · rw [isWrapping, isOption, known]
    simp
  · intro rest
    rw [skip, takesValue_env known]

/-- What the letters of a cluster come to: words for a string, or the remainder without the value
of the last option. -/
theorem unwrapEnvCluster_cases (remainder : Command) (cluster : Text) (complete : Bool) :
    (∃ value more, unwrapEnvCluster remainder cluster complete = resplit value more ∧
      value.length + 1 + Shlex.weight more ≤ cluster.length + Shlex.weight remainder) ∨
    ∃ n all, unwrapEnvCluster remainder cluster complete = ⟨remainder.drop n, all, []⟩ ∧
      (all = true → complete = true ∧ ∃ takes, envOptions.cluster cluster = some takes ∧
        remainder.drop n = if takes then remainder.drop 1 else remainder) := by
  induction cluster generalizing complete with
  | nil => exact Or.inr ⟨0, complete, rfl, fun all => ⟨all, false, rfl, rfl⟩⟩
  | cons option attached ih =>
    unfold unwrapEnvCluster
    split
    · next flag =>
      rcases ih (complete && option ≠ code 'i' && option ∈ envShortNoValueOptions) with
        ⟨value, more, same, small⟩ | ⟨n, all, same, known⟩
      · refine Or.inl ⟨value, more, same, ?_⟩
        rw [List.length_cons]
        omega
      · refine Or.inr ⟨n, all, same, fun yes => ?_⟩
        obtain ⟨before, takes, reads, left⟩ := known yes
        simp only [Bool.and_eq_true, decide_eq_true_eq] at before
        refine ⟨before.1.1, takes, ?_, left⟩
        have unlettered : option ∉ envOptions.letters := fun listed => flag (List.mem_filter.mp listed).1
        unfold Options.cluster
        rw [if_neg unlettered, if_pos (show option ∈ envOptions.flags from before.2)]
        exact reads
    · next valued =>
      rw [not_not] at valued
      split
      · split
        · refine Or.inl ⟨attached, remainder, rfl, ?_⟩
          rw [List.length_cons]
        · cases remainder with
          | nil => exact Or.inr ⟨0, false, rfl, by simp⟩
          | cons value more =>
            refine Or.inl ⟨value, more, rfl, ?_⟩
            rw [Shlex.weight_cons]
            omega
      · next other =>
        have lettered : option ∈ envOptions.letters := List.mem_filter.mpr ⟨valued, by simpa using other⟩
        have reads : envOptions.cluster (option :: attached) = some attached.isEmpty := if_pos lettered
        split
        · next attached_ =>
          refine Or.inr ⟨0, _, rfl, fun all => ?_⟩
          simp only [Bool.and_eq_true] at all
          refine ⟨all.1.1.1.1.1, false, ?_, rfl⟩
          rw [reads, List.isEmpty_eq_false_iff.mpr attached_]
        · next bare =>
          rw [not_not] at bare
          refine Or.inr ⟨1, _, rfl, fun all => ?_⟩
          simp only [Bool.and_eq_true] at all
          refine ⟨all.1.1.1.1.1, true, ?_, rfl⟩
          rw [reads, bare]
          rfl

/-! ## The loop of `env` -/

theorem envStep_sh (rest : Command) : envStep (textOf "sh" :: rest) = .stop ⟨textOf "sh" :: rest, true, []⟩ := by
  rfl

/-- What a part leaves and drops, where a loop goes on and where it ends. -/
def Shrinks (start : Command) : Pass Unwrapped Unwrapped → Prop
  | .next part => commandSize part.command < commandSize start ∧ Honest start part
  | .stop part => commandSize part.command ≤ commandSize start ∧ Honest start part

section
variable {head : Text} {rest : Command} (other : head ≠ textOf "sh")
include other

/-- A pass that drops the head, and its value when it takes one. -/
theorem shrinks_drop {left : Command} {all : Bool} (n : Nat) (tail : left = rest.drop n)
    (wraps : all = true → isWrapping head = true ∧ left = skip head rest) :
    Shrinks (head :: rest) (.next ⟨left, all, []⟩) := by
  subst tail
  exact ⟨commandSize_drop other rest n, .drop wraps⟩

omit other in
/-- A pass at an option whose value is missing. -/
theorem shrinks_missing {all : Bool} (wraps : all = true → isWrapping head = true) :
    Shrinks [head] (.stop ⟨[], all, []⟩) := by
  refine ⟨Nat.zero_le _, .drop fun yes => ⟨wraps yes, ?_⟩⟩
  unfold skip
  split <;> rfl

/-- A pass that splits a string of the head or behind it. -/
theorem shrinks_resplit {value : Text} {more : Command}
    (small : value.length + Shlex.weight more < head.length + Shlex.weight rest) :
    Shrinks (head :: rest) (.next (resplit value more)) := by
  refine ⟨?_, .resplit _ value more⟩
  have bound := commandSize_splitEnvString value more
  have whole : commandSize (head :: rest) = Shlex.weight (head :: rest) :=
    if_neg fun same => other (Option.some.inj same)
  rw [whole, Shlex.weight_cons]
  change commandSize (splitEnvString value more) < _
  omega

/-- A string split behind the head, or none there. -/
theorem shrinks_resplit_next :
    Shrinks (head :: rest) (match rest with
      | [] => .stop ⟨[], false, []⟩
      | value :: more => .next (resplit value more)) := by
  cases rest with
  | nil => exact ⟨Nat.zero_le _, .drop nofun⟩
  | cons value more =>
    refine shrinks_resplit other ?_
    rw [Shlex.weight_cons]
    omega

theorem envLongStep_shrinks (long : startsWith head dashes = true) (ends : head ≠ dashes) :
    Shrinks (head :: rest) (envLongStep head rest) := by
  unfold envLongStep
  dsimp only
  split
  · exact shrinks_drop other 0 rfl nofun
  · next option resolved =>
    have takes : envOptions.takes head = some (option ∈ envLongValueOptions && !(partition head).2.1) := by
      unfold Options.takes
      rw [if_neg ends, if_pos long]
      change Option.map _ (resolveLongOption (partition head).1 envLongOptions) = _
      rw [resolved]
      rfl
    have wraps := envOption_wraps takes
    split
    · split
      · next separated =>
        refine shrinks_resplit other ?_
        have inside : code '=' ∈ head := by simpa [partition] using separated
        have shorter : (partition head).2.2.length < head.length := by
          have nonempty : head.length ≠ 0 := List.length_pos_iff.mpr (List.ne_nil_of_mem inside) |>.ne'
          have suffix := (List.dropWhile_suffix (l := head) (· ≠ code '=')).length_le
          unfold partition
          rw [List.length_drop]
          omega
        omega
      · exact shrinks_resplit_next other
    · split
      · next valued =>
        split
        · next separated =>
          refine shrinks_drop other 0 rfl fun _ => ⟨wraps.1, ?_⟩
          rw [wraps.2, separated, Bool.not_true, Bool.and_false]
          rfl
        · next bare =>
          cases rest with
          | nil => exact shrinks_missing fun _ => wraps.1
          | cons value more =>
            refine shrinks_drop other 1 rfl fun _ => ⟨wraps.1, ?_⟩
            rw [wraps.2, decide_eq_true valued, (Bool.not_eq_true _).mp bare]
            rfl
      · next flag =>
        refine shrinks_drop other 0 rfl fun _ => ⟨wraps.1, ?_⟩
        rw [wraps.2, decide_eq_false flag, Bool.false_and]
        rfl

theorem unwrapEnvShortOptions_shrinks (short : startsWith head dash = true) (long : startsWith head dashes ≠ true) :
    Shrinks (head :: rest) (.next (unwrapEnvShortOptions head rest)) := by
  unfold unwrapEnvShortOptions
  split
  · exact shrinks_drop other 0 rfl nofun
  · next bare =>
    have length : head.length = (head.drop 1).length + 1 := by
      cases head with
      | nil => exact absurd rfl bare
      | cons first cluster => rfl
    rcases unwrapEnvCluster_cases rest (head.drop 1) true with ⟨value, more, same, small⟩ | ⟨n, all, same, known⟩
    · rw [same]
      refine shrinks_resplit other ?_
      omega
    · rw [same]
      refine shrinks_drop other n rfl fun yes => ?_
      obtain ⟨_, takes, reads, left⟩ := known yes
      have option : envOptions.takes head = some takes := by
        have notEnd : head ≠ dashes := fun same => long (by rw [same]; rfl)
        have notDash : head ≠ dash := fun same => bare (by rw [same]; rfl)
        unfold Options.takes
        rw [if_neg notEnd, if_neg long, short, decide_eq_true notDash]
        exact reads
      have wraps := envOption_wraps option
      exact ⟨wraps.1, by rw [wraps.2, left]⟩

end

/-- What one pass of the loop of `_unwrap_env_command` does. -/
theorem envStep_shrinks (command : Command) : Shrinks command (envStep command) := by
  cases command with
  | nil => exact ⟨Nat.le_refl _, .done [] true⟩
  | cons head rest =>
  by_cases shell : head = textOf "sh"
  · rw [shell, envStep_sh]
    exact ⟨Nat.le_refl _, .done _ true⟩
  dsimp only [envStep]
  by_cases ends : head = dashes
  · rw [if_pos ends]
    have operands := (Honest.operands isEnvOperand (by simp [isEnvOperand]) rest true).2
    obtain ⟨n, left⟩ := dropOperands_drop isEnvOperand rest true
    refine ⟨?_, ?_⟩
    · rw [left]
      exact Nat.le_of_lt (commandSize_drop shell rest n)
    · have known : envOptions.takes head = some false := by rw [ends]; rfl
      have wraps := envOption_wraps known
      have first : Honest (head :: rest) ⟨rest, true, []⟩ := .drop fun _ => ⟨wraps.1, (wraps.2 rest).symm⟩
      exact first.andThen operands
  rw [if_neg ends]
  by_cases flag : head ∈ envNoValueOptions
  · rw [if_pos flag]
    refine shrinks_drop shell 0 rfl fun _ => ?_
    have known : envOptions.takes head = some false :=
      of_decide_eq_true (List.all_eq_true.mp (by decide :
        (envNoValueOptions.all fun o => envOptions.takes o = some false) = true) head flag)
    have wraps := envOption_wraps known
    exact ⟨wraps.1, (wraps.2 rest).symm⟩
  rw [if_neg flag]
  by_cases splits : head = textOf "-S"
  · rw [if_pos splits]
    exact shrinks_resplit_next shell
  rw [if_neg splits]
  by_cases attached : (startsWith head (textOf "-S") && 2 < head.length) = true
  · rw [if_pos attached]
    refine shrinks_resplit shell ?_
    have long := (Bool.and_eq_true_iff.mp attached).2
    rw [decide_eq_true_eq] at long
    rw [List.length_drop]
    omega
  rw [if_neg attached]
  by_cases valued : (head ∈ envValueOptions && !startsWith head dashes) = true
  · rw [if_pos valued]
    obtain ⟨listed, short⟩ := Bool.and_eq_true_iff.mp valued
    have known : envOptions.takes head = some true := by
      have all := List.all_eq_true.mp (by decide : (envValueOptions.all fun o =>
        startsWith o dashes || o = textOf "-S" || envOptions.takes o = some true) = true) head (of_decide_eq_true listed)
      rw [Bool.not_eq_true'] at short
      simpa [short, splits] using all
    have wraps := envOption_wraps known
    cases rest with
    | nil => exact shrinks_missing fun _ => wraps.1
    | cons value more => exact shrinks_drop shell 1 rfl fun _ => ⟨wraps.1, by rw [wraps.2]; rfl⟩
  rw [if_neg valued]
  by_cases long : startsWith head dashes = true
  · rw [if_pos long]
    exact envLongStep_shrinks shell long ends
  rw [if_neg long]
  by_cases short : startsWith head dash = true
  · rw [if_pos short]
    exact unwrapEnvShortOptions_shrinks shell short long
  rw [if_neg short]
  by_cases changes : envOperandChangesCommandProjection head = true
  · rw [if_pos changes]
    exact shrinks_drop shell 0 rfl nofun
  rw [if_neg changes]
  by_cases operand : (startsWith head dash || isEnvOperand head) = true
  · rw [if_pos operand]
    have assigns : code '=' ∈ head := by simpa [short, isEnvOperand] using operand
    have plain : isPlainAssignment head = true := by
      have separated : (partition head).2.1 = true := by simpa [partition] using assigns
      simpa [isPlainAssignment, envOperandChangesCommandProjection, separated] using changes
    refine shrinks_drop shell 0 rfl fun _ => ⟨by rw [isWrapping, plain, Bool.or_true], ?_⟩
    rw [skip_plain (takesValue_assignment assigns)]
  · rw [if_neg operand]
    exact ⟨Nat.le_refl _, .done _ true⟩

theorem Unwrapped.andThen_assoc (s part more : Unwrapped) :
    (s.andThen part).andThen more = s.andThen (part.andThen more) := by
  simp [Unwrapped.andThen, Bool.and_assoc]

theorem envPass_lowers (s later : Unwrapped) (pass : envPass s = .next later) :
    commandSize later.command < commandSize s.command := by
  have shrinks := envStep_shrinks s.command
  unfold envPass at pass
  split at pass
  · cases pass
  · next part step =>
    cases pass
    rw [step] at shrinks
    exact shrinks.1

/-- `_unwrap_env_command`. -/
def unwrapEnvCommand (command : Command) : Unwrapped :=
  Loop.run envPass (fun s => commandSize s.command) envPass_lowers ⟨command, true, []⟩

theorem envPass_ends {r : Unwrapped} (ends : Loop.Ends envPass s r) :
    ∃ part, r = s.andThen part ∧ commandSize part.command ≤ commandSize s.command ∧ Honest s.command part := by
  induction ends with
  | @stop s r last =>
    have shrinks := envStep_shrinks s.command
    unfold envPass at last
    split at last
    · next part step =>
      cases last
      rw [step] at shrinks
      exact ⟨part, rfl, shrinks⟩
    · cases last
  | @next s later r pass _ ih =>
    have shrinks := envStep_shrinks s.command
    unfold envPass at pass
    split at pass
    · cases pass
    · next part step =>
      cases pass
      rw [step] at shrinks
      obtain ⟨more, rfl, smaller, honest⟩ := ih
      refine ⟨part.andThen more, Unwrapped.andThen_assoc s part more, ?_, shrinks.2.andThen honest⟩
      exact Nat.le_trans smaller (Nat.le_of_lt shrinks.1)

/-- The loop of `env` leaves no more than it is given, and drops wrapping alone. -/
theorem unwrapEnvCommand_honest (command : Command) :
    commandSize (unwrapEnvCommand command).command ≤ commandSize command ∧
      Honest command (unwrapEnvCommand command) := by
  obtain ⟨part, same, smaller, honest⟩ := envPass_ends
    (Loop.ends_run envPass (fun s => commandSize s.command) envPass_lowers ⟨command, true, []⟩)
  have whole : unwrapEnvCommand command = part := same
  rw [whole]
  exact ⟨smaller, honest⟩

end Loushang.Policy
