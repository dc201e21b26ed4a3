import Loushang.Policy.Shlex
import Mathlib.Data.List.Infix
import Mathlib.Data.List.TakeWhile

/-!
# The options of `env` and `sudo`

The option tables, the resolution of abbreviated long options, and how dropped tokens read:
from the left, an option that takes the next token being read together with it.
-/
namespace Loushang.Policy
open Lib

abbrev Command := List Text

def code (c : Char) : CodePoint := ⟨c.toNat, toNat_lt_codePoint c⟩

def dash : Text := textOf "-"
def dashes : Text := textOf "--"

def startsWith (text front : Text) : Bool := front.isPrefixOf text

/-- `token.partition("=")`, the separator as whether it is there. -/
def partition (token : Text) : Text × Bool × Text :=
  (token.takeWhile (· ≠ code '='), token.contains (code '='), (token.dropWhile (· ≠ code '=')).drop 1)

/-- `posixpath.basename`. -/
def basename (path : Text) : Text := (path.reverse.takeWhile (· ≠ code '/')).reverse

/-! ## Tables -/

def shellEntryBasenames : List Text :=
  ["sh", "ash", "bash", "dash", "fish", "hush", "ksh", "msh", "rbash", "rzsh", "rksh", "zsh"].map textOf

def multicallEntryBasenames : List Text := ["busybox", "busybox.static", "toybox"].map textOf

def multicallControlApplets : List Text := shellEntryBasenames ++ [textOf "env"]

def shellStartupEnvironmentNames : List Text := ["BASH_ENV", "ENV"].map textOf

/-- `{"PATH", *_SHELL_STARTUP_ENVIRONMENT_NAMES}`. -/
def projectionNames : List Text := textOf "PATH" :: shellStartupEnvironmentNames

def leadingWrapperBasenames : List Text := ["env", "sudo"].map textOf

def envNoValueOptions : List Text :=
  ["-i", "--ignore-environment", "-0", "--null", "-v", "--debug", "--block-signal", "--default-signal",
    "--ignore-signal"].map textOf

def envValueOptions : List Text :=
  ["-u", "--unset", "-C", "--chdir", "-S", "--split-string", "-a", "--argv0", "-f", "--file"].map textOf

/-- The letters of the short options of a table. -/
def shortLetters (options : List Text) : List CodePoint :=
  (options.filter fun option =>
    startsWith option dash && !startsWith option dashes && option.length = 2).filterMap fun option => option[1]?

def longOptions (options : List Text) : List Text := options.filter fun option => startsWith option dashes

def envShortValueOptions : List CodePoint := shortLetters envValueOptions
def envShortNoValueOptions : List CodePoint := shortLetters envNoValueOptions
def envLongNoValueOptions : List Text := longOptions envNoValueOptions
def envLongValueOptions : List Text := longOptions envValueOptions
def envLongOptions : List Text := envLongNoValueOptions ++ envLongValueOptions

def sudoValueOptions : List Text :=
  ["-a", "--auth-type", "-c", "--login-class", "-u", "--user", "-g", "--group", "-h", "--host", "-p", "--prompt",
    "-r", "--role", "-t", "--type", "-C", "--close-from", "-D", "--chdir", "-R", "--chroot", "-T",
    "--command-timeout"].map textOf

def sudoShortValueOptions : List CodePoint := shortLetters sudoValueOptions

def sudoShortNoValueOptions : List CodePoint :=
  ['A', 'b', 'B', 'E', 'e', 'H', 'i', 'K', 'k', 'l', 'n', 'P', 'S', 's', 'V', 'v'].map code

def sudoShellModeLongOptions : List Text := ["--login", "--shell"].map textOf

def sudoNoValueLongOptions : List Text :=
  ["--askpass", "--background", "--bell", "--edit", "--help", "--list", "--non-interactive", "--preserve-env",
    "--remove-timestamp", "--reset-timestamp", "--stdin", "--validate", "--version"].map textOf ++
    sudoShellModeLongOptions

def sudoLongValueOptions : List Text := longOptions sudoValueOptions
def sudoLongOptions : List Text := sudoNoValueLongOptions ++ sudoLongValueOptions

/-- The option itself, or the only one that begins with the name. -/
def resolveLongOption (name : Text) (options : List Text) : Option Text :=
  if name ∈ options then some name
  else match options.filter (startsWith · name) with
    | [option] => some option
    | _ => none

theorem resolveLongOption_prefix {name option : Text} {options : List Text}
    (resolved : resolveLongOption name options = some option) : option ∈ options ∧ name <+: option := by
  unfold resolveLongOption at resolved
  split at resolved
  · next listed =>
    cases resolved
    exact ⟨listed, List.prefix_refl _⟩
  · split at resolved
    · next only =>
      cases resolved
      have member : option ∈ options.filter (startsWith · name) := by
        rw [only]
        exact List.mem_cons_self
      obtain ⟨listed, begins⟩ := List.mem_filter.mp member
      exact ⟨listed, List.isPrefixOf_iff_prefix.mp begins⟩
    · cases resolved

/-! ## Reading options -/

/-- The options a wrapper drops. `-S` of `env` is not among them, it is replaced by words. -/
structure Options where
  letters : List CodePoint
  flags : List CodePoint
  long : List Text
  longValues : List Text

def envOptions : Options :=
  ⟨envShortValueOptions.filter (· ≠ code 'S'), envShortNoValueOptions, envLongOptions, envLongValueOptions⟩

def sudoOptions : Options :=
  ⟨sudoShortValueOptions, sudoShortNoValueOptions, sudoLongOptions, sudoLongValueOptions⟩

/-- Whether the letters of a cluster end with an option whose value is the next token; nothing when
a letter is not known. -/
def Options.cluster (options : Options) : Text → Option Bool
  | [] => some false
  | letter :: rest =>
    if letter ∈ options.letters then some rest.isEmpty
    else if letter ∈ options.flags then options.cluster rest
    else none

/-- Whether an option takes the next token; nothing for what is no option. A dash alone is none. -/
def Options.takes (options : Options) (token : Text) : Option Bool :=
  if token = dashes then some false
  else if startsWith token dashes then
    (resolveLongOption (partition token).1 options.long).map fun option =>
      option ∈ options.longValues && !(partition token).2.1
  else if startsWith token dash && token ≠ dash then options.cluster (token.drop 1)
  else none

def takesValue (token : Text) : Bool :=
  envOptions.takes token = some true || sudoOptions.takes token = some true

def isOption (token : Text) : Bool := (envOptions.takes token).isSome || (sudoOptions.takes token).isSome

def isWrapperName (token : Text) : Bool :=
  basename token ∈ leadingWrapperBasenames ++ multicallEntryBasenames

/-- An assignment, but not of `PATH`, `ENV` or `BASH_ENV`. -/
def isPlainAssignment (token : Text) : Bool :=
  (partition token).2.1 && (partition token).1 ∉ projectionNames

/-- What a wrapper may drop. -/
def isWrapping (token : Text) : Bool := isWrapperName token || isOption token || isPlainAssignment token

/-- What follows a token, its value left out when it takes one. -/
def skip (token : Text) (rest : Command) : Command := if takesValue token then rest.drop 1 else rest

/-- The tokens read from a command down to what is left of it. -/
inductive Reads : List Text → Command → Command → Prop
  | done (command : Command) : Reads [] command command
  | token {token : Text} {rest left : Command} {read : List Text} (more : Reads read (skip token rest) left) :
      Reads (token :: read) (token :: rest) left

/-- The tokens of a list without the values of options. -/
def withoutValues : Command → List Text
  | [] => []
  | [token] => [token]
  | token :: value :: rest =>
    if takesValue token then token :: withoutValues rest else token :: withoutValues (value :: rest)

theorem withoutValues_cons (token : Text) (rest : Command) :
    withoutValues (token :: rest) = token :: withoutValues (skip token rest) := by
  cases rest with
  | nil =>
    unfold skip
    split <;> rfl
  | cons value rest =>
    rw [withoutValues, skip]
    split <;> rfl

theorem Reads.append {read again : List Text} {command middle left : Command} (one : Reads read command middle)
    (two : Reads again middle left) : Reads (read ++ again) command left := by
  induction one with
  | done => exact two
  | token _ ih => exact .token (ih two)

/-- What has been read stands before what is left. -/
theorem Reads.split {read : List Text} {command left : Command} (reads : Reads read command left) :
    ∃ dropped, command = dropped ++ left ∧ withoutValues dropped = read := by
  induction reads with
  | done => exact ⟨[], rfl, rfl⟩
  | @token token rest left read _ ih =>
    obtain ⟨dropped, same, heads⟩ := ih
    unfold skip at same
    split at same
    · next takes =>
      cases rest with
      | nil =>
        rw [List.drop_nil, List.nil_eq_append_iff] at same
        obtain ⟨rfl, rfl⟩ := same
        exact ⟨[token], rfl, by rw [← heads]; rfl⟩
      | cons value rest =>
        refine ⟨token :: value :: dropped, by rw [List.drop_succ_cons, List.drop_zero] at same; rw [same]; rfl, ?_⟩
        rw [withoutValues, if_pos takes, heads]
    · next plain =>
      refine ⟨token :: dropped, by rw [same]; rfl, ?_⟩
      rw [withoutValues_cons, skip, if_neg plain, heads]

/-! ## The two tables agree -/

variable {cluster : Text}

theorem cluster_agree {a b : Bool} (inEnv : envOptions.cluster cluster = some a)
    (inSudo : sudoOptions.cluster cluster = some b) : a = b := by
  induction cluster with
  | nil =>
    cases inEnv
    cases inSudo
    rfl
  | cons letter rest ih =>
    have values : ∀ c ∈ envOptions.letters, c ∉ sudoOptions.flags := by
      simpa using (by decide : envOptions.letters.all (· ∉ sudoOptions.flags) = true)
    have flags : ∀ c ∈ envOptions.flags, c ∉ sudoOptions.letters := by
      simpa using (by decide +kernel : envOptions.flags.all (· ∉ sudoOptions.letters) = true)
    unfold Options.cluster at inEnv inSudo
    split at inEnv
    · next valued =>
      split at inSudo
      · exact Option.some.inj (inEnv.symm.trans inSudo)
      · rw [if_neg (values letter valued)] at inSudo
        cases inSudo
    · split at inEnv
      · next flag =>
        rw [if_neg (flags letter flag)] at inSudo
        split at inSudo
        · exact ih inEnv inSudo
        · cases inSudo
      · cases inEnv

theorem long_agree : ∀ option ∈ envLongOptions, ∀ name ∈ option.inits,
    ∀ o ∈ resolveLongOption name envLongOptions, ∀ p ∈ resolveLongOption name sudoLongOptions,
      decide (o ∈ envLongValueOptions) = decide (p ∈ sudoLongValueOptions) := by
  decide +kernel

variable {token : Text}

theorem takes_agree {a b : Bool} (inEnv : envOptions.takes token = some a)
    (inSudo : sudoOptions.takes token = some b) : a = b := by
  unfold Options.takes at inEnv inSudo
  split at inEnv
  · next ends =>
    rw [if_pos ends] at inSudo
    cases inEnv
    cases inSudo
    rfl
  · next goes =>
    rw [if_neg goes] at inSudo
    split at inEnv
    · next long =>
      rw [if_pos long] at inSudo
      obtain ⟨o, one, rfl⟩ := Option.map_eq_some_iff.mp inEnv
      obtain ⟨p, other, rfl⟩ := Option.map_eq_some_iff.mp inSudo
      obtain ⟨listed, begins⟩ := resolveLongOption_prefix one
      have same := long_agree o listed _ ((List.mem_inits _ _).mpr begins) o one p other
      exact congrArg (· && !(partition token).2.1) same
    · next short =>
      rw [if_neg short] at inSudo
      split at inEnv
      · next letters =>
        rw [if_pos letters] at inSudo
        exact cluster_agree inEnv inSudo
      · cases inEnv

theorem takesValue_env {takes : Bool} (inEnv : envOptions.takes token = some takes) :
    takesValue token = takes := by
  unfold takesValue
  rw [inEnv]
  cases takes with
  | true => rfl
  | false =>
    cases inSudo : sudoOptions.takes token with
    | none => rfl
    | some other => rw [← takes_agree inEnv inSudo]; rfl

theorem takesValue_sudo {takes : Bool} (inSudo : sudoOptions.takes token = some takes) :
    takesValue token = takes := by
  unfold takesValue
  rw [inSudo]
  cases takes with
  | true => exact Bool.or_true _
  | false =>
    cases inEnv : envOptions.takes token with
    | none => rfl
    | some other => rw [takes_agree inEnv inSudo]; rfl

/-! ## Tokens that take a value -/

variable {options : Options}

theorem cluster_letters (takes : options.cluster cluster = some true) :
    ∀ c ∈ cluster, c ∈ options.letters ∨ c ∈ options.flags := by
  induction cluster with
  | nil => simp
  | cons letter rest ih =>
    unfold Options.cluster at takes
    split at takes
    · next valued =>
      have last : rest = [] := List.isEmpty_iff.mp (Option.some.inj takes)
      rw [last]
      intro c member
      rw [List.mem_singleton.mp member]
      exact Or.inl valued
    · split at takes
      · next flag =>
        intro c member
        rcases List.mem_cons.mp member with rfl | later
        · exact Or.inr flag
        · exact ih takes c later
      · cases takes

/-- The characters of an option that takes the next token. -/
theorem takes_plain (takes : options.takes token = some true)
    (letters : (options.letters ++ options.flags).all (fun c => c ≠ code '=' && c ≠ code '/') = true)
    (long : options.long.all (fun option => option.all fun c => c ≠ code '=' && c ≠ code '/') = true) :
    startsWith token dash = true ∧ ∀ c ∈ token, c ≠ code '=' ∧ c ≠ code '/' := by
  simp only [List.all_eq_true, Bool.and_eq_true, decide_eq_true_eq] at letters long
  unfold Options.takes at takes
  split at takes
  · cases takes
  · split at takes
    · next begins =>
      obtain ⟨option, resolved, both⟩ := Option.map_eq_some_iff.mp takes
      obtain ⟨_, absent⟩ := Bool.and_eq_true_iff.mp both
      have whole : (partition token).1 = token := by
        have none_ : code '=' ∉ token := by simpa [partition] using absent
        unfold partition
        rw [List.takeWhile_eq_self_iff]
        intro c member
        simpa using fun same : c = code '=' => none_ (same ▸ member)
      obtain ⟨listed, front⟩ := resolveLongOption_prefix resolved
      rw [whole] at front
      refine ⟨?_, fun c member => long option listed c (front.subset member)⟩
      have deeper : dash <+: dashes := by decide
      exact List.isPrefixOf_iff_prefix.mpr (deeper.trans (List.isPrefixOf_iff_prefix.mp begins))
    · split at takes
      · next short =>
        obtain ⟨begins, _⟩ := Bool.and_eq_true_iff.mp short
        refine ⟨begins, ?_⟩
        obtain ⟨cluster, rfl⟩ := List.isPrefixOf_iff_prefix.mp begins
        intro c member
        rcases List.mem_append.mp member with first | later
        · rw [List.mem_singleton.mp (show c ∈ [code '-'] from first)]
          decide
        · exact letters c (List.mem_append.mpr (cluster_letters takes c later))
      · cases takes

theorem takesValue_plain (takes : takesValue token = true) :
    startsWith token dash = true ∧ ∀ c ∈ token, c ≠ code '=' ∧ c ≠ code '/' := by
  unfold takesValue at takes
  rcases Bool.or_eq_true_iff.mp takes with inEnv | inSudo
  · exact takes_plain (of_decide_eq_true inEnv) (by decide +kernel) (by decide +kernel)
  · exact takes_plain (of_decide_eq_true inSudo) (by decide +kernel) (by decide +kernel)

/-- A name or an operand takes no value. -/
theorem takesValue_assignment (assigns : code '=' ∈ token) : takesValue token = false := by
  cases takes : takesValue token with
  | false => rfl
  | true => exact absurd rfl ((takesValue_plain takes).2 _ assigns).1

theorem takesValue_name (name : isWrapperName token = true) : takesValue token = false := by
  cases takes : takesValue token with
  | false => rfl
  | true =>
    obtain ⟨begins, plain⟩ := takesValue_plain takes
    have whole : basename token = token := by
      unfold basename
      rw [List.takeWhile_eq_self_iff.mpr, List.reverse_reverse]
      intro c member
      simpa using (plain c (List.mem_reverse.mp member)).2
    unfold isWrapperName at name
    rw [whole] at name
    have no_dash : ∀ entry ∈ leadingWrapperBasenames ++ multicallEntryBasenames, startsWith entry dash = false := by
      decide +kernel
    rw [no_dash token (of_decide_eq_true name)] at begins
    cases begins

theorem skip_plain (plain : takesValue token = false) (rest : Command) : skip token rest = rest := by
  rw [skip, plain]
  rfl

/-- A dash alone is nothing a wrapper may drop. -/
theorem isWrapping_dash : isWrapping dash = false := by decide +kernel

end Loushang.Policy
