import Loushang.Policy.SudoCommand

/-!
# Unwrapping leading wrappers

`_unwrap_leading_wrappers`: `env`, `sudo` and the applets of a multicall binary are taken off the
front of a command for as long as it starts with one. What the file system says of names and
paths is a parameter, and so are the letters and digits of Unicode.
-/
namespace Loushang.Policy
open Lib

/-- What the host answers: `shutil.which` on the search path of the call, `os.path.realpath` and
`os.path.exists`, `os.path.samefile` (nothing for an `OSError`), and `str.isalpha` and `str.isalnum`
of a character. -/
structure Host where
  cwd : Option Text
  which : Text → Option Text
  realpath : Text → Text
  pathExists : Text → Bool
  samefile : Text → Text → Option Bool
  isAlpha : CodePoint → Bool
  isAlnum : CodePoint → Bool

def isEnvAssignment (host : Host) (token : Text) : Bool :=
  (partition token).2.1 && match (partition token).1 with
    | [] => false
    | first :: rest =>
      (host.isAlpha first || first = code '_') && rest.all fun c => host.isAlnum c || c = code '_'

/-! ## Which program a name is -/

def standardExecutableDirectories : List Text := ["/bin", "/usr/bin", "/usr/local/bin"].map textOf

inductive ShellFamily where
  | generic
  | fish

inductive Wrapper where
  | env
  | elevation
  deriving DecidableEq

/-- The wrapper of a basename, `elevation` for `sudo`. -/
def wrapperNamed (name : Text) : Option Wrapper :=
  if name = textOf "env" then some .env else if name = textOf "sudo" then some .elevation else none

def isabs (path : Text) : Bool := startsWith path (textOf "/")

/-- `posixpath.join` of a directory and a relative path. -/
def join (directory path : Text) : Text :=
  if directory = [] || directory.getLast? = some (code '/') then directory ++ path
  else directory ++ textOf "/" ++ path

def shellFamilyForName (name : Text) : ShellFamily := if name = textOf "fish" then .fish else .generic

section
variable (host : Host)

def resolveExecutablePath (executable : Text) : Option Text :=
  if executable.contains (code '/') then
    match isabs executable, host.cwd with
    | true, _ => some executable
    | false, none => some executable
    | false, some cwd => some (join cwd executable)
  else host.which executable

def knownExecutablePaths (names : List Text) : List Text :=
  (names.flatMap fun name => standardExecutableDirectories.map fun directory =>
    directory ++ textOf "/" ++ name).filter host.pathExists

def pathsReferToSameFile (first second : Text) : Bool := host.samefile first second = some true

def isKnownMulticallCandidate (candidate : Text) : Bool :=
  (knownExecutablePaths host multicallEntryBasenames).any (pathsReferToSameFile host candidate)

/-- The names of `_known_shell_paths` for a family. -/
def familyNames : ShellFamily → List Text
  | .generic => shellEntryBasenames.filter (· ≠ textOf "fish")
  | .fish => [textOf "fish"]

def matchesFamily (candidate : Text) (family : ShellFamily) : Bool :=
  (knownExecutablePaths host (familyNames family)).any (pathsReferToSameFile host candidate)

def classifyShellEntrypoint (executable : Text) : Option ShellFamily × Bool :=
  match resolveExecutablePath host executable with
  | none =>
    if !executable.contains (code '/') && executable ∈ shellEntryBasenames then
      (some (shellFamilyForName executable), true)
    else (none, false)
  | some candidate =>
    if isKnownMulticallCandidate host candidate then
      if basename executable ∈ shellEntryBasenames then (some (shellFamilyForName (basename executable)), true)
      else (none, true)
    else match [ShellFamily.generic, .fish].filter (matchesFamily host candidate) with
      | [family] =>
        if basename executable ∈ shellEntryBasenames ||
            basename (host.realpath candidate) ∈ shellEntryBasenames then (some family, true)
        else (none, false)
      | _ :: _ :: _ => (none, false)
      | [] =>
        if basename executable ∈ shellEntryBasenames then
          (some (shellFamilyForName (basename executable)), false)
        -- `samefile` of the candidate with itself fails for a path that cannot be read
        else (none, (host.samefile candidate candidate).isSome)

def classifyLeadingWrapper (executable : Text) : Option Wrapper × Bool :=
  let entryName := basename executable
  match resolveExecutablePath host executable with
  | none =>
    if !executable.contains (code '/') && entryName ∈ leadingWrapperBasenames then (wrapperNamed entryName, true)
    else (none, entryName ∉ leadingWrapperBasenames)
  | some candidate =>
    if entryName = textOf "env" && isKnownMulticallCandidate host candidate then (some .env, true)
    else if entryName ∉ leadingWrapperBasenames then
      (none, basename (host.realpath candidate) ∉ leadingWrapperBasenames)
    else if basename (host.realpath candidate) = entryName &&
        (knownExecutablePaths host [entryName]).any (pathsReferToSameFile host candidate) then
      (wrapperNamed entryName, true)
    else match classifyShellEntrypoint host executable with
      | (some _, shellComplete) => (none, shellComplete)
      | (none, _) => (none, false)

/-- The applet of a multicall binary, and whether the binary is known to be one. -/
def unwrapMulticallControlApplet : Command → Option (Command × Bool)
  | executable :: applet :: rest =>
    if basename executable ∉ multicallEntryBasenames || applet ∉ multicallControlApplets then none
    else some (applet :: rest, (resolveExecutablePath host executable).any fun candidate =>
      basename (host.realpath candidate) ∈ multicallEntryBasenames && isKnownMulticallCandidate host candidate)
  | _ => none

/-! ## The loop -/

/-- What is left behind `sudo`: assignments are dropped, and in shell mode a shell is put before
the command. -/
def leaveSudo (left : Elevated) : Pass Unwrapped Unwrapped :=
  let operands := dropOperands (isEnvAssignment host) left.command left.complete
  if left.shellMode then
    if operands.1 ≠ [] then
      .stop ⟨[textOf "sh", textOf "-c", Shlex.join operands.1], false, [.shell operands.1]⟩
    else .stop ⟨[], false, []⟩
  else .next ⟨operands.1, operands.2, []⟩

/-- One pass of the loop of `_unwrap_leading_wrappers`, at a command. -/
def leadingStep (command : Command) : Pass Unwrapped Unwrapped :=
  match unwrapMulticallControlApplet host command with
  | some (applet, complete) =>
    match applet with
    | head :: rest =>
      if head = textOf "env" then .next (Unwrapped.andThen ⟨rest, complete, []⟩ (unwrapEnvCommand rest))
      else .next ⟨applet, complete, []⟩
    | [] => .next ⟨applet, complete, []⟩
  | none =>
    match command with
    | [] => .stop ⟨[], true, []⟩
    | executable :: rest =>
      match classifyLeadingWrapper host executable with
      | (none, complete) => .stop ⟨executable :: rest, complete, []⟩
      | (some .env, complete) => .next (Unwrapped.andThen ⟨rest, complete, []⟩ (unwrapEnvCommand rest))
      | (some .elevation, complete) =>
        leaveSudo host (Elevated.andThen ⟨rest, false, complete⟩ (unwrapSudoCommand rest))

/-- A pass that goes on from what has been done. -/
def leadingPass (s : Unwrapped) : Pass Unwrapped Unwrapped :=
  match leadingStep host s.command with
  | .stop part => .stop (s.andThen part)
  | .next part => .next (s.andThen part)

/-- The command behind `sudo`, where a pass unwraps it. -/
def behindSudo (command : Command) : Option Command :=
  match unwrapMulticallControlApplet host command, command with
  | none, executable :: rest =>
    if (classifyLeadingWrapper host executable).1 = some .elevation then some rest else none
  | _, _ => none

end

/-! ## What a pass does -/

section
variable {host : Host}

theorem basename_sh : basename (textOf "sh") = textOf "sh" := by decide

variable {wrapper : Wrapper}

theorem wrapperNamed_some {name : Text} (named : wrapperNamed name = some wrapper) :
    name ∈ leadingWrapperBasenames := by
  unfold wrapperNamed at named
  split at named
  · next same => rw [same]; decide
  · split at named
    · next same => rw [same]; decide
    · cases named

variable {executable : Text}

theorem classifyLeadingWrapper_name (classified : (classifyLeadingWrapper host executable).1 = some wrapper) :
    basename executable ∈ leadingWrapperBasenames := by
  unfold classifyLeadingWrapper at classified
  dsimp only at classified
  split at classified
  · split at classified
    · exact wrapperNamed_some classified
    · cases classified
  · split at classified
    · next env =>
      have name := (Bool.and_eq_true_iff.mp env).1
      rw [of_decide_eq_true name]
      decide
    · split at classified
      · cases classified
      · next listed => exact not_not.mp listed

/-- The name of a wrapper is dropped. -/
theorem honest_name (listed : basename executable ∈ leadingWrapperBasenames ++ multicallEntryBasenames)
    (rest : Command) (complete : Bool) : Honest (executable :: rest) ⟨rest, complete, []⟩ := by
  have name : isWrapperName executable = true := decide_eq_true listed
  refine .drop fun _ => ⟨?_, (skip_plain (takesValue_name name) rest).symm⟩
  rw [isWrapping, name]
  rfl

theorem other_name (listed : basename executable ∈ leadingWrapperBasenames ++ multicallEntryBasenames) :
    executable ≠ textOf "sh" := by
  rintro rfl
  rw [basename_sh] at listed
  exact absurd listed (by decide)

/-- The pass at a command unwraps `sudo` and meets a dash alone behind it. -/
def DashBehindSudo (host : Host) (command : Command) : Prop :=
  ∃ rest, behindSudo host command = some rest ∧ MeetsDash ⟨rest, false, true⟩

/-- What a pass leaves and drops. -/
def Leads (host : Host) (start : Command) : Pass Unwrapped Unwrapped → Prop
  | .next part => commandSize part.command < commandSize start ∧ Tracks (DashBehindSudo host start) start part
  | .stop part => Tracks (DashBehindSudo host start) start part

variable {start : Command}

theorem Leads.honest {part : Unwrapped} (none_ : behindSudo host start = none)
    (smaller : commandSize part.command < commandSize start) (honest : Honest start part) :
    Leads host start (.next part) := by
  refine ⟨smaller, honest.tracks.congr ?_⟩
  unfold DashBehindSudo
  simp [none_]

theorem commandSize_dropOperands {operand : Text → Bool} (shell : operand (textOf "sh") = false)
    (command : Command) (complete : Bool) :
    commandSize (dropOperands operand command complete).1 ≤ commandSize command := by
  cases command with
  | nil => exact Nat.le_refl _
  | cons token rest =>
    unfold dropOperands
    split
    · next dropped =>
      have other : token ≠ textOf "sh" := by
        rintro rfl
        rw [shell] at dropped
        cases dropped
      obtain ⟨n, same⟩ := dropOperands_drop operand rest (complete && !envOperandChangesCommandProjection token)
      rw [same]
      exact Nat.le_of_lt (commandSize_drop other rest n)
    · exact Nat.le_refl _

/-- Behind `sudo` a shell is put before a command that does not count as complete, or assignments
are dropped. -/
theorem leaveSudo_leads {left : Elevated} (smaller : commandSize left.command < commandSize start)
    (tracks : Tracks (DashBehindSudo host start) start left.part) :
    Leads host start (leaveSudo host left) := by
  unfold leaveSudo
  dsimp only
  split
  · split
    · exact ⟨fun _ => rfl, nofun⟩
    · exact ⟨fun _ => rfl, nofun⟩
  · have assigns : ∀ token, isEnvAssignment host token = true → code '=' ∈ token := by
      intro token assignment
      have separated := (Bool.and_eq_true_iff.mp assignment).1
      simpa [partition] using separated
    obtain ⟨kept, honest⟩ := Honest.operands (isEnvAssignment host) assigns left.command left.complete
    have shell : isEnvAssignment host (textOf "sh") = false := rfl
    refine ⟨Nat.lt_of_le_of_lt (commandSize_dropOperands shell _ _) smaller, ?_⟩
    have both := (tracks.andThen honest.tracks).congr (or_iff_left id)
    have same : left.part.andThen ⟨(dropOperands (isEnvAssignment host) left.command left.complete).1,
        (dropOperands (isEnvAssignment host) left.command left.complete).2, []⟩ =
        ⟨(dropOperands (isEnvAssignment host) left.command left.complete).1,
          (dropOperands (isEnvAssignment host) left.command left.complete).2, []⟩ := by
      unfold Unwrapped.andThen
      rw [Unwrapped.mk.injEq]
      refine ⟨rfl, ?_, rfl⟩
      cases all : (dropOperands (isEnvAssignment host) left.command left.complete).2 with
      | false => exact Bool.and_false _
      | true => exact (congrArg (· && true) (kept all)).trans rfl
    rw [same] at both
    exact both

/-- What one pass of the loop of `_unwrap_leading_wrappers` does. -/
theorem leadingStep_leads (host : Host) (command : Command) : Leads host command (leadingStep host command) := by
  unfold leadingStep
  cases multicall : unwrapMulticallControlApplet host command with
  | some found =>
    obtain ⟨applet, complete⟩ := found
    have none_ : behindSudo host command = none := by
      unfold behindSudo
      rw [multicall]
    -- the binary is dropped, and `env` behind it
    unfold unwrapMulticallControlApplet at multicall
    split at multicall
    · next executable applet' rest =>
      split at multicall
      · cases multicall
      · next known =>
        rw [Option.some.injEq, Prod.mk.injEq] at multicall
        obtain ⟨rfl, _⟩ := multicall
        simp only [Bool.or_eq_true, decide_eq_true_eq, not_or, not_not] at known
        have listed : basename executable ∈ leadingWrapperBasenames ++ multicallEntryBasenames :=
          List.mem_append_right _ known.1
        have small := commandSize_drop (other_name listed) (applet' :: rest) 0
        dsimp only
        split
        · next env =>
          have inner : basename applet' ∈ leadingWrapperBasenames ++ multicallEntryBasenames := by
            rw [env]
            decide
          obtain ⟨smaller, honest⟩ := unwrapEnvCommand_honest rest
          have less := commandSize_drop (other_name inner) rest 0
          refine Leads.honest none_ ?_ ?_
          · exact Nat.lt_of_le_of_lt smaller (Nat.lt_trans less small)
          · have names := (honest_name listed (applet' :: rest) complete).andThen (honest_name inner rest true)
            simpa [Unwrapped.andThen] using names.andThen honest
        · exact Leads.honest none_ small (honest_name listed _ _)
    · cases multicall
  | none =>
    cases command with
    | nil => exact (Honest.done [] true).tracks.congr (by unfold DashBehindSudo behindSudo; simp [multicall])
    | cons executable rest =>
      have behind : behindSudo host (executable :: rest) =
          if (classifyLeadingWrapper host executable).1 = some .elevation then some rest else none := by
        unfold behindSudo
        rw [multicall]
      have name : ∀ {wrapper}, (classifyLeadingWrapper host executable).1 = some wrapper →
          basename executable ∈ leadingWrapperBasenames ++ multicallEntryBasenames :=
        fun classified => List.mem_append_left _ (classifyLeadingWrapper_name classified)
      cases classified : classifyLeadingWrapper host executable with | mk wrapper complete =>
      rw [classified] at behind name
      dsimp only
      rw [classified]
      cases wrapper with
      | none =>
        refine (Honest.done _ complete).tracks.congr ?_
        unfold DashBehindSudo
        simp [behind]
      | some wrapper =>
        have listed := name rfl
        have small := commandSize_drop (other_name listed) rest 0
        cases wrapper with
        | env =>
          obtain ⟨smaller, honest⟩ := unwrapEnvCommand_honest rest
          refine Leads.honest (by rw [behind]; rfl) (Nat.lt_of_le_of_lt smaller small) ?_
          exact (honest_name listed rest complete).andThen honest
        | elevation =>
          obtain ⟨smaller, tracks⟩ := unwrapSudoCommand_tracks rest
          refine leaveSudo_leads (Nat.lt_of_le_of_lt smaller small) ?_
          refine ((honest_name listed rest complete).tracks.andThen tracks).congr ?_
          unfold DashBehindSudo
          simp [behind]

end

/-!
## Runs of the unwrapping loops

The loops end for every command and every host. A result that counts as complete has rewritten
nothing, and what was dropped before it is wrapping, unless `sudo` was followed by a dash alone
where its options stand.
-/

theorem leadingPass_lowers (host : Host) (s later : Unwrapped) (pass : leadingPass host s = .next later) :
    commandSize later.command < commandSize s.command := by
  have leads := leadingStep_leads host s.command
  unfold leadingPass at pass
  split at pass
  · cases pass
  · next part step =>
    cases pass
    rw [step] at leads
    exact leads.1

/-- `_unwrap_leading_wrappers`. -/
def unwrapLeadingWrappers (host : Host) (command : Command) : Unwrapped :=
  Loop.run (leadingPass host) (fun s => commandSize s.command) (leadingPass_lowers host) ⟨command, true, []⟩

/-- A pass of the loop unwraps `sudo` and meets a dash alone where its options stand. -/
def MeetsLoneDash (host : Host) (s : Unwrapped) : Prop :=
  ∃ t, Loop.Visits (leadingPass host) s t ∧ DashBehindSudo host t.command

theorem leadingPass_ends {host : Host} {s r : Unwrapped} (ends : Loop.Ends (leadingPass host) s r) :
    ∃ part, r = s.andThen part ∧ Tracks (MeetsLoneDash host s) s.command part := by
  induction ends with
  | @stop s r last =>
    have leads := leadingStep_leads host s.command
    have only : DashBehindSudo host s.command ↔ MeetsLoneDash host s := by
      unfold MeetsLoneDash
      simp [Loop.visits_stop last]
    unfold leadingPass at last
    split at last
    · next part step =>
      cases last
      rw [step] at leads
      exact ⟨part, rfl, Tracks.congr only leads⟩
    · cases last
  | @next s later r pass _ ih =>
    have leads := leadingStep_leads host s.command
    have split_ : DashBehindSudo host s.command ∨ MeetsLoneDash host later ↔ MeetsLoneDash host s := by
      unfold MeetsLoneDash
      simp [Loop.visits_next pass, or_and_right, exists_or]
    unfold leadingPass at pass
    split at pass
    · cases pass
    · next part step =>
      cases pass
      rw [step] at leads
      obtain ⟨more, rfl, tracks⟩ := ih
      exact ⟨part.andThen more, Unwrapped.andThen_assoc s part more, (leads.2.andThen tracks).congr split_⟩

theorem unwrapLeadingWrappers_tracks (host : Host) (command : Command) :
    Tracks (MeetsLoneDash host ⟨command, true, []⟩) command (unwrapLeadingWrappers host command) := by
  obtain ⟨part, same, tracks⟩ := leadingPass_ends
    (Loop.ends_run (leadingPass host) (fun s => commandSize s.command) (leadingPass_lowers host) ⟨command, true, []⟩)
  have whole : unwrapLeadingWrappers host command = part := same
  rw [whole]
  exact tracks

/-- What is left stands at the end of the command, and before it stand only wrapper names, options
with their values, and assignments other than `PATH`, `ENV` and `BASH_ENV`. -/
def DropsOnlyWrapping (command left : Command) : Prop :=
  ∃ dropped, command = dropped ++ left ∧ ∀ token ∈ withoutValues dropped, isWrapping token = true

theorem dropsOnlyWrapping_iff {command left : Command} {read : List Text} (reads : Reads read command left) :
    DropsOnlyWrapping command left ↔ ∀ token ∈ read, isWrapping token = true := by
  obtain ⟨dropped, same, heads⟩ := reads.split
  constructor
  · rintro ⟨other, same', wraps⟩
    have equal : other = dropped := List.append_cancel_right (same'.symm.trans same)
    rw [← heads, ← equal]
    exact wraps
  · intro wraps
    exact ⟨dropped, same, by rw [heads]; exact wraps⟩

/-- The loops end; a run that splits a string or puts a shell before the command does not count as
complete; and a complete one drops wrapping alone exactly when no pass meets a dash alone where the
options of `sudo` stand. -/
theorem unwrapLeadingWrappers_honest_iff (host : Host) (command : Command) :
    (Loop.Ends (leadingPass host) ⟨command, true, []⟩ (unwrapLeadingWrappers host command) ∧
      (∀ inner, Loop.Ends envPass ⟨inner, true, []⟩ (unwrapEnvCommand inner)) ∧
      ∀ inner, Loop.Ends sudoPass ⟨inner, false, true⟩ (unwrapSudoCommand inner)) ∧
    ((unwrapLeadingWrappers host command).rewrites ≠ [] →
      (unwrapLeadingWrappers host command).complete = false) ∧
    ((unwrapLeadingWrappers host command).complete = true →
      (DropsOnlyWrapping command (unwrapLeadingWrappers host command).command ↔
        ¬ MeetsLoneDash host ⟨command, true, []⟩)) := by
  have tracks := unwrapLeadingWrappers_tracks host command
  refine ⟨⟨Loop.ends_run _ _ _ _, fun _ => Loop.ends_run _ _ _ _, fun _ => Loop.ends_run _ _ _ _⟩,
    tracks.rewritten, fun complete => ?_⟩
  obtain ⟨read, reads, wraps, met⟩ := tracks.reads complete
  rw [dropsOnlyWrapping_iff reads, ← met]
  constructor
  · intro all member
    have known := all dash member
    rw [isWrapping_dash] at known
    cases known
  · intro absent token member
    rcases wraps token member with known | rfl
    · exact known
    · exact absurd member absent

/-- A host without programs. -/
def bareHost : Host where
  cwd := none
  which _ := none
  realpath path := path
  pathExists _ := false
  samefile _ _ := none
  isAlpha c := (0x41 ≤ c && c ≤ 0x5a) || (0x61 ≤ c && c ≤ 0x7a)
  isAlnum c := (0x30 ≤ c && c ≤ 0x39) || (0x41 ≤ c && c ≤ 0x5a) || (0x61 ≤ c && c ≤ 0x7a)

/-- A dash alone behind `sudo` is dropped as if it were an option. -/
theorem dash_dropped_behind_sudo :
    (unwrapLeadingWrappers bareHost (["sudo", "-", "ls"].map textOf)).complete = true ∧
      ¬ DropsOnlyWrapping (["sudo", "-", "ls"].map textOf)
        (unwrapLeadingWrappers bareHost (["sudo", "-", "ls"].map textOf)).command := by
  have run : unwrapLeadingWrappers bareHost (["sudo", "-", "ls"].map textOf) = ⟨[textOf "ls"], true, []⟩ := by
    decide
  rw [run]
  refine ⟨rfl, ?_⟩
  rintro ⟨dropped, same, wraps⟩
  have whole : ["sudo", "-"].map textOf ++ [textOf "ls"] = dropped ++ [textOf "ls"] := same
  have before := List.append_cancel_right whole
  subst before
  have known := wraps dash (by decide)
  rw [isWrapping_dash] at known
  cases known

end Loushang.Policy
