import Loushang.Policy.EnvCommand

/-!
# Unwrapping `sudo`

`_unwrap_sudo_command` and the functions under it. A dash alone is dropped like an option, so
what is dropped is tracked together with whether the loop met one.
-/
namespace Loushang.Policy
open Lib

/-- A command behind `sudo`, whether a shell runs it, and whether it was understood so far. -/
structure Elevated where
  command : Command
  shellMode : Bool
  complete : Bool

def Elevated.andThen (s part : Elevated) : Elevated :=
  ⟨part.command, s.shellMode || part.shellMode, s.complete && part.complete⟩

/-- The loop over the letters of a cluster. -/
def unwrapSudoCluster (remainder : Command) : Text → Bool → Bool → Elevated
  | [], shellMode, complete => ⟨remainder, shellMode, complete⟩
  | option :: attached, shellMode, complete =>
    if option ∈ sudoShortValueOptions then
      let complete := complete && option ∉ ['D', 'R'].map code
      if attached ≠ [] then ⟨remainder, shellMode, complete⟩ else ⟨remainder.drop 1, shellMode, complete⟩
    else if option ∈ ['i', 's'].map code then unwrapSudoCluster remainder attached true complete
    else unwrapSudoCluster remainder attached shellMode (complete && option ∈ sudoShortNoValueOptions)

def unwrapSudoShortOptions (token : Text) (remainder : Command) : Elevated :=
  unwrapSudoCluster remainder (token.drop 1) false true

/-- One pass of the loop of `_unwrap_sudo_command`, at a command. -/
def sudoStep : Command → Pass Elevated Elevated
  | [] => .stop ⟨[], false, true⟩
  | head :: rest =>
    if head = dashes then .stop ⟨rest, false, true⟩
    else if !startsWith head dash then .stop ⟨head :: rest, false, true⟩
    else if startsWith head dashes then
      let option := resolveLongOption (partition head).1 sudoLongOptions
      let complete := option.isSome && !option.any (· ∈ ["--chdir", "--chroot"].map textOf)
      let shellMode := option.any (· ∈ sudoShellModeLongOptions)
      if option.any (· ∈ sudoLongValueOptions) && !(partition head).2.1 then
        match rest with
        | [] => .stop ⟨[], shellMode, complete⟩
        | _ :: more => .next ⟨more, shellMode, complete⟩
      else .next ⟨rest, shellMode, complete⟩
    else .next (unwrapSudoShortOptions head rest)

/-- A pass that goes on from what has been done. -/
def sudoPass (s : Elevated) : Pass Elevated Elevated :=
  match sudoStep s.command with
  | .stop part => .stop (s.andThen part)
  | .next part => .next (s.andThen part)

/-! ## What a part does -/

/-- A complete part drops wrapping, and a dash alone where one is met. -/
def Tracks (met : Prop) : Command → Unwrapped → Prop :=
  Drops fun read => (∀ token ∈ read, isWrapping token = true ∨ token = dash) ∧ (dash ∈ read ↔ met)

variable {start : Command}

theorem Honest.tracks {part : Unwrapped} (honest : Honest start part) : Tracks False start part := by
  refine Drops.mono (fun read wraps => ⟨fun token member => Or.inl (wraps token member), ?_⟩) honest
  rw [iff_false]
  intro member
  have known := wraps dash member
  rw [isWrapping_dash] at known
  cases known

theorem Tracks.congr {met other : Prop} {part : Unwrapped} (same : met ↔ other)
    (tracks : Tracks met start part) : Tracks other start part :=
  Drops.mono (fun _ holds => ⟨holds.1, holds.2.trans same⟩) tracks

theorem Tracks.andThen {met more : Prop} {s part : Unwrapped} (one : Tracks met start s)
    (two : Tracks more s.command part) : Tracks (met ∨ more) start (s.andThen part) :=
  Drops.andThen (fun _ _ holds holdsToo => ⟨List.forall_mem_append.mpr ⟨holds.1, holdsToo.1⟩,
    List.mem_append.trans (or_congr holds.2 holdsToo.2)⟩) one two

/-- What is left behind `sudo`, as a part of the whole. -/
def Elevated.part (s : Elevated) : Unwrapped := ⟨s.command, s.complete, []⟩

theorem sudoOption_wraps {head : Text} {takes : Bool} (known : sudoOptions.takes head = some takes) :
    isWrapping head = true ∧ ∀ rest, skip head rest = if takes then rest.drop 1 else rest := by
  constructor
  · rw [isWrapping, isOption, known]
    simp
  · intro rest
    rw [skip, takesValue_sudo known]

theorem unwrapSudoCluster_spec (remainder : Command) (cluster : Text) (shellMode complete : Bool) :
    ∃ n shell all, unwrapSudoCluster remainder cluster shellMode complete = ⟨remainder.drop n, shell, all⟩ ∧
      (all = true → complete = true ∧ ∃ takes, sudoOptions.cluster cluster = some takes ∧
        remainder.drop n = if takes then remainder.drop 1 else remainder) := by
  induction cluster generalizing shellMode complete with
  | nil => exact ⟨0, shellMode, complete, rfl, fun all => ⟨all, false, rfl, rfl⟩⟩
  | cons option attached ih =>
    have flagged : option ∉ sudoOptions.letters → option ∈ sudoOptions.flags → ∀ {takes},
        sudoOptions.cluster attached = some takes → sudoOptions.cluster (option :: attached) = some takes := by
      intro unlettered flag takes reads
      unfold Options.cluster
      rw [if_neg unlettered, if_pos flag]
      exact reads
    unfold unwrapSudoCluster
    split
    · next valued =>
      have reads : sudoOptions.cluster (option :: attached) = some attached.isEmpty := if_pos valued
      split
      · next attached_ =>
        refine ⟨0, shellMode, _, rfl, fun all => ⟨(Bool.and_eq_true_iff.mp all).1, false, ?_, rfl⟩⟩
        rw [reads, List.isEmpty_eq_false_iff.mpr attached_]
      · next bare =>
        rw [not_not] at bare
        refine ⟨1, shellMode, _, rfl, fun all => ⟨(Bool.and_eq_true_iff.mp all).1, true, ?_, rfl⟩⟩
        rw [reads, bare]
        rfl
    · next unlettered =>
      split
      · next shell =>
        obtain ⟨n, mode, all, same, known⟩ := ih true complete
        refine ⟨n, mode, all, same, fun yes => ?_⟩
        obtain ⟨before, takes, reads, left⟩ := known yes
        have flags : (['i', 's'].map code).all (· ∈ sudoOptions.flags) = true := by decide
        exact ⟨before, takes, flagged unlettered (of_decide_eq_true (List.all_eq_true.mp flags option shell)) reads, left⟩
      · obtain ⟨n, mode, all, same, known⟩ := ih shellMode (complete && option ∈ sudoShortNoValueOptions)
        refine ⟨n, mode, all, same, fun yes => ?_⟩
        obtain ⟨before, takes, reads, left⟩ := known yes
        obtain ⟨earlier, flag⟩ := Bool.and_eq_true_iff.mp before
        exact ⟨earlier, takes, flagged unlettered (of_decide_eq_true flag) reads, left⟩

/-- A dash alone is an empty cluster. -/
theorem sudoStep_dash (rest : Command) : sudoStep (dash :: rest) = .next ⟨rest, false, true⟩ := by
  rfl

theorem tracks_dash (rest : Command) : Tracks True (dash :: rest) ⟨rest, true, []⟩ := by
  refine ⟨fun some_ => absurd rfl some_, fun _ => ⟨[dash], .token ?_, by simp⟩⟩
  rw [skip_plain (by decide)]
  exact .done rest

/-- What a pass leaves and drops. -/
def Elevates (start : Command) : Pass Elevated Elevated → Prop
  | .next part => commandSize part.command < commandSize start ∧ Tracks (start.head? = some dash) start part.part
  | .stop part => commandSize part.command ≤ commandSize start ∧ start.head? ≠ some dash ∧ Honest start part.part

section
variable {head : Text} {rest : Command} (begins : startsWith head dash = true) (cluster : head ≠ dash)
include begins cluster

theorem elevates_drop {left : Command} {shell all : Bool} (n : Nat) (tail : left = rest.drop n)
    (wraps : all = true → isWrapping head = true ∧ left = skip head rest) :
    Elevates (head :: rest) (.next ⟨left, shell, all⟩) := by
  subst tail
  have other : head ≠ textOf "sh" := by
    rintro rfl
    exact absurd begins (by decide)
  refine ⟨commandSize_drop other rest n, (Honest.drop wraps).tracks.congr ?_⟩
  rw [false_iff]
  exact fun same => cluster (Option.some.inj same)

omit begins in
theorem elevates_missing {shell all : Bool} (wraps : all = true → isWrapping head = true) :
    Elevates [head] (.stop ⟨[], shell, all⟩) := by
  refine ⟨Nat.zero_le _, fun same => cluster (Option.some.inj same), .drop fun yes => ⟨wraps yes, ?_⟩⟩
  unfold skip
  split <;> rfl

end

/-- What one pass of the loop of `_unwrap_sudo_command` does. -/
theorem sudoStep_elevates (command : Command) : Elevates command (sudoStep command) := by
  cases command with
  | nil => exact ⟨Nat.le_refl _, by simp, .done [] true⟩
  | cons head rest =>
  by_cases lone : head = dash
  · rw [lone, sudoStep_dash]
    exact ⟨commandSize_drop (by decide) rest 0, (tracks_dash rest).congr (by simp)⟩
  dsimp only [sudoStep]
  by_cases ends : head = dashes
  · rw [if_pos ends]
    have known : sudoOptions.takes head = some false := by rw [ends]; rfl
    have wraps := sudoOption_wraps known
    refine ⟨Nat.le_of_lt (commandSize_drop ?_ rest 0), fun same => lone (Option.some.inj same),
      .drop fun _ => ⟨wraps.1, (wraps.2 rest).symm⟩⟩
    rw [ends]
    decide
  rw [if_neg ends]
  by_cases operand : (!startsWith head dash) = true
  · rw [if_pos operand]
    exact ⟨Nat.le_refl _, fun same => lone (Option.some.inj same), .done _ true⟩
  rw [if_neg operand]
  have begins : startsWith head dash = true := by simpa using operand
  by_cases long : startsWith head dashes = true
  · rw [if_pos long]
    have takes : ∀ {option}, resolveLongOption (partition head).1 sudoLongOptions = some option →
        sudoOptions.takes head = some (option ∈ sudoLongValueOptions && !(partition head).2.1) := by
      intro option resolved
      unfold Options.takes
      rw [if_neg ends, if_pos long]
      change Option.map _ (resolveLongOption (partition head).1 sudoLongOptions) = _
      rw [resolved]
      rfl
    cases resolved : resolveLongOption (partition head).1 sudoLongOptions with
    | none => exact elevates_drop begins lone 0 rfl (by simp)
    | some option =>
      have wraps := sudoOption_wraps (takes resolved)
      split
      · next valued =>
        cases rest with
        | nil => exact elevates_missing lone fun _ => wraps.1
        | cons value more =>
          refine elevates_drop begins lone 1 rfl fun _ => ⟨wraps.1, ?_⟩
          rw [wraps.2, if_pos (by simpa using valued)]
          rfl
      · next flag =>
        refine elevates_drop begins lone 0 rfl fun _ => ⟨wraps.1, ?_⟩
        rw [wraps.2, if_neg (by simpa using flag)]
  · rw [if_neg long]
    obtain ⟨n, shell, all, same, known⟩ := unwrapSudoCluster_spec rest (head.drop 1) false true
    rw [unwrapSudoShortOptions, same]
    refine elevates_drop begins lone n rfl fun yes => ?_
    obtain ⟨_, takes, reads, left⟩ := known yes
    have option : sudoOptions.takes head = some takes := by
      unfold Options.takes
      rw [if_neg ends, if_neg long, begins, decide_eq_true lone]
      exact reads
    have wraps := sudoOption_wraps option
    exact ⟨wraps.1, by rw [wraps.2, left]⟩

/-! ## The loop of `sudo` -/

theorem Elevated.andThen_assoc (s part more : Elevated) :
    (s.andThen part).andThen more = s.andThen (part.andThen more) := by
  simp [Elevated.andThen, Bool.and_assoc, Bool.or_assoc]

theorem sudoPass_lowers (s later : Elevated) (pass : sudoPass s = .next later) :
    commandSize later.command < commandSize s.command := by
  have elevates := sudoStep_elevates s.command
  unfold sudoPass at pass
  split at pass
  · cases pass
  · next part step =>
    cases pass
    rw [step] at elevates
    exact elevates.1

/-- `_unwrap_sudo_command`. -/
def unwrapSudoCommand (command : Command) : Elevated :=
  Loop.run sudoPass (fun s => commandSize s.command) sudoPass_lowers ⟨command, false, true⟩

/-- The loop meets a dash alone at one of its passes. -/
def MeetsDash (s : Elevated) : Prop := ∃ t, Loop.Visits sudoPass s t ∧ t.command.head? = some dash

theorem sudoPass_ends {s r : Elevated} (ends : Loop.Ends sudoPass s r) :
    ∃ part, r = s.andThen part ∧ commandSize part.command ≤ commandSize s.command ∧
      Tracks (MeetsDash s) s.command part.part := by
  induction ends with
  | @stop s r last =>
    have elevates := sudoStep_elevates s.command
    have only : MeetsDash s ↔ s.command.head? = some dash := by
      unfold MeetsDash
      simp [Loop.visits_stop last]
    unfold sudoPass at last
    split at last
    · next part step =>
      cases last
      rw [step] at elevates
      refine ⟨part, rfl, elevates.1, elevates.2.2.tracks.congr ?_⟩
      rw [only]
      simpa using elevates.2.1
    · cases last
  | @next s later r pass _ ih =>
    have elevates := sudoStep_elevates s.command
    have split_ : MeetsDash s ↔ s.command.head? = some dash ∨ MeetsDash later := by
      unfold MeetsDash
      simp [Loop.visits_next pass, or_and_right, exists_or]
    unfold sudoPass at pass
    split at pass
    · cases pass
    · next part step =>
      cases pass
      rw [step] at elevates
      obtain ⟨more, rfl, smaller, tracks⟩ := ih
      refine ⟨part.andThen more, Elevated.andThen_assoc s part more, ?_, ?_⟩
      · exact Nat.le_trans smaller (Nat.le_of_lt elevates.1)
      · exact (elevates.2.andThen tracks).congr split_.symm

theorem unwrapSudoCommand_tracks (command : Command) :
    commandSize (unwrapSudoCommand command).command ≤ commandSize command ∧
      Tracks (MeetsDash ⟨command, false, true⟩) command (unwrapSudoCommand command).part := by
  obtain ⟨part, same, smaller, tracks⟩ := sudoPass_ends
    (Loop.ends_run sudoPass (fun s => commandSize s.command) sudoPass_lowers ⟨command, false, true⟩)
  have whole : unwrapSudoCommand command = part := same.trans (by simp [Elevated.andThen])
  rw [whole]
  exact ⟨smaller, tracks⟩

end Loushang.Policy
