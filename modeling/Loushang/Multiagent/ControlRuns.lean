import Loushang.Multiagent.ControlSteps
import Mathlib.Data.List.Range
import Loushang.Lib.Lists

/-!
# Runs of the agent tree

What holds in every state the control plane reaches: the tree stays below its limits, and the
facts tell its whole history, from which the records can be replayed.
-/
namespace Loushang.Multiagent
open Loushang.Lib

/-! ## The tree -/

/-- An open child of this type below this parent. -/
def isChildOf (parentRef : AgentRef) (agentType : AgentName) (child : AgentRecord) : Bool :=
  child.isOpen && child.parentRef = some parentRef && child.agentType = agentType

/-- What holds of the registry: records are filed under their paths and stay below the limits. -/
structure Tree (types : AgentTypeRegistry) (limits : ControlLimits) (c : MultiAgentControl) : Prop where
  keyed : Keyed c
  incarnations : ∀ path, c.registry.incarnations.get? path =
    (c.registry.records.get? path).map fun record => record.ref.incarnation
  parents : ∀ path record, c.registry.records.get? path = some record →
    record.parentRef.map AgentRef.path = path.parent
  depth : ∀ path record, c.registry.records.get? path = some record → path.depth ≤ limits.maxSpawnDepth
  openAgents : c.registry.openCount ≤ limits.maxOpenAgents
  children : ∀ parentRef spec, types.resolve spec.name.val = some spec →
    c.registry.records.values.countP (isChildOf parentRef spec.name) ≤ spec.maximumChildren

section

variable {types : AgentTypeRegistry} {limits : ControlLimits} {call : ControlCall}
  {c next : MultiAgentControl}

variable {record : AgentRecord}

theorem initial_record {path : AgentPath}
    (found : MultiAgentControl.initial.registry.records.get? path = some record) :
    path = .root ∧ record = AgentRegistry.rootRecord := by
  have : (Dict.empty.set AgentPath.root AgentRegistry.rootRecord).get? path = some record := found
  rw [Dict.get?_set] at this
  split at this
  · rename_i isRoot
    exact ⟨isRoot, (Option.some.inj this).symm⟩
  · cases this

theorem tree_initial : Tree types limits .initial where
  keyed := fun path record found => by
    obtain ⟨rfl, rfl⟩ := initial_record found
    rfl
  incarnations := fun path => by
    show (Dict.empty.set AgentPath.root 1).get? path =
      ((Dict.empty.set AgentPath.root AgentRegistry.rootRecord).get? path).map _
    rw [Dict.get?_set, Dict.get?_set]
    split
    · rfl
    · rfl
  parents := fun path record found => by
    obtain ⟨rfl, rfl⟩ := initial_record found
    rfl
  depth := fun path record found => by
    obtain ⟨rfl, rfl⟩ := initial_record found
    exact Nat.zero_le _
  openAgents := limits.positive
  children := fun parentRef spec _ => by
    have none : MultiAgentControl.initial.registry.records.values.countP (isChildOf parentRef spec.name) = 0 := by
      rfl
    rw [none]
    exact Nat.zero_le _

variable {current updated : AgentRecord}

/-- Writing an open agent's record adds nobody to a count it was not in. -/
theorem countP_put (p : AgentRecord → Bool) (known : c.registry.records.get? current.path = some current)
    (kept : Kept current updated) (counted : p updated = true → p current = true) :
    (c.registry.records.set updated.path updated).values.countP p ≤ c.registry.records.values.countP p := by
  have total := c.registry.records.countP_values_set updated.path updated p
  have isPath : updated.path = current.path := by rw [AgentRecord.path, kept.ref, AgentRecord.path]
  rw [isPath, known] at total
  rw [isPath]
  simp only [Option.toList_some, List.countP_singleton] at total
  cases isUpdated : p updated with
  | false =>
    rw [isUpdated] at total
    simp at total
    omega
  | true =>
    rw [isUpdated, counted isUpdated] at total
    simp at total
    omega

/-- A child at a free path adds itself to the counts. -/
theorem countP_enter (p : AgentRecord → Bool) (onlyOpen : ∀ other, p other = true → other.isOpen = true)
    (free : (c.registry.records.get? record.path).any AgentRecord.isOpen = false) :
    (c.registry.records.set record.path record).values.countP p =
      c.registry.records.values.countP p + [record].countP p := by
  have total := c.registry.records.countP_values_set record.path record p
  have before : (c.registry.records.get? record.path).toList.countP p = 0 := by
    cases found : c.registry.records.get? record.path with
    | none => rfl
    | some other =>
      rw [found] at free
      have closed : other.isOpen = false := free
      have out : p other = false := by
        cases isCounted : p other with
        | false => rfl
        | true =>
          rw [onlyOpen other isCounted] at closed
          cases closed
      simp [out]
  omega

theorem Change.opens {kind : AgentFactKind} {progress : Option AgentProgress}
    {terminal : Option TerminalPayload} (change : Change current updated kind progress terminal)
    (isOpen : current.isOpen) : updated.isOpen = decide (kind ≠ .closed) := by
  cases change with
  | begun idle running round progress => simp [AgentRecord.isOpen, running]
  | progressed status round => simpa [AgentRecord.isOpen, status] using isOpen
  | bound status round progress => simpa [AgentRecord.isOpen, status] using isOpen
  | finished terminal running status round =>
    rw [AgentRecord.isOpen, status]
    cases terminal.status with
    | completed => rfl
    | failed => rfl
    | interrupted => rfl
  | closed status round progress => simp [AgentRecord.isOpen, status]

theorem Tree.step (tree : Tree types limits c) (moves : Moves types limits call c next) :
    Tree types limits next := by
  cases moves with
  | stays => exact tree
  | spawned parent name spec record parentOpen admitted shallow room place free path incarnation fresh =>
    have after : ∀ p, (c.registry.records.set record.path record).get? p =
        if p = record.path then some record else c.registry.records.get? p := fun p => Dict.get?_set ..
    have parentRef : record.parentRef = some parent.ref := by
      rw [fresh]
      rfl
    rw [← path] at free
    refine ⟨?_, ?_, ?_, ?_, ?_, ?_⟩
    · intro p other found
      have found : (c.registry.records.set record.path record).get? p = some other := found
      rw [after] at found
      split at found
      · rename_i same
        cases found
        exact same.symm
      · exact tree.keyed p other found
    · intro p
      show (c.registry.incarnations.set record.path record.ref.incarnation).get? p =
        ((c.registry.records.set record.path record).get? p).map _
      rw [after, Dict.get?_set]
      split
      · rfl
      · exact tree.incarnations p
    · intro p other found
      have found : (c.registry.records.set record.path record).get? p = some other := found
      rw [after] at found
      split at found
      · rename_i same
        cases found
        rw [parentRef, same, path, AgentPath.parent_child]
        rfl
      · exact tree.parents p other found
    · intro p other found
      have found : (c.registry.records.set record.path record).get? p = some other := found
      rw [after] at found
      split at found
      · rename_i same
        rw [same, path, AgentPath.depth_child]
        exact shallow
      · exact tree.depth p other found
    · show (c.registry.records.set record.path record).values.countP AgentRecord.isOpen ≤ _
      have total := countP_enter AgentRecord.isOpen (fun _ isOpen => isOpen) free
      have one : [record].countP AgentRecord.isOpen ≤ 1 := List.countP_le_length
      unfold AgentRegistry.openCount at room
      omega
    · intro parentRef' spec' resolved
      show (c.registry.records.set record.path record).values.countP (isChildOf parentRef' spec'.name) ≤ _
      have total := countP_enter (isChildOf parentRef' spec'.name) (fun other isChild => by
        simp only [isChildOf, Bool.and_eq_true] at isChild
        exact isChild.1.1) free
      have before := tree.children parentRef' spec' resolved
      have one : [record].countP (isChildOf parentRef' spec'.name) ≤ 1 := List.countP_le_length
      by_cases mine : isChildOf parentRef' spec'.name record = true
      · simp only [isChildOf, Bool.and_eq_true, decide_eq_true_eq] at mine
        obtain ⟨⟨-, sameParent⟩, sameType⟩ := mine
        rw [parentRef] at sameParent
        have isType : spec.name = spec'.name := by
          rw [← sameType, fresh]
          rfl
        rw [isType, resolved] at admitted
        cases admitted
        cases sameParent
        have place : c.registry.records.values.countP (isChildOf parent.ref spec.name) <
            spec.maximumChildren := place
        omega
      · have none : [record].countP (isChildOf parentRef' spec'.name) = 0 := by simp [mine]
        omega
  | written current updated kind progress terminal known isOpen kept change closing =>
    have isPath : updated.path = current.path := by rw [AgentRecord.path, kept.ref, AgentRecord.path]
    have after : ∀ p, (c.registry.records.set updated.path updated).get? p =
        if p = updated.path then some updated else c.registry.records.get? p := fun p => Dict.get?_set ..
    have isCurrent : ∀ p, p = updated.path → c.registry.records.get? p = some current := by
      intro p same
      rw [same, isPath]
      exact known
    refine ⟨?_, ?_, ?_, ?_, ?_, ?_⟩
    · intro p other found
      have found : (c.registry.records.set updated.path updated).get? p = some other := found
      rw [after] at found
      split at found
      · rename_i same
        cases found
        exact same.symm
      · exact tree.keyed p other found
    · intro p
      show c.registry.incarnations.get? p = ((c.registry.records.set updated.path updated).get? p).map _
      rw [after, tree.incarnations]
      split
      · rename_i same
        rw [isCurrent p same, Option.map_some, Option.map_some, kept.ref]
      · rfl
    · intro p other found
      have found : (c.registry.records.set updated.path updated).get? p = some other := found
      rw [after] at found
      split at found
      · rename_i same
        cases found
        rw [kept.parentRef]
        exact tree.parents p current (isCurrent p same)
      · exact tree.parents p other found
    · intro p other found
      have found : (c.registry.records.set updated.path updated).get? p = some other := found
      rw [after] at found
      split at found
      · rename_i same
        exact tree.depth p current (isCurrent p same)
      · exact tree.depth p other found
    · exact Nat.le_trans (countP_put AgentRecord.isOpen known kept fun _ => isOpen) tree.openAgents
    · intro parentRef spec resolved
      refine Nat.le_trans (countP_put _ known kept fun counted => ?_) (tree.children parentRef spec resolved)
      simp only [isChildOf, Bool.and_eq_true, decide_eq_true_eq] at counted ⊢
      rw [← kept.parentRef, ← kept.agentType]
      exact ⟨⟨isOpen, counted.1.2⟩, counted.2⟩

end

/-! ## The facts tell the records -/

/-- A consumer that keeps each path's record from the facts alone. -/
def replayFact (records : Dict AgentPath AgentRecord) (fact : AgentFact) : Dict AgentPath AgentRecord :=
  let earlier := ((records.get? fact.ref.path).filter fun record => record.ref = fact.ref).map
    AgentRecord.progress
  records.set fact.ref.path
    { ref := fact.ref
      parentRef := fact.parentRef
      agentType := fact.agentType
      status := fact.status
      roundId := fact.roundId
      progress := (fact.progress.or earlier).getD .initial
      workspaceRef := fact.workspaceRef
      artifactRefs := fact.artifactRefs
      changeSetRef := fact.changeSetRef }

def replayFacts (facts : List AgentFact) : Dict AgentPath AgentRecord :=
  facts.foldl replayFact AgentRegistry.initial.records

/-- What the published facts and notices say about the registry. -/
structure Told (c : MultiAgentControl) : Prop where
  counted : c.factSequence = c.facts.length
  sequences : c.facts.map AgentFact.sequence = List.range' 1 c.facts.length
  replay : replayFacts c.facts = c.registry.records
  notices : c.notices = c.facts.filterMap AgentFact.notice?

section

variable {types : AgentTypeRegistry} {limits : ControlLimits} {call : ControlCall}
  {c next : MultiAgentControl}

theorem told_initial : Told .initial := ⟨rfl, rfl, rfl, rfl⟩

theorem replayFacts_append (facts : List AgentFact) (fact : AgentFact) :
    replayFacts (facts ++ [fact]) = replayFact (replayFacts facts) fact := by
  unfold replayFacts
  rw [List.foldl_append]
  rfl

variable {kind : AgentFactKind} {progress : Option AgentProgress}

/-- The fact about a written record replays to it. -/
theorem replayFact_factOf {records : Dict AgentPath AgentRecord} {record : AgentRecord} {sequence : Nat}
    {terminal : Option TerminalPayload}
    (carried : (progress.or (((records.get? record.ref.path).filter fun earlier =>
      earlier.ref = record.ref).map AgentRecord.progress)).getD .initial = record.progress) :
    replayFact records (factOf sequence kind record progress terminal) =
      records.set record.path record := by
  unfold replayFact factOf
  dsimp only
  rw [carried]
  rfl

variable {current updated : AgentRecord}

theorem Change.carried {terminal : Option TerminalPayload}
    (change : Change current updated kind progress terminal) :
    progress = some updated.progress ∨ progress = none ∧ updated.progress = current.progress := by
  cases change with
  | begun idle running round progress => exact .inr ⟨rfl, progress⟩
  | progressed status round => exact .inl rfl
  | bound status round progress => exact .inr ⟨rfl, progress⟩
  | finished terminal running status round => exact .inl rfl
  | closed status round progress => exact .inr ⟨rfl, progress⟩

theorem Told.step (tree : Tree types limits c) (told : Told c) (moves : Moves types limits call c next) :
    Told next := by
  have counted : ∀ fact : AgentFact, fact.sequence = c.factSequence + 1 →
      (c.facts ++ [fact]).map AgentFact.sequence = List.range' 1 (c.facts ++ [fact]).length := by
    intro fact isNext
    rw [List.map_append, told.sequences, List.length_append, List.length_singleton, List.range'_concat,
      List.map_singleton, isNext, told.counted]
    simp [Nat.add_comm]
  cases moves with
  | stays => exact told
  | spawned parent name spec record parentOpen admitted shallow room place free path incarnation fresh =>
    let fact := factOf (c.factSequence + 1) .spawned record none none
    refine ⟨?_, counted fact rfl, ?_, ?_⟩
    · show c.factSequence + 1 = (c.facts ++ [fact]).length
      rw [told.counted, List.length_append]
      rfl
    · show replayFacts (c.facts ++ [fact]) = c.registry.records.set record.path record
      rw [replayFacts_append, told.replay]
      apply replayFact_factOf
      have unknown : (c.registry.records.get? record.ref.path).filter (fun earlier => earlier.ref = record.ref) =
          none := by
        rw [Option.filter_eq_none_iff]
        intro earlier known same
        have older := tree.incarnations record.path
        have isKnown : c.registry.records.get? record.path = some earlier := known
        rw [isKnown, Option.map_some] at older
        rw [older, Option.getD_some] at incarnation
        have same : earlier.ref = record.ref := by simpa using same
        rw [same] at incarnation
        omega
      rw [unknown, fresh]
      rfl
    · show c.notices = (c.facts ++ [fact]).filterMap AgentFact.notice?
      rw [List.filterMap_append, ← told.notices]
      simp [fact, factOf, AgentFact.notice?]
  | written current updated kind progress terminal known isOpen kept change closing =>
    let fact := factOf (c.factSequence + 1) kind updated progress terminal
    refine ⟨?_, counted fact rfl, ?_, ?_⟩
    · show c.factSequence + 1 = (c.facts ++ [fact]).length
      rw [told.counted, List.length_append]
      rfl
    · show replayFacts (c.facts ++ [fact]) = c.registry.records.set updated.path updated
      rw [replayFacts_append, told.replay]
      apply replayFact_factOf
      rw [kept.ref]
      have known : c.registry.records.get? current.ref.path = some current := known
      rw [known, Option.filter_some, decide_eq_true rfl, if_pos rfl]
      rcases change.carried with isNew | ⟨none, same⟩
      · rw [isNew]
        rfl
      · rw [none, same]
        rfl
    · show c.notices ++ fact.notice?.toList = (c.facts ++ [fact]).filterMap AgentFact.notice?
      rw [List.filterMap_append, ← told.notices]
      cases told : fact.notice? with
      | none => simp [told]
      | some notice => simp [told]

/-! ## The history of incarnations and rounds -/

/-- The incarnations spawned at a path, in order. -/
def incarnationsOf (facts : List AgentFact) (path : AgentPath) : List Nat :=
  (facts.filter fun fact => fact.kind = .spawned && fact.ref.path = path).map fun fact => fact.ref.incarnation

/-- The rounds an incarnation began, in order. -/
def roundsOf (facts : List AgentFact) (ref : AgentRef) : List Nat :=
  (facts.filter fun fact => fact.kind = .statusChanged && fact.ref = ref).map AgentFact.roundId

/-- The rounds told to be finished. -/
def terminalRounds (facts : List AgentFact) : List (AgentRef × Nat) :=
  (facts.filter fun fact => fact.kind = .terminal).map fun fact => (fact.ref, fact.roundId)

structure History (c : MultiAgentControl) : Prop where
  spawns : ∀ path, path ≠ .root →
    incarnationsOf c.facts path = List.range' 1 ((c.registry.incarnations.get? path).getD 0)
  begun : ∀ fact ∈ c.facts, fact.ref.incarnation ≤ (c.registry.incarnations.get? fact.ref.path).getD 0
  rounds : ∀ ref, roundsOf c.facts ref = List.range' 1 (roundsOf c.facts ref).length
  current : ∀ path record, c.registry.records.get? path = some record →
    (roundsOf c.facts record.ref).length = record.roundId
  terminals : (terminalRounds c.facts).Nodup
  settled : ∀ path record, c.registry.records.get? path = some record → record.status = .running →
    (record.ref, record.roundId) ∉ terminalRounds c.facts
  bounded : ∀ path record, c.registry.records.get? path = some record → ∀ round,
    (record.ref, round) ∈ terminalRounds c.facts → round ≤ record.roundId

theorem history_initial : History .initial where
  spawns := fun path other => by
    show [] = List.range' 1 (((Dict.empty.set AgentPath.root 1).get? path).getD 0)
    rw [Dict.get?_set, if_neg other]
    rfl
  begun := fun _ member => by cases member
  rounds := fun _ => rfl
  current := fun path record found => by
    obtain ⟨rfl, rfl⟩ := initial_record found
    rfl
  terminals := List.nodup_nil
  settled := fun _ _ _ _ member => by cases member
  bounded := fun _ _ _ _ member => by cases member

theorem incarnationsOf_append (facts : List AgentFact) (fact : AgentFact) (path : AgentPath) :
    incarnationsOf (facts ++ [fact]) path = incarnationsOf facts path ++
      if fact.kind = .spawned ∧ fact.ref.path = path then [fact.ref.incarnation] else [] := by
  unfold incarnationsOf
  rw [List.filter_append, List.map_append, List.filter_singleton]
  split
  · rename_i isNew
    simp [isNew]
  · rename_i notNew
    have out : (fact.kind = .spawned && fact.ref.path = path : Bool) = false := by
      rw [Bool.eq_false_iff]
      simpa using notNew
    simp [out]

theorem roundsOf_append (facts : List AgentFact) (fact : AgentFact) (ref : AgentRef) :
    roundsOf (facts ++ [fact]) ref = roundsOf facts ref ++
      if fact.kind = .statusChanged ∧ fact.ref = ref then [fact.roundId] else [] := by
  unfold roundsOf
  rw [List.filter_append, List.map_append, List.filter_singleton]
  split
  · rename_i isNew
    simp [isNew]
  · rename_i notNew
    have out : (fact.kind = .statusChanged && fact.ref = ref : Bool) = false := by
      rw [Bool.eq_false_iff]
      simpa using notNew
    simp [out]

theorem terminalRounds_append (facts : List AgentFact) (fact : AgentFact) :
    terminalRounds (facts ++ [fact]) = terminalRounds facts ++
      if fact.kind = .terminal then [(fact.ref, fact.roundId)] else [] := by
  unfold terminalRounds
  rw [List.filter_append, List.map_append, List.filter_singleton]
  by_cases this : fact.kind = .terminal
  · simp [this]
  · simp [this]

/-- An incarnation that nobody was told of has no history. -/
theorem History.unheard (history : History c) {ref : AgentRef}
    (new : (c.registry.incarnations.get? ref.path).getD 0 < ref.incarnation) :
    roundsOf c.facts ref = [] ∧ ∀ round, (ref, round) ∉ terminalRounds c.facts := by
  have other : ∀ fact ∈ c.facts, fact.ref ≠ ref := by
    intro fact member same
    have older := history.begun fact member
    rw [same] at older
    omega
  constructor
  · unfold roundsOf
    rw [List.map_eq_nil_iff, List.filter_eq_nil_iff]
    intro fact member
    simp [other fact member]
  · intro round member
    unfold terminalRounds at member
    obtain ⟨fact, listed, same⟩ := List.mem_map.mp member
    exact other fact (List.mem_filter.mp listed).1 (Prod.mk.inj same).1

theorem Change.not_spawned {terminal : Option TerminalPayload}
    (change : Change current updated kind progress terminal) : kind ≠ .spawned := by
  cases change with
  | begun => exact nofun
  | progressed => exact nofun
  | bound => exact nofun
  | finished => exact nofun
  | closed => exact nofun

/-- Only a begun round moves the round, and only one that is told as a change of status. -/
theorem Change.round {terminal : Option TerminalPayload}
    (change : Change current updated kind progress terminal) :
    kind = .statusChanged ∧ updated.roundId = current.roundId + 1 ∨
      kind ≠ .statusChanged ∧ updated.roundId = current.roundId := by
  cases change with
  | begun idle running round progress => exact .inl ⟨rfl, round⟩
  | progressed status round => exact .inr ⟨nofun, round⟩
  | bound status round progress => exact .inr ⟨nofun, round⟩
  | finished terminal running status round => exact .inr ⟨nofun, round⟩
  | closed status round progress => exact .inr ⟨nofun, round⟩

theorem Change.terminal {terminal : Option TerminalPayload}
    (change : Change current updated kind progress terminal) (isTerminal : kind = .terminal) :
    current.status = .running ∧ updated.status ≠ .running ∧ updated.roundId = current.roundId := by
  cases change with
  | begun => cases isTerminal
  | progressed => cases isTerminal
  | bound => cases isTerminal
  | finished terminal running status round =>
    refine ⟨running, ?_, round⟩
    rw [status]
    cases terminal.status with
    | completed => exact nofun
    | failed => exact nofun
    | interrupted => exact nofun
  | closed => cases isTerminal

/-- A record that is running after a write was running in this round before, or has just begun it. -/
theorem Change.running {terminal : Option TerminalPayload}
    (change : Change current updated kind progress terminal) (running : updated.status = .running) :
    current.status = .running ∧ updated.roundId = current.roundId ∨
      updated.roundId = current.roundId + 1 := by
  cases change with
  | begun idle running round progress => exact .inr round
  | progressed status round => exact .inl ⟨by rw [← status, running], round⟩
  | bound status round progress => exact .inl ⟨by rw [← status, running], round⟩
  | finished terminal wasRunning status round => exact .inl ⟨wasRunning, round⟩
  | closed status round progress =>
    rw [status] at running
    cases running

theorem History.step (tree : Tree types limits c) (history : History c)
    (moves : Moves types limits call c next) : History next := by
  cases moves with
  | stays => exact history
  | spawned parent name spec record parentOpen admitted shallow room place free path incarnation fresh =>
    let fact := factOf (c.factSequence + 1) .spawned record none none
    have after : ∀ p, (c.registry.records.set record.path record).get? p =
        if p = record.path then some record else c.registry.records.get? p := fun p => Dict.get?_set ..
    have counts : ∀ p, (c.registry.incarnations.set record.path record.ref.incarnation).get? p =
        if p = record.path then some record.ref.incarnation else c.registry.incarnations.get? p :=
      fun p => Dict.get?_set ..
    have sameRounds : ∀ ref, roundsOf (c.facts ++ [fact]) ref = roundsOf c.facts ref := by
      intro ref
      rw [roundsOf_append, if_neg (by simp [fact, factOf]), List.append_nil]
    have sameTerminals : terminalRounds (c.facts ++ [fact]) = terminalRounds c.facts := by
      rw [terminalRounds_append, if_neg (by simp [fact, factOf]), List.append_nil]
    have unheard := history.unheard (show (c.registry.incarnations.get? record.ref.path).getD 0 <
      record.ref.incarnation by
        have isNext : record.ref.incarnation =
          (c.registry.incarnations.get? record.ref.path).getD 0 + 1 := incarnation
        omega)
    refine ⟨?_, ?_, ?_, ?_, ?_, ?_, ?_⟩
    · intro p other
      show incarnationsOf (c.facts ++ [fact]) p = List.range' 1
        (((c.registry.incarnations.set record.path record.ref.incarnation).get? p).getD 0)
      rw [incarnationsOf_append, history.spawns p other, counts]
      by_cases here : p = record.path
      · have isNew : fact.kind = .spawned ∧ fact.ref.path = p := ⟨rfl, here.symm⟩
        rw [if_pos isNew, if_pos here, Option.getD_some, incarnation, ← here, List.range'_concat]
        have isIncarnation : fact.ref.incarnation = record.ref.incarnation := rfl
        rw [isIncarnation, incarnation, ← here]
        simp [Nat.add_comm]
      · have notNew : ¬(fact.kind = .spawned ∧ fact.ref.path = p) := fun isNew => here isNew.2.symm
        rw [if_neg notNew, if_neg here, List.append_nil]
    · intro other member
      show other.ref.incarnation ≤
        ((c.registry.incarnations.set record.path record.ref.incarnation).get? other.ref.path).getD 0
      rw [counts]
      rcases List.mem_append.mp member with earlier | isNew
      · have older := history.begun other earlier
        split
        · rename_i here
          rw [here] at older
          rw [Option.getD_some]
          omega
        · exact older
      · have isFact : other = fact := List.mem_singleton.mp isNew
        have here : other.ref.path = record.path := by
          rw [isFact]
          rfl
        rw [if_pos here, isFact]
        exact Nat.le_refl _
    · intro ref
      show roundsOf (c.facts ++ [fact]) ref = List.range' 1 (roundsOf (c.facts ++ [fact]) ref).length
      rw [sameRounds]
      exact history.rounds ref
    · intro p other found
      have found : (c.registry.records.set record.path record).get? p = some other := found
      show (roundsOf (c.facts ++ [fact]) other.ref).length = other.roundId
      rw [after] at found
      rw [sameRounds]
      split at found
      · cases found
        rw [unheard.1, fresh]
        rfl
      · exact history.current p other found
    · show (terminalRounds (c.facts ++ [fact])).Nodup
      rw [sameTerminals]
      exact history.terminals
    · intro p other found running
      have found : (c.registry.records.set record.path record).get? p = some other := found
      show (other.ref, other.roundId) ∉ terminalRounds (c.facts ++ [fact])
      rw [after] at found
      rw [sameTerminals]
      split at found
      · cases found
        exact unheard.2 _
      · exact history.settled p other found running
    · intro p other found round ended
      have found : (c.registry.records.set record.path record).get? p = some other := found
      have ended : (other.ref, round) ∈ terminalRounds (c.facts ++ [fact]) := ended
      rw [after] at found
      rw [sameTerminals] at ended
      split at found
      · cases found
        exact absurd ended (unheard.2 round)
      · exact history.bounded p other found round ended
  | written current updated kind progress terminal known isOpen kept change closing =>
    let fact := factOf (c.factSequence + 1) kind updated progress terminal
    have isRef : fact.ref = current.ref := kept.ref
    have isPath : updated.path = current.path := by rw [AgentRecord.path, kept.ref, AgentRecord.path]
    have after : ∀ p, (c.registry.records.set updated.path updated).get? p =
        if p = updated.path then some updated else c.registry.records.get? p := fun p => Dict.get?_set ..
    have others : ∀ p other, p ≠ updated.path → c.registry.records.get? p = some other →
        other.ref ≠ current.ref := by
      intro p other elsewhere found same
      have isThere := tree.keyed p other found
      rw [AgentRecord.path, same, ← AgentRecord.path, ← isPath] at isThere
      exact elsewhere isThere.symm
    refine ⟨?_, ?_, ?_, ?_, ?_, ?_, ?_⟩
    · intro p other
      show incarnationsOf (c.facts ++ [fact]) p = List.range' 1 ((c.registry.incarnations.get? p).getD 0)
      have notNew : ¬(fact.kind = .spawned ∧ fact.ref.path = p) := fun isNew => change.not_spawned isNew.1
      rw [incarnationsOf_append, if_neg notNew, List.append_nil]
      exact history.spawns p other
    · intro other member
      show other.ref.incarnation ≤ (c.registry.incarnations.get? other.ref.path).getD 0
      rcases List.mem_append.mp member with earlier | isNew
      · exact history.begun other earlier
      · have isFact : other = fact := List.mem_singleton.mp isNew
        have held := tree.incarnations current.path
        rw [known, Option.map_some] at held
        have held : c.registry.incarnations.get? current.ref.path = some current.ref.incarnation := held
        rw [isFact, isRef, held]
        exact Nat.le_refl _
    · intro ref
      show roundsOf (c.facts ++ [fact]) ref = List.range' 1 (roundsOf (c.facts ++ [fact]) ref).length
      rw [roundsOf_append]
      split
      · rename_i isNew
        have count := history.current current.path current known
        have isUpdated : fact.roundId = updated.roundId := rfl
        have sequence := history.rounds ref
        rw [← isNew.2, isRef] at sequence ⊢
        rcases change.round with ⟨-, round⟩ | ⟨notBegun, -⟩
        · rw [List.length_append, List.length_singleton, List.range'_concat, ← sequence, isUpdated, round,
            count]
          simp [Nat.add_comm]
        · exact absurd isNew.1 notBegun
      · rw [List.append_nil]
        exact history.rounds ref
    · intro p other found
      have found : (c.registry.records.set updated.path updated).get? p = some other := found
      show (roundsOf (c.facts ++ [fact]) other.ref).length = other.roundId
      rw [after] at found
      rw [roundsOf_append]
      split at found
      · cases found
        have count := history.current current.path current known
        rcases change.round with ⟨isBegun, round⟩ | ⟨notBegun, round⟩
        · have isNew : fact.kind = .statusChanged ∧ fact.ref = updated.ref := ⟨isBegun, rfl⟩
          rw [if_pos isNew, List.length_append, kept.ref, count, round]
          rfl
        · have notNew : ¬(fact.kind = .statusChanged ∧ fact.ref = updated.ref) := fun isNew => notBegun isNew.1
          rw [if_neg notNew, List.append_nil, kept.ref, count, round]
      · rename_i elsewhere
        have notNew : ¬(fact.kind = .statusChanged ∧ fact.ref = other.ref) := by
          intro isNew
          exact others p other elsewhere found (isNew.2.symm.trans isRef)
        rw [if_neg notNew, List.append_nil]
        exact history.current p other found
    · show (terminalRounds (c.facts ++ [fact])).Nodup
      rw [terminalRounds_append]
      split
      · rename_i isTerminal
        obtain ⟨running, -, round⟩ := change.terminal isTerminal
        refine nodup_snoc history.terminals ?_
        intro member
        have isRound : fact.roundId = current.roundId := round
        rw [isRef, isRound] at member
        exact history.settled current.path current known running member
      · rw [List.append_nil]
        exact history.terminals
    · intro p other found running
      have found : (c.registry.records.set updated.path updated).get? p = some other := found
      show (other.ref, other.roundId) ∉ terminalRounds (c.facts ++ [fact])
      rw [after] at found
      rw [terminalRounds_append]
      intro ended
      split at found
      · cases found
        rcases List.mem_append.mp ended with earlier | isNew
        · rw [kept.ref] at earlier
          rcases change.running running with ⟨wasRunning, round⟩ | round
          · rw [round] at earlier
            exact history.settled current.path current known wasRunning earlier
          · have low := history.bounded current.path current known _ earlier
            omega
        · split at isNew
          · rename_i isTerminal
            exact (change.terminal isTerminal).2.1 running
          · cases isNew
      · rename_i elsewhere
        rcases List.mem_append.mp ended with earlier | isNew
        · exact history.settled p other found running earlier
        · split at isNew
          · have same := (Prod.mk.inj (List.mem_singleton.mp isNew)).1
            exact others p other elsewhere found (same.trans isRef)
          · cases isNew
    · intro p other found round ended
      have found : (c.registry.records.set updated.path updated).get? p = some other := found
      have ended : (other.ref, round) ∈ terminalRounds (c.facts ++ [fact]) := ended
      rw [after] at found
      rw [terminalRounds_append] at ended
      split at found
      · cases found
        rcases List.mem_append.mp ended with earlier | isNew
        · rw [kept.ref] at earlier
          have low := history.bounded current.path current known round earlier
          rcases change.round with ⟨-, same⟩ | ⟨-, same⟩
          · omega
          · omega
        · split at isNew
          · have same := (Prod.mk.inj (List.mem_singleton.mp isNew)).2
            have isRound : fact.roundId = updated.roundId := rfl
            omega
          · cases isNew
      · rename_i elsewhere
        rcases List.mem_append.mp ended with earlier | isNew
        · exact history.bounded p other found round earlier
        · split at isNew
          · have same := (Prod.mk.inj (List.mem_singleton.mp isNew)).1
            exact absurd (same.trans isRef) (others p other elsewhere found)
          · cases isNew

end

/-! ## Open parents -/

/-- Every open agent but the root has an open parent, of the incarnation it was spawned under. -/
def Rooted (c : MultiAgentControl) : Prop :=
  ∀ path record, c.registry.records.get? path = some record → record.isOpen → path ≠ .root →
    ∃ parentRef, record.parentRef = some parentRef ∧ (c.registry.getOpen? parentRef).isSome

/-- An agent is closed once no open child of it is left. -/
def ClosesChildless (c : MultiAgentControl) : ControlCall → Prop
  | .commitClosed ref => ∀ path child, c.registry.records.get? path = some child → child.isOpen →
      child.parentRef ≠ some ref
  | _ => True

section

variable {types : AgentTypeRegistry} {authority : AgentAuthority} {limits : ControlLimits} {call : ControlCall}
  {c next : MultiAgentControl}

theorem rooted_initial : Rooted .initial := by
  intro path record found isOpen other
  obtain ⟨rfl, rfl⟩ := initial_record found
  exact absurd rfl other

variable {ref : AgentRef}

theorem AgentRegistry.getOpen?_isSome {registry : AgentRegistry} :
    (registry.getOpen? ref).isSome ↔
      ∃ record, registry.records.get? ref.path = some record ∧ record.ref = ref ∧ record.isOpen := by
  rw [Option.isSome_iff_exists]
  constructor
  · rintro ⟨record, found⟩
    obtain ⟨found, isOpen⟩ := getOpen?_eq_some.mp found
    obtain ⟨known, isRef⟩ := get?_eq_some.mp found
    exact ⟨record, known, isRef, isOpen⟩
  · rintro ⟨record, known, isRef, isOpen⟩
    exact ⟨record, getOpen?_eq_some.mpr ⟨get?_eq_some.mpr ⟨known, isRef⟩, isOpen⟩⟩

theorem Rooted.step (rooted : Rooted c) (moves : Moves types limits call c next)
    (closes : ClosesChildless c call) : Rooted next := by
  cases moves with
  | stays => exact rooted
  | spawned parent name spec record parentOpen admitted shallow room place free path incarnation fresh =>
    have after : ∀ p, (c.registry.records.set record.path record).get? p =
        if p = record.path then some record else c.registry.records.get? p := fun p => Dict.get?_set ..
    rw [← path] at free
    -- an open agent is not at the path the child takes
    have still : ∀ ref, (c.registry.getOpen? ref).isSome → ((c.registry.enter record).getOpen? ref).isSome := by
      intro ref isSome
      obtain ⟨holder, known, isRef, isOpen⟩ := AgentRegistry.getOpen?_isSome.mp isSome
      refine AgentRegistry.getOpen?_isSome.mpr ⟨holder, ?_, isRef, isOpen⟩
      show (c.registry.records.set record.path record).get? ref.path = some holder
      rw [after, if_neg]
      · exact known
      · intro here
        rw [here] at known
        rw [known, Option.any_some, isOpen] at free
        cases free
    intro p other found isOpen elsewhere
    have found : (c.registry.records.set record.path record).get? p = some other := found
    rw [after] at found
    split at found
    · cases found
      refine ⟨parent.ref, by rw [fresh]; rfl, still parent.ref ?_⟩
      obtain ⟨known, isOpen⟩ := AgentRegistry.current_eq_some.mp parentOpen
      exact AgentRegistry.getOpen?_isSome.mpr ⟨parent, known, rfl, isOpen⟩
    · obtain ⟨parentRef, isParent, isSome⟩ := rooted p other found isOpen elsewhere
      exact ⟨parentRef, isParent, still parentRef isSome⟩
  | written current updated kind progress terminal known isOpen kept change closing =>
    have isPath : updated.path = current.path := by rw [AgentRecord.path, kept.ref, AgentRecord.path]
    have after : ∀ p, (c.registry.records.set updated.path updated).get? p =
        if p = updated.path then some updated else c.registry.records.get? p := fun p => Dict.get?_set ..
    -- only the written agent can stop being open, and then nobody has it for a parent
    have still : ∀ ref, (c.registry.getOpen? ref).isSome → (kind = .closed → ref ≠ current.ref) →
        ((c.put updated).registry.getOpen? ref).isSome := by
      intro ref isSome notClosed
      obtain ⟨holder, holds, isRef, holderOpen⟩ := AgentRegistry.getOpen?_isSome.mp isSome
      rw [AgentRegistry.getOpen?_isSome]
      show ∃ record, (c.registry.records.set updated.path updated).get? ref.path = some record ∧ _
      rw [after]
      split
      · rename_i here
        rw [here, isPath, known] at holds
        cases holds
        refine ⟨updated, rfl, kept.ref.trans isRef, ?_⟩
        rw [change.opens isOpen, decide_eq_true_eq]
        exact fun isClosed => notClosed isClosed isRef.symm
      · exact ⟨holder, holds, isRef, holderOpen⟩
    have childless : kind = .closed → ∀ path child, c.registry.records.get? path = some child →
        child.isOpen → child.parentRef ≠ some current.ref := by
      intro isClosed
      rw [closing isClosed] at closes
      exact closes
    intro p other found otherOpen elsewhere
    have found : (c.registry.records.set updated.path updated).get? p = some other := found
    rw [after] at found
    have earlier : ∃ before, c.registry.records.get? p = some before ∧ before.isOpen ∧
        before.parentRef = other.parentRef := by
      split at found
      · rename_i here
        cases found
        refine ⟨current, ?_, isOpen, kept.parentRef.symm⟩
        rw [here, isPath]
        exact known
      · exact ⟨other, found, otherOpen, rfl⟩
    obtain ⟨before, wasThere, wasOpen, sameParent⟩ := earlier
    obtain ⟨parentRef, isParent, isSome⟩ := rooted p before wasThere wasOpen elsewhere
    refine ⟨parentRef, sameParent ▸ isParent, still parentRef isSome fun isClosed same => ?_⟩
    exact childless isClosed p before wasThere wasOpen (same ▸ isParent)

/-! ## Finished rounds -/

/-- The round a call finishes. -/
def ControlCall.finishes? : ControlCall → Option (AgentRef × Int)
  | .finishRound ref roundId _ => some (ref, roundId)
  | .recordInterrupted ref roundId _ => some (ref, roundId)
  | _ => none

/-- A finish is applied and told once, with a notice to the parent, or changes nothing. -/
def TellsFinish (c next : MultiAgentControl) (ref : AgentRef) (roundId : Int)
    (answer : Except ControlError ControlAnswer) : Prop :=
  ∃ transition, answer = .ok (.transition transition) ∧
    if transition.applied then
      ∃ fact, fact.kind = .terminal ∧ fact.ref = ref ∧ (fact.roundId : Int) = roundId ∧
        next.facts = c.facts ++ [fact] ∧ next.notices = c.notices ++ fact.notice?.toList ∧
        fact.notice?.map AgentCompletionNotice.recipientRef = fact.parentRef
    else next = c

theorem finishRound_tells (ref : AgentRef) (roundId : Int) (result : MultiAgentControl.RoundResult)
    (published : 0 ≤ result.durationMs) :
    TellsFinish c (c.finishRound ref roundId result).2 ref roundId
      ((c.finishRound ref roundId result).1.map .transition) := by
  rcases finishRound_cases ref roundId result published with ⟨transition, same, notApplied⟩ |
    ⟨current, updated, terminal, -, isRef, isRound, -, kept, -, round, same, transition, answer, applied⟩
  · rw [same]
    refine ⟨transition, rfl, ?_⟩
    rw [notApplied]
    exact rfl
  · rw [same, answer]
    refine ⟨transition, rfl, ?_⟩
    rw [applied, if_pos rfl]
    refine ⟨_, rfl, kept.ref.trans isRef, ?_, rfl, rfl, ?_⟩
    · show (updated.roundId : Int) = roundId
      rw [round, isRound]
    · unfold AgentFact.notice? factOf
      dsimp only
      cases updated.parentRef with
      | none => rfl
      | some recipient => rfl

theorem runCall_tells {roundId : Int} (finishes : call.finishes? = some (ref, roundId))
    (published : call.Published) :
    TellsFinish c (runCall types authority limits c call).2 ref roundId
      (runCall types authority limits c call).1 := by
  cases call with
  | finishRound target round result =>
    cases finishes
    exact finishRound_tells ref roundId result published
  | recordInterrupted target round summary =>
    cases finishes
    exact finishRound_tells ref roundId _ (Int.le_refl 0)
  | spawn => cases finishes
  | beginRound => cases finishes
  | recordProgress => cases finishes
  | bindWorkspace => cases finishes
  | recordWorkspaceSnapshot => cases finishes
  | commitClosed => cases finishes

end

/-! ## Runs -/

section

variable (types : AgentTypeRegistry) (authority : AgentAuthority) (limits : ControlLimits)

end

/-! A small tree. -/

def leadName : AgentName := ⟨"lead", by decide⟩

def helperName : AgentName := ⟨"helper", by decide⟩

def leadType : AgentTypeSpec := ⟨⟨"coordinator", by decide⟩, true, 3, by decide⟩

def leadTypes : AgentTypeRegistry := ⟨[leadType], by decide⟩

def roomyLimits : ControlLimits := ⟨8, 3, by decide⟩

def leadRecord : AgentRecord :=
  .fresh ⟨.child .root leadName, 1, Nat.one_pos⟩ (some ⟨.root, 1, Nat.one_pos⟩) leadType.name

def spawnLead : ControlCall := .spawn .host .root "lead" "coordinator"

def spawnHelper : ControlCall := .spawn (.agent leadRecord.ref) leadRecord.path "helper" "coordinator"

/-- A lead that runs one round and is closed. -/
def leadRound : List ControlCall :=
  [spawnLead, .beginRound leadRecord.ref,
    .finishRound leadRecord.ref 1 { status := .completed, finalMessage := "done", durationMs := 5 },
    .commitClosed leadRecord.ref]

end Loushang.Multiagent
