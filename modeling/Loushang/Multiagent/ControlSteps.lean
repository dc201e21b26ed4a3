import Loushang.Multiagent.Control
import Loushang.Lib.Raises

/-!
# Steps of the agent tree

What one call does to the control plane: it leaves it alone, admits a child, or writes one open
agent's record and emits the fact about it.
-/
namespace Loushang.Multiagent
open Loushang.Lib

/-! ## The registry's operations -/

namespace AgentRegistry

variable {registry : AgentRegistry} {ref : AgentRef} {current : AgentRecord}

theorem get?_eq_some :
    registry.get? ref = some current ↔ registry.records.get? ref.path = some current ∧ current.ref = ref := by
  simp [get?]

theorem getOpen?_eq_some :
    registry.getOpen? ref = some current ↔ registry.get? ref = some current ∧ current.isOpen := by
  simp [getOpen?]

theorem current_eq_some {path : AgentPath} {record : AgentRecord} :
    registry.current path = some record ↔ registry.records.get? path = some record ∧ record.isOpen := by
  simp [current]

theorem update_eq (found : registry.get? ref = some current) (isOpen : current.isOpen)
    (update : RecordUpdate) :
    registry.update ref update =
      .ok (update.apply current, { registry with records := registry.records.set ref.path (update.apply current) }) := by
  simp [AgentRegistry.update, requireCurrent, found, isOpen, Bind.bind, Except.bind]

theorem update_closed (found : ∀ current, registry.get? ref = some current → current.isOpen = false)
    (update : RecordUpdate) : ∃ error, registry.update ref update = .error error := by
  unfold AgentRegistry.update requireCurrent
  cases known : registry.get? ref with
  | none => exact ⟨_, rfl⟩
  | some current => simp [found current known, Bind.bind, Except.bind]

theorem close_eq (found : registry.get? ref = some current) (isOpen : current.status ≠ .closed) :
    registry.close ref = .ok ({ current with status := .closed },
      { registry with records := registry.records.set ref.path { current with status := .closed } }) := by
  simp [close, requireCurrent, found, isOpen, Bind.bind, Except.bind]

end AgentRegistry

theorem AgentRecord.isOpen_iff {record : AgentRecord} : record.isOpen = true ↔ record.status ≠ .closed := by
  simp [AgentRecord.isOpen]

/-! ## The moves -/

/-- An agent's record is written in place. -/
def MultiAgentControl.put (c : MultiAgentControl) (updated : AgentRecord) : MultiAgentControl :=
  { c with registry := { c.registry with records := c.registry.records.set updated.path updated } }

/-- The registry with an admitted child. -/
def AgentRegistry.enter (registry : AgentRegistry) (record : AgentRecord) : AgentRegistry :=
  { records := registry.records.set record.path record
    incarnations := registry.incarnations.set record.path record.ref.incarnation
    reservations := (registry.reservations.set record.path registry.nextToken).pop record.path
    nextToken := registry.nextToken + 1 }

/-- The notice a fact goes with: that of a finished child, to its parent. -/
def AgentFact.notice? (fact : AgentFact) : Option AgentCompletionNotice :=
  match fact.terminal, fact.parentRef with
  | some terminal, some recipient =>
    some ⟨fact.ref.text ++ ":" ++ toString fact.roundId, fact.ref, recipient, fact.roundId, terminal,
      fact.progress.bind AgentProgress.summary, fact.workspaceRef, fact.artifactRefs, fact.changeSetRef⟩
  | _, _ => none

/-- The fact about a record. -/
def factOf (sequence : Nat) (kind : AgentFactKind) (record : AgentRecord) (progress : Option AgentProgress)
    (terminal : Option TerminalPayload) : AgentFact :=
  ⟨sequence, kind, record.ref, record.parentRef, record.agentType, record.status, record.roundId, progress,
    terminal, record.workspaceRef, record.artifactRefs, record.changeSetRef⟩

/-- An agent's record is written, the fact emitted and its notice published. -/
def MultiAgentControl.write (c : MultiAgentControl) (updated : AgentRecord) (kind : AgentFactKind)
    (progress : Option AgentProgress) (terminal : Option TerminalPayload) : MultiAgentControl :=
  let fact := factOf (c.factSequence + 1) kind updated progress terminal
  { registry := (c.put updated).registry
    facts := c.facts ++ [fact]
    notices := c.notices ++ fact.notice?.toList
    notifiedRounds := c.notifiedRounds ++ (terminal.map fun _ => (updated.ref, updated.roundId)).toList
    factSequence := c.factSequence + 1 }

/-- A write keeps whose record it is. -/
structure Kept (current updated : AgentRecord) : Prop where
  ref : updated.ref = current.ref
  parentRef : updated.parentRef = current.parentRef
  agentType : updated.agentType = current.agentType

/-- How a write changes an open agent's record, and what its fact carries. -/
inductive Change (current updated : AgentRecord) :
    AgentFactKind → Option AgentProgress → Option TerminalPayload → Prop
  | begun (idle : current.status ≠ .running) (running : updated.status = .running)
      (round : updated.roundId = current.roundId + 1) (progress : updated.progress = current.progress) :
      Change current updated .statusChanged none none
  | progressed (status : updated.status = current.status) (round : updated.roundId = current.roundId) :
      Change current updated .progress (some updated.progress) none
  | bound (status : updated.status = current.status) (round : updated.roundId = current.roundId)
      (progress : updated.progress = current.progress) : Change current updated .workspace none none
  | finished (terminal : TerminalPayload) (running : current.status = .running)
      (status : updated.status = terminal.status.status) (round : updated.roundId = current.roundId) :
      Change current updated .terminal (some updated.progress) (some terminal)
  | closed (status : updated.status = .closed) (round : updated.roundId = current.roundId)
      (progress : updated.progress = current.progress) : Change current updated .closed none none

/-- What one call can do; only `commit_closed` closes an agent. -/
inductive Moves (types : AgentTypeRegistry) (limits : ControlLimits) (call : ControlCall)
    (c : MultiAgentControl) : MultiAgentControl → Prop
  | stays : Moves types limits call c c
  | spawned (parent : AgentRecord) (name : AgentName) (spec : AgentTypeSpec) (record : AgentRecord)
      (parentOpen : c.registry.current parent.path = some parent)
      (admitted : types.resolve spec.name.val = some spec)
      (shallow : parent.path.depth + 1 ≤ limits.maxSpawnDepth)
      (room : c.registry.openCount + c.registry.reservedCount < limits.maxOpenAgents)
      (place : c.registry.records.values.countP (fun child => child.isOpen &&
        child.parentRef = some parent.ref && child.agentType = spec.name) < spec.maximumChildren)
      (free : (c.registry.records.get? (parent.path.child name)).any AgentRecord.isOpen = false)
      (path : record.path = parent.path.child name)
      (incarnation : record.ref.incarnation = (c.registry.incarnations.get? record.path).getD 0 + 1)
      (fresh : record = .fresh record.ref (some parent.ref) spec.name) :
      Moves types limits call c ({ c with registry := c.registry.enter record }.emitFact .spawned record none none)
  | written (current updated : AgentRecord) (kind : AgentFactKind) (progress : Option AgentProgress)
      (terminal : Option TerminalPayload) (known : c.registry.records.get? current.path = some current)
      (isOpen : current.isOpen) (kept : Kept current updated)
      (change : Change current updated kind progress terminal)
      (closing : kind = .closed → call = .commitClosed current.ref) :
      Moves types limits call c (c.write updated kind progress terminal)

theorem emitFact_put (c : MultiAgentControl) (kind : AgentFactKind) (updated : AgentRecord)
    (progress : Option AgentProgress) :
    (c.put updated).emitFact kind updated progress none = c.write updated kind progress none := by
  unfold MultiAgentControl.write MultiAgentControl.emitFact
  simp [AgentFact.notice?, factOf, MultiAgentControl.put]

theorem Moves.emitted {types : AgentTypeRegistry} {limits : ControlLimits} {call : ControlCall}
    {c : MultiAgentControl} {current updated : AgentRecord} {kind : AgentFactKind} {progress : Option AgentProgress}
    (known : c.registry.records.get? current.path = some current) (isOpen : current.isOpen)
    (kept : Kept current updated) (change : Change current updated kind progress none)
    (closing : kind = .closed → call = .commitClosed current.ref) :
    Moves types limits call c ((c.put updated).emitFact kind updated progress none) := by
  rw [emitFact_put]
  exact .written current updated kind progress none known isOpen kept change closing

/-! ## Every call is a move -/

section

variable {types : AgentTypeRegistry} {authority : AgentAuthority} {limits : ControlLimits}
  {call : ControlCall} {c : MultiAgentControl}

variable {agentType : String}

/-- `check_spawn` admits a parent only below the limits. -/
theorem checkSpawn_ok {caller : ControlCaller} {parentPath : AgentPath} {parent : AgentRecord}
    (checked : c.checkSpawn types authority limits caller parentPath agentType = .ok parent) :
    c.registry.current parentPath = some parent ∧ parent.path.depth + 1 ≤ limits.maxSpawnDepth ∧
      c.registry.openCount + c.registry.reservedCount < limits.maxOpenAgents ∧
      ∃ spec, types.resolve agentType = some spec ∧
        c.registry.records.values.countP (fun child => child.isOpen && child.parentRef = some parent.ref &&
          child.agentType.val = agentType) < spec.maximumChildren := by
  unfold MultiAgentControl.checkSpawn at checked
  simp only [Bind.bind] at checked
  cases isCaller : c.validateCaller caller with
  | error error => simp [isCaller, Except.bind] at checked
  | ok callerRecord =>
    simp only [isCaller, Except.bind] at checked
    unfold MultiAgentControl.requirePath at checked
    cases isParent : c.registry.current parentPath with
    | none => simp [isParent] at checked
    | some record =>
      simp only [isParent] at checked
      cases allowed : MultiAgentControl.requireControl authority caller record with
      | error error => simp [allowed] at checked
      | ok _ =>
        simp only [allowed] at checked
        cases isSpec : types.resolve agentType with
        | none => simp [isSpec] at checked
        | some spec =>
          simp only [isSpec] at checked
          cases spawner : MultiAgentControl.requireSpawner types callerRecord with
          | error error => simp [spawner] at checked
          | ok _ =>
            simp only [spawner] at checked
            obtain ⟨shallow, checked⟩ := raise_if_ok checked
            obtain ⟨room, checked⟩ := raise_if_ok checked
            unfold AgentRegistry.children at checked
            cases current : c.registry.requireCurrent record.ref with
            | error error => simp [current, Except.map] at checked
            | ok _ =>
              simp only [current, Except.map] at checked
              obtain ⟨place, checked⟩ := raise_if_ok checked
              cases checked
              refine ⟨rfl, by omega, by omega, spec, rfl, ?_⟩
              rw [List.filter_filter, ← List.countP_eq_length_filter] at place
              have same : (fun child : AgentRecord => child.isOpen &&
                  child.parentRef = some parent.ref && child.agentType.val = agentType) =
                fun child => decide (child.agentType.val = agentType) &&
                  (child.isOpen && decide (child.parentRef = some parent.ref)) := by
                funext child
                rw [Bool.and_comm]
              rw [same]
              omega

theorem requireAgentName_ok {text : String} {name : AgentName} (named : requireAgentName text = .ok name) :
    name.val = text := by
  unfold requireAgentName at named
  split at named
  · cases named
    rfl
  · cases named

/-- The registry after a reservation. -/
def AgentRegistry.withReservation (registry : AgentRegistry) (reservation : AgentReservation) :
    AgentRegistry :=
  ⟨registry.records, registry.incarnations.set reservation.ref.path reservation.ref.incarnation,
    registry.reservations.set reservation.ref.path reservation.token, registry.nextToken + 1⟩

theorem reserve_ok {registry next : AgentRegistry} {parentRef : AgentRef} {name : String}
    {reservation : AgentReservation}
    (reserved : registry.reserve parentRef name agentType = .ok (reservation, next)) :
    ∃ child : AgentName, reservation.ref.path = parentRef.path.child child ∧
      reservation.ref.incarnation = (registry.incarnations.get? reservation.ref.path).getD 0 + 1 ∧
      reservation.parentRef = parentRef ∧ reservation.agentType.val = agentType ∧
      reservation.token = registry.nextToken ∧
      (registry.records.get? reservation.ref.path).any AgentRecord.isOpen = false ∧
      next = registry.withReservation reservation := by
  unfold AgentRegistry.reserve at reserved
  simp only [Bind.bind] at reserved
  cases isName : requireAgentName name with
  | error error => simp [isName, Except.bind] at reserved
  | ok child =>
    simp only [isName, Except.bind] at reserved
    cases isType : requireAgentName agentType with
    | error error => simp [isType] at reserved
    | ok typeName =>
      simp only [isType] at reserved
      cases isParent : registry.requireCurrent parentRef with
      | error error => simp [isParent] at reserved
      | ok parent =>
        simp only [isParent] at reserved
        obtain ⟨-, reserved⟩ := raise_if_ok reserved
        obtain ⟨unused, reserved⟩ := raise_if_ok reserved
        cases reserved
        refine ⟨child, rfl, rfl, rfl, requireAgentName_ok isType, rfl, ?_, rfl⟩
        cases taken : (registry.records.get? (parentRef.path.child child)).any AgentRecord.isOpen with
        | false => rfl
        | true => exact absurd (.inr taken) unused

/-- Every record is filed under its own path. -/
def Keyed (c : MultiAgentControl) : Prop :=
  ∀ path record, c.registry.records.get? path = some record → record.path = path

theorem spawn_moves (keyed : Keyed c) (caller : ControlCaller) (parentPath : AgentPath) (name agentType : String) :
    Moves types limits call c (c.spawn types authority limits caller parentPath name agentType).2 := by
  unfold MultiAgentControl.spawn
  cases checked : c.checkSpawn types authority limits caller parentPath agentType with
  | error error => exact .stays
  | ok parent =>
    obtain ⟨isParent, shallow, room, spec, resolved, place⟩ := checkSpawn_ok checked
    obtain ⟨known, isOpen⟩ := AgentRegistry.current_eq_some.mp isParent
    dsimp only
    cases reserved : c.registry.reserve parent.ref name agentType with
    | error error => exact .stays
    | ok admission =>
      obtain ⟨reservation, next⟩ := admission
      obtain ⟨child, path, incarnation, isParentRef, isType, token, free, rfl⟩ := reserve_ok reserved
      have isPath : parent.path = parentPath := keyed parentPath parent known
      have parentFound : c.registry.getOpen? parent.ref = some parent := by
        rw [AgentRegistry.getOpen?_eq_some, AgentRegistry.get?_eq_some]
        exact ⟨⟨by rw [← AgentRecord.path, isPath]; exact known, rfl⟩, isOpen⟩
      have specName : spec.name.val = agentType := by
        have found := List.find?_some resolved
        simpa using found
      have typeName : reservation.agentType = spec.name := Subtype.ext (isType.trans specName.symm)
      let record := AgentRecord.fresh reservation.ref (some parent.ref) spec.name
      have commits : (c.registry.withReservation reservation).commit reservation =
          (.ok record, c.registry.enter record) := by
        have stillFound : (c.registry.withReservation reservation).getOpen? reservation.parentRef =
            some parent := by
          rw [isParentRef]
          exact parentFound
        have mine : (c.registry.withReservation reservation).reservations.get? reservation.ref.path =
            some reservation.token := Dict.get?_set_self _ _ _
        unfold AgentRegistry.commit
        rw [if_neg (not_not.mpr mine), stillFound]
        simp only [isParentRef, typeName]
        unfold AgentRegistry.withReservation AgentRegistry.enter
        rw [token]
        rfl
      dsimp only
      rw [commits]
      refine .spawned parent child spec record ?_ ?_ shallow room ?_ ?_ path incarnation rfl
      · rw [isPath]
        exact isParent
      · rw [specName]
        exact resolved
      · have same : (fun child : AgentRecord => child.isOpen && child.parentRef = some parent.ref &&
            child.agentType = spec.name) = fun child => child.isOpen && child.parentRef = some parent.ref &&
              child.agentType.val = agentType := by
          funext child
          rw [← specName]
          simp [Subtype.ext_iff]
        rw [same]
        exact place
      · rw [AgentRecord.path, ← path]
        exact free

theorem beginRound_moves (ref : AgentRef) : Moves types limits call c (c.beginRound ref).2 := by
  unfold MultiAgentControl.beginRound
  cases found : c.registry.get? ref with
  | none => exact .stays
  | some current =>
    obtain ⟨known, rfl⟩ := AgentRegistry.get?_eq_some.mp found
    dsimp only
    split
    · exact .stays
    · rename_i isOpen
      split
      · exact .stays
      · rename_i idle
        have isOpen := AgentRecord.isOpen_iff.mpr isOpen
        rw [AgentRegistry.update_eq found isOpen]
        let updated : AgentRecord := { current with status := .running, roundId := current.roundId + 1 }
        exact .emitted known isOpen (⟨rfl, rfl, rfl⟩ : Kept current updated) (.begun idle rfl rfl rfl) nofun

theorem activeRound_ok {ref : AgentRef} {roundId : Int} {current : AgentRecord}
    (active : c.activeRound ref roundId = .ok current) :
    c.registry.get? ref = some current ∧ current.status = .running ∧ (current.roundId : Int) = roundId := by
  unfold MultiAgentControl.activeRound at active
  split at active
  · cases active
  · rename_i record found
    obtain ⟨-, active⟩ := raise_if_ok active
    obtain ⟨same, active⟩ := raise_if_ok active
    obtain ⟨running, active⟩ := raise_if_ok active
    cases active
    exact ⟨found, by simpa using running, by simpa using same⟩

theorem recordProgress_moves (ref : AgentRef) (roundId : Int) (update : MultiAgentControl.ProgressUpdate) :
    Moves types limits call c (c.recordProgress ref roundId update).2 := by
  unfold MultiAgentControl.recordProgress
  cases active : c.activeRound ref roundId with
  | error reason => exact .stays
  | ok current =>
    obtain ⟨found, running, -⟩ := activeRound_ok active
    obtain ⟨known, rfl⟩ := AgentRegistry.get?_eq_some.mp found
    have isOpen : current.isOpen := AgentRecord.isOpen_iff.mpr (by rw [running]; exact nofun)
    dsimp only
    split
    · exact .stays
    · split
      · exact .stays
      · split
        · exact .stays
        · let progress : AgentProgress :=
            { usage :=
                { latestInputTokens :=
                    (update.latestInputTokens.map Int.toNat).getD current.progress.usage.latestInputTokens
                  cumulativeOutputTokens :=
                    current.progress.usage.cumulativeOutputTokens + update.outputTokensDelta.toNat }
              toolUses := current.progress.toolUses + update.toolUsesDelta.toNat
              recentActivity := update.recentActivity.or current.progress.recentActivity
              summary := update.summary.getD current.progress.summary }
          rw [AgentRegistry.update_eq found isOpen]
          let updated : AgentRecord := { current with progress }
          exact .emitted known isOpen (⟨rfl, rfl, rfl⟩ : Kept current updated) (.progressed rfl rfl) nofun

/-- Only an open agent's own reference updates its record. -/
theorem update_cases (registry : AgentRegistry) (ref : AgentRef) (update : AgentRegistry.RecordUpdate) :
    (∃ error, registry.update ref update = .error error) ∨
      ∃ current, registry.records.get? current.path = some current ∧ current.ref = ref ∧ current.isOpen ∧
        registry.update ref update = .ok (update.apply current,
          { registry with records := registry.records.set current.path (update.apply current) }) := by
  by_cases active : ∃ current, registry.get? ref = some current ∧ current.isOpen
  · obtain ⟨current, found, isOpen⟩ := active
    obtain ⟨known, rfl⟩ := AgentRegistry.get?_eq_some.mp found
    exact .inr ⟨current, known, rfl, isOpen, AgentRegistry.update_eq found isOpen update⟩
  · refine .inl (AgentRegistry.update_closed (fun current found => ?_) update)
    cases isOpen : current.isOpen with
    | false => rfl
    | true => exact absurd ⟨current, found, isOpen⟩ active

theorem bindWorkspace_moves (ref : AgentRef) (workspaceRef : String) :
    Moves types limits call c (c.bindWorkspace ref workspaceRef).2 := by
  unfold MultiAgentControl.bindWorkspace
  split
  · exact .stays
  · rcases update_cases c.registry ref { workspace := some (some workspaceRef, none) } with
      ⟨error, failed⟩ | ⟨current, known, -, isOpen, updated⟩
    · rw [failed]
      exact .stays
    · rw [updated]
      let moved : AgentRecord := { current with workspaceRef := some workspaceRef, changeSetRef := none }
      exact .emitted known isOpen (⟨rfl, rfl, rfl⟩ : Kept current moved) (.bound rfl rfl rfl) nofun

theorem recordWorkspaceSnapshot_moves (ref : AgentRef) (snapshot : WorkspaceLeaseSnapshot) :
    Moves types limits call c (c.recordWorkspaceSnapshot ref snapshot).2 := by
  unfold MultiAgentControl.recordWorkspaceSnapshot
  rcases update_cases c.registry ref
      { artifactRefs := some snapshot.artifactRefs
        workspace := some (snapshot.workspaceRef, snapshot.changeSetRef) } with
    ⟨error, failed⟩ | ⟨current, known, -, isOpen, updated⟩
  · rw [failed]
    exact .stays
  · rw [updated]
    let moved : AgentRecord :=
      { current with
        artifactRefs := snapshot.artifactRefs
        workspaceRef := snapshot.workspaceRef
        changeSetRef := snapshot.changeSetRef }
    exact .emitted known isOpen (⟨rfl, rfl, rfl⟩ : Kept current moved) (.bound rfl rfl rfl) nofun

theorem terminalPayload_ok (status : TerminalStatus) (finalMessage : String) (progress : AgentProgress)
    {durationMs : Int} (published : 0 ≤ durationMs) :
    ∃ terminal, terminalPayload status finalMessage progress durationMs = .ok terminal ∧
      terminal.status = status := by
  unfold terminalPayload
  rw [if_neg (by omega)]
  exact ⟨_, rfl, rfl⟩

/-- What `finish_round` comes to when its duration is not negative. -/
theorem finishRound_cases (ref : AgentRef) (roundId : Int) (result : MultiAgentControl.RoundResult)
    (published : 0 ≤ result.durationMs) :
    (∃ transition, c.finishRound ref roundId result = (.ok transition, c) ∧ transition.applied = false) ∨
      ∃ current updated terminal, c.registry.records.get? current.path = some current ∧ current.ref = ref ∧
        (current.roundId : Int) = roundId ∧ current.status = .running ∧ Kept current updated ∧
        updated.status = terminal.status.status ∧ updated.roundId = current.roundId ∧
        (c.finishRound ref roundId result).2 =
          c.write updated .terminal (some updated.progress) (some terminal) ∧
        ∃ transition, (c.finishRound ref roundId result).1 = .ok transition ∧ transition.applied = true := by
  unfold MultiAgentControl.finishRound
  cases found : c.registry.get? ref with
  | none => exact .inl ⟨_, rfl, rfl⟩
  | some current =>
    obtain ⟨known, rfl⟩ := AgentRegistry.get?_eq_some.mp found
    dsimp only
    split
    · exact .inl ⟨_, rfl, rfl⟩
    · rename_i isOpen
      split
      · exact .inl ⟨_, rfl, rfl⟩
      · rename_i sameRound
        split
        · exact .inl ⟨_, rfl, rfl⟩
        · split
          · exact .inl ⟨_, rfl, rfl⟩
          · rename_i running
            right
            have running : current.status = .running := by simpa using running
            rw [AgentRegistry.update_eq found (AgentRecord.isOpen_iff.mpr isOpen)]
            dsimp only
            obtain ⟨terminal, payload, isStatus⟩ := terminalPayload_ok result.status result.finalMessage
              (MultiAgentControl.finishedProgress current.progress result.summary) published
            rw [payload]
            let updated : AgentRecord :=
              { current with
                status := result.status.status
                progress := MultiAgentControl.finishedProgress current.progress result.summary
                artifactRefs := result.artifactRefs
                workspaceRef := result.workspaceRef
                changeSetRef := result.changeSetRef }
            refine ⟨current, updated, terminal, known, rfl, by simpa using sameRound, running,
              ⟨rfl, rfl, rfl⟩, by rw [isStatus], rfl, ?_⟩
            have isApplied : AgentRegistry.RecordUpdate.apply
                { status := some result.status.status
                  progress := some (MultiAgentControl.finishedProgress current.progress result.summary)
                  artifactRefs := some result.artifactRefs
                  workspace := some (result.workspaceRef, result.changeSetRef) } current = updated := rfl
            rw [isApplied]
            dsimp only
            cases isParent : updated.parentRef with
            | none =>
              refine ⟨?_, _, rfl, rfl⟩
              simp [MultiAgentControl.write, AgentFact.notice?, factOf, isParent, MultiAgentControl.put,
                MultiAgentControl.emitFact]
              exact ⟨rfl, rfl, rfl, rfl⟩
            | some recipient =>
              refine ⟨?_, _, rfl, rfl⟩
              simp [MultiAgentControl.write, AgentFact.notice?, factOf, isParent, MultiAgentControl.put,
                MultiAgentControl.emitFact, MultiAgentControl.publishNotice, MultiAgentControl.completionNotice]
              exact ⟨rfl, rfl, rfl, rfl⟩

theorem commitClosed_moves (ref : AgentRef) :
    Moves types limits (.commitClosed ref) c (c.commitClosed ref).2 := by
  unfold MultiAgentControl.commitClosed
  cases found : c.registry.get? ref with
  | none => exact .stays
  | some current =>
    obtain ⟨known, rfl⟩ := AgentRegistry.get?_eq_some.mp found
    dsimp only
    split
    · exact .stays
    · rename_i isOpen
      rw [AgentRegistry.close_eq found isOpen]
      let updated : AgentRecord := { current with status := .closed }
      exact .emitted known (AgentRecord.isOpen_iff.mpr isOpen) (⟨rfl, rfl, rfl⟩ : Kept current updated)
        (.closed rfl rfl rfl) fun _ => rfl

theorem finishRound_moves (ref : AgentRef) (roundId : Int) (result : MultiAgentControl.RoundResult)
    (published : 0 ≤ result.durationMs) : Moves types limits call c (c.finishRound ref roundId result).2 := by
  rcases finishRound_cases ref roundId result published with ⟨transition, same, -⟩ |
    ⟨current, updated, terminal, known, -, -, running, kept, status, round, same, -⟩
  · rw [same]
    exact .stays
  · rw [same]
    exact .written current updated .terminal _ _ known
      (AgentRecord.isOpen_iff.mpr (by rw [running]; exact nofun)) kept (.finished terminal running status round)
      nofun

end

/-- The duration of a finished round is not negative. -/
def ControlCall.Published : ControlCall → Prop
  | .finishRound _ _ result => 0 ≤ result.durationMs
  | _ => True

section

variable (types : AgentTypeRegistry) (authority : AgentAuthority) (limits : ControlLimits)

variable {c : MultiAgentControl}

theorem runCall_moves (keyed : Keyed c) (call : ControlCall) (published : call.Published) :
    Moves types limits call c (runCall types authority limits c call).2 := by
  cases call with
  | spawn caller parentPath name agentType => exact spawn_moves keyed caller parentPath name agentType
  | beginRound ref => exact beginRound_moves ref
  | recordProgress ref roundId update => exact recordProgress_moves ref roundId update
  | bindWorkspace ref workspaceRef => exact bindWorkspace_moves ref workspaceRef
  | recordWorkspaceSnapshot ref snapshot => exact recordWorkspaceSnapshot_moves ref snapshot
  | finishRound ref roundId result => exact finishRound_moves ref roundId result published
  | recordInterrupted ref roundId summary =>
    exact finishRound_moves ref roundId _ (Int.le_refl 0)
  | commitClosed ref => exact commitClosed_moves ref

/-! ## Stale references -/

/-- The agent a call is about, when it names one by reference. -/
def ControlCall.ref? : ControlCall → Option AgentRef
  | .spawn _ _ _ _ => none
  | .beginRound ref => some ref
  | .recordProgress ref _ _ => some ref
  | .bindWorkspace ref _ => some ref
  | .recordWorkspaceSnapshot ref _ => some ref
  | .finishRound ref _ _ => some ref
  | .recordInterrupted ref _ _ => some ref
  | .commitClosed ref => some ref

/-- A reference that is stale or closed changes nothing. -/
theorem runCall_stale {call : ControlCall} {ref : AgentRef} (names : call.ref? = some ref)
    (stale : c.registry.getOpen? ref = none) : (runCall types authority limits c call).2 = c := by
  have gone : ∀ current, c.registry.get? ref = some current → current.status = .closed := by
    intro current found
    by_contra isOpen
    have found := AgentRegistry.getOpen?_eq_some.mpr ⟨found, AgentRecord.isOpen_iff.mpr isOpen⟩
    rw [stale] at found
    cases found
  have refused : ∀ update, ∃ error, c.registry.update ref update = .error error := by
    refine AgentRegistry.update_closed fun current found => ?_
    rw [AgentRecord.isOpen, gone current found]
    rfl
  have finishes : ∀ roundId result, (c.finishRound ref roundId result).2 = c := by
    intro roundId result
    unfold MultiAgentControl.finishRound
    cases found : c.registry.get? ref with
    | none => rfl
    | some current => simp [gone current found]
  cases call with
  | spawn caller parentPath name agentType => cases names
  | beginRound target =>
    cases names
    show (c.beginRound ref).2 = c
    unfold MultiAgentControl.beginRound
    cases found : c.registry.get? ref with
    | none => rfl
    | some current => simp [gone current found]
  | recordProgress target roundId update =>
    cases names
    show (c.recordProgress ref roundId update).2 = c
    unfold MultiAgentControl.recordProgress
    cases active : c.activeRound ref roundId with
    | error reason => rfl
    | ok current =>
      obtain ⟨found, running, -⟩ := activeRound_ok active
      rw [gone current found] at running
      cases running
  | bindWorkspace target workspaceRef =>
    cases names
    show (c.bindWorkspace ref workspaceRef).2 = c
    unfold MultiAgentControl.bindWorkspace
    split
    · rfl
    · obtain ⟨error, failed⟩ := refused { workspace := some (some workspaceRef, none) }
      rw [failed]
  | recordWorkspaceSnapshot target snapshot =>
    cases names
    show (c.recordWorkspaceSnapshot ref snapshot).2 = c
    unfold MultiAgentControl.recordWorkspaceSnapshot
    obtain ⟨error, failed⟩ := refused
      { artifactRefs := some snapshot.artifactRefs
        workspace := some (snapshot.workspaceRef, snapshot.changeSetRef) }
    rw [failed]
  | finishRound target roundId result =>
    cases names
    exact finishes roundId result
  | recordInterrupted target roundId summary =>
    cases names
    exact finishes roundId _
  | commitClosed target =>
    cases names
    show (c.commitClosed ref).2 = c
    unfold MultiAgentControl.commitClosed
    cases found : c.registry.get? ref with
    | none => rfl
    | some current => simp [gone current found]

end

end Loushang.Multiagent
