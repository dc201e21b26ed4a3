import Loushang.Lib.Text

/-!
# Planning a compaction

`context/conversation.py`: the compaction planner over records of any type, read through ports.
Token counts are natural numbers, so the checks of their sign are left out; a failure is known by
its text, without the record it names.
-/
namespace Loushang.Transcript
open Loushang.Lib

/-- `not value.strip()`. -/
def isBlankText (text : String) : Bool := (PyStr.ofString text).strip.points = []

/-- Scan from the last record for the first one that resolves, with its position. -/
def latest {R C : Type} (resolve : R → Option C) (records : List R) : Option (Nat × C) :=
  records.zipIdx.reverse.findSome? fun (record, index) => (resolve record).map fun found => (index, found)

/-- `ConversationPreviousSummary`. -/
structure PreviousSummary (S : Type) where
  firstKeptRecordId : String
  content : S
  estimatedTokens : Nat

/-- `ConversationRecordPorts`. -/
structure RecordPorts (R S : Type) where
  recordId : R → String
  isVisible : R → Bool
  role : R → Option String
  estimateTokens : R → Nat
  estimateContextTokens : Option (List R → Nat)
  separatesCutGroup : Option (R → Bool)
  previousSummary : Option (R → Option (PreviousSummary S))

/-- `ConversationSummaryBoundary`. -/
structure SummaryBoundary (S : Type) where
  recordId : String
  firstKeptRecordId : String
  content : S
  estimatedTokens : Nat

/-- `_RecordFact`. -/
structure RecordFact (R : Type) where
  record : R
  recordId : String
  role : Option String
  estimatedTokens : Nat
  sourceIndex : Nat

/-- `ConversationTurn`. -/
structure Turn (R : Type) where
  records : List R
  recordIds : List String
  roles : List (Option String)
  estimatedTokens : Nat

/-- `ConversationCompactionPlan`. -/
structure CompactionPlan (R S : Type) where
  previousSummary : Option (SummaryBoundary S)
  firstKeptRecordId : String
  summarizedRecords : List R
  turnPrefixRecords : List R
  keptRecords : List R
  summarizedRecordIds : List String
  turnPrefixRecordIds : List String
  keptRecordIds : List String
  turns : List (Turn R)
  isSplitTurn : Bool
  estimatedRecordTokens : Nat
  previousSummaryTokens : Nat
  tokensBefore : Nat
  accountedTokensBefore : Nat
  summarizedTokens : Nat
  turnPrefixTokens : Nat
  keptTokens : Nat
  keepRecentTokens : Nat

/-- What a planner is built with; `error` tells which `missing_previous_summary` it has. -/
structure PlannerOptions where
  turnStartRoles : List String
  nonCutRoles : List String
  missingIsError : Bool

def factTokens {R : Type} (facts : List (RecordFact R)) : Nat := (facts.map RecordFact.estimatedTokens).sum

section

variable {R S : Type} (ports : RecordPorts R S) (options : PlannerOptions)

def isTurnStart (role : Option String) : Bool := role.any (· ∈ options.turnStartRoles)

def isNonCut (role : Option String) : Bool := role.any (· ∈ options.nonCutRoles)

/-- `_validated_record_ids`. -/
def validatedRecordIds (records : List R) : Except String (List String) :=
  let ids := records.map ports.recordId
  if ids.any isBlankText then .error "conversation record id must be a non-empty string"
  else if ¬ids.Nodup then .error "duplicate conversation record id"
  else .ok ids

/-- `_previous_summary_boundary`. -/
def previousSummaryBoundary (records : List R) (ids : List String) :
    Except String (Option (SummaryBoundary S) × Nat) :=
  match ports.previousSummary with
  | none => .ok (none, 0)
  | some resolver =>
    match latest resolver records with
    | none => .ok (none, 0)
    | some (index, summary) =>
      let boundary : SummaryBoundary S :=
        ⟨ids.getD index "", summary.firstKeptRecordId, summary.content, summary.estimatedTokens⟩
      match (ids.take index).idxOf? summary.firstKeptRecordId with
      | some firstKept => .ok (some boundary, firstKept)
      | none =>
        if options.missingIsError then
          .error "conversation previous summary refers to missing or future record"
        else .ok (some boundary, index + 1)

/-- `_facts`, from a source offset on. -/
def recordFacts : List R → Nat → Except String (List (RecordFact R))
  | [], _ => .ok []
  | record :: rest, index =>
    if ports.isVisible record then
      if isBlankText (ports.recordId record) then .error "conversation record id must be a non-empty string"
      else if (ports.role record).any isBlankText then
        .error "role for visible record must be a non-empty string or None"
      else
        (recordFacts rest (index + 1)).map fun facts =>
          ⟨record, ports.recordId record, ports.role record, ports.estimateTokens record, index⟩ :: facts
    else recordFacts rest (index + 1)

/-- The loop of `_expand_cut_group`: how many records before the cut go with it. -/
def expandOver (separates : R → Bool) : List R → Nat
  | [] => 0
  | previous :: earlier => if separates previous then 0 else expandOver separates earlier + 1

/-- `_expand_cut_group`. -/
def expandCutGroup (records : List R) (boundaryStart cutSourceIndex : Nat) : Nat :=
  match ports.separatesCutGroup with
  | none => cutSourceIndex
  | some separates =>
    cutSourceIndex - expandOver separates ((records.take cutSourceIndex).drop boundaryStart).reverse

/-- The scan of `_find_cut_index` from the last fact for the budget. -/
def scanIndex (keepRecentTokens : Nat) : List (RecordFact R) → Nat → Option Nat
  | [], _ => none
  | fact :: earlier, accumulated =>
    if accumulated + fact.estimatedTokens ≥ keepRecentTokens then some earlier.length
    else scanIndex keepRecentTokens earlier (accumulated + fact.estimatedTokens)

/-- `_find_cut_index`. -/
def findCutIndex (facts : List (RecordFact R)) (keepRecentTokens : Nat) : Except String Nat :=
  match (facts.zipIdx.filter fun entry => !isNonCut options entry.1.role).map Prod.snd with
  | [] => .error "conversation has no eligible compaction cut point"
  | first :: more =>
    match scanIndex keepRecentTokens facts.reverse 0 with
    | none => .ok first
    | some scan => .ok (((first :: more).find? (scan ≤ ·)).getD ((first :: more).getLastD first))

/-- `_find_turn_start_index`. -/
def findTurnStartIndex (facts : List (RecordFact R)) (cutIndex : Nat) : Option Nat :=
  ((facts.take (cutIndex + 1)).zipIdx.reverse.find? fun entry => isTurnStart options entry.1.role).map Prod.snd

/-- The groups of `_group_turns`. -/
def turnGroups : List (RecordFact R) → List (List (RecordFact R))
  | [] => []
  | fact :: rest =>
    match turnGroups rest with
    | [] => [[fact]]
    | group :: groups =>
      if (group.head?.map RecordFact.role).any (isTurnStart options) then [fact] :: group :: groups
      else (fact :: group) :: groups

/-- `_group_turns`. -/
def groupTurns (facts : List (RecordFact R)) : List (Turn R) :=
  (turnGroups options facts).map fun group =>
    ⟨group.map RecordFact.record, group.map RecordFact.recordId, group.map RecordFact.role, factTokens group⟩

/-- The plan around a cut. -/
def planAround (records : List R) (ids : List String) (previous : Option (SummaryBoundary S))
    (boundaryStart : Nat) (facts : List (RecordFact R)) (cutSourceIndex keepRecentTokens : Nat) :
    CompactionPlan R S :=
  let firstKept := expandCutGroup ports records boundaryStart cutSourceIndex
  let effectiveCut := facts.findIdx fun fact => firstKept ≤ fact.sourceIndex
  let turnStart := findTurnStartIndex options facts effectiveCut
  let isSplitTurn := turnStart.isSome && !isTurnStart options ((facts[effectiveCut]?).bind RecordFact.role)
  let historyEnd := if isSplitTurn then turnStart.getD effectiveCut else effectiveCut
  let summarized := facts.take historyEnd
  let turnPrefix := if isSplitTurn then (facts.take effectiveCut).drop historyEnd else []
  let kept := facts.filter fun fact => firstKept ≤ fact.sourceIndex
  let previousTokens := (previous.map SummaryBoundary.estimatedTokens).getD 0
  let tokensBefore :=
    match ports.estimateContextTokens with
    | some estimate => estimate (facts.map RecordFact.record)
    | none => factTokens facts
  { previousSummary := previous
    firstKeptRecordId := ids.getD firstKept ""
    summarizedRecords := summarized.map RecordFact.record
    turnPrefixRecords := turnPrefix.map RecordFact.record
    keptRecords := kept.map RecordFact.record
    summarizedRecordIds := summarized.map RecordFact.recordId
    turnPrefixRecordIds := turnPrefix.map RecordFact.recordId
    keptRecordIds := kept.map RecordFact.recordId
    turns := groupTurns options facts
    isSplitTurn
    estimatedRecordTokens := factTokens facts
    previousSummaryTokens := previousTokens
    tokensBefore
    accountedTokensBefore := tokensBefore + previousTokens
    summarizedTokens := factTokens summarized
    turnPrefixTokens := factTokens turnPrefix
    keptTokens := factTokens kept
    keepRecentTokens }

/-- `plan`. -/
def plan (records : List R) (keepRecentTokens : Int) : Except String (CompactionPlan R S) := do
  if keepRecentTokens < 0 then .error "keep recent tokens must be a non-negative integer"
  else
    let ids ← validatedRecordIds ports records
    let (previous, boundaryStart) ← previousSummaryBoundary ports options records ids
    let facts ← recordFacts ports (records.drop boundaryStart) boundaryStart
    if facts.isEmpty then .error "conversation compaction requires at least one visible record"
    else
      let cutIndex ← findCutIndex options facts keepRecentTokens.toNat
      let cutSourceIndex := ((facts[cutIndex]?).map RecordFact.sourceIndex).getD 0
      .ok (planAround ports options records ids previous boundaryStart facts cutSourceIndex
        keepRecentTokens.toNat)

end

/-!
## Replaying a conversation

`conversation/replay.py`: the folder that turns a path of records into context items, read
through ports. A failure is known by its text, without the record it names.
-/

/-- `ConversationCheckpoint`. -/
structure Checkpoint (I : Type) where
  firstKeptRecordId : String
  summaryItem : I

/-- `ConversationReplayPorts`. -/
structure ReplayPorts (R I T : Type) where
  recordId : R → String
  projectVisibleItem : R → Option I
  initializeState : T
  reduceState : T → R → T
  resolveCheckpoint : Option (R → Option (Checkpoint I))

/-- `ConversationReplayProjection`. -/
structure ReplayProjection (I T : Type) where
  items : List I
  state : T
  itemRecordIds : List String

section

variable {R I T : Type} (ports : ReplayPorts R I T) (missingIsError : Bool)

/-- `_project_items`, each item with its record's id. -/
def projectItems (records : List R) : List (I × String) :=
  records.filterMap fun record => (ports.projectVisibleItem record).map fun item => (item, ports.recordId record)

/-- The positions `replay` collects, under the checks of its loop. -/
def replayIds (records : List R) : Except String (List String) :=
  let ids := records.map ports.recordId
  if ids.any isBlankText then .error "conversation record id must be a non-empty string"
  else if ¬ids.Nodup then .error "duplicate conversation record id"
  else .ok ids

/-- `replay`. -/
def replay (records : List R) : Except String (ReplayProjection I T) := do
  let ids ← replayIds ports records
  let state := records.foldl ports.reduceState ports.initializeState
  match ports.resolveCheckpoint.bind fun resolve => latest resolve records with
  | none =>
    let items := projectItems ports records
    .ok ⟨items.map Prod.fst, state, items.map Prod.snd⟩
  | some (checkpointIndex, checkpoint) =>
    let project (kept : List R) : ReplayProjection I T :=
      let items := projectItems ports kept ++ projectItems ports (records.drop (checkpointIndex + 1))
      ⟨checkpoint.summaryItem :: items.map Prod.fst, state, ids.getD checkpointIndex "" :: items.map Prod.snd⟩
    match ids.idxOf? checkpoint.firstKeptRecordId with
    | some boundary =>
      if boundary < checkpointIndex then .ok (project ((records.take checkpointIndex).drop boundary))
      else if missingIsError then .error "conversation checkpoint refers to missing record"
      else .ok (project [])
    | none =>
      if missingIsError then .error "conversation checkpoint refers to missing record" else .ok (project [])

end

end Loushang.Transcript
