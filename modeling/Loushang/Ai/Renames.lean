import Loushang.Ai.Transform

/-!
# What resolving ids and rewriting the content of a turn do

Ids resolved for different objects of one message differ; the loop over the content maps every
block and collects the calls, the renamings and the reopened ids.
-/
namespace Loushang.Ai
open Lib

variable {baseId originalId id : PyStr} {blockedIds : List PyStr} {resolutions : Dict ObjectId PyStr}

theorem tryAttempts_fresh {attempts : List Nat}
    (assigned : tryAttempts baseId originalId blockedIds attempts = .ok id) : id ∉ blockedIds := by
  induction attempts with
  | nil => cases assigned
  | cons attempt rest ih =>
    unfold tryAttempts at assigned
    split at assigned
    · cases assigned
    · split at assigned
      · exact ih assigned
      · next fresh =>
        cases assigned
        exact fresh

theorem uniqueToolCallId_fresh (assigned : uniqueToolCallId baseId originalId blockedIds = .ok id) :
    id ∉ blockedIds := by
  unfold uniqueToolCallId at assigned
  split at assigned
  · exact tryAttempts_fresh assigned
  · next fresh =>
    cases assigned
    exact fresh

/-- Calls that are different objects get different ids, none of them used before. -/
theorem resolveCalls_fresh {base : ToolCall → PyStr} {reservedIds usedIds : List PyStr}
    {blocks : List (ObjectId × ToolCall)} {resolved : Dict ObjectId PyStr}
    (resolves : resolveCalls base reservedIds blocks usedIds resolved = .ok resolutions)
    (objects : (blocks.map Prod.fst).Nodup) :
    (blocks.map fun block => nextId resolutions block.1 block.2).Nodup ∧
      (∀ block ∈ blocks, nextId resolutions block.1 block.2 ∉ usedIds) ∧
      ∀ object ∉ blocks.map Prod.fst, resolutions.get? object = resolved.get? object := by
  induction blocks generalizing usedIds resolved with
  | nil =>
    cases resolves
    exact ⟨List.nodup_nil, fun _ member => absurd member List.not_mem_nil, fun _ _ => rfl⟩
  | cons block rest ih =>
    obtain ⟨object, call⟩ := block
    rw [List.map_cons, List.nodup_cons] at objects
    unfold resolveCalls at resolves
    dsimp only at resolves
    split at resolves
    · cases resolves
    next resolvedId assigned =>
    obtain ⟨distinct, unused, frame⟩ := ih resolves objects.2
    have own : nextId resolutions object call = resolvedId := by
      rw [nextId, frame object objects.1, Dict.get?_set_self]
      rfl
    have fresh : resolvedId ∉ usedIds := by
      have blocked := uniqueToolCallId_fresh assigned
      split at blocked
      · exact blocked
      · exact fun used => blocked (List.mem_append_left _ used)
    refine ⟨?_, ?_, ?_⟩
    · rw [List.map_cons, List.nodup_cons, own]
      refine ⟨?_, distinct⟩
      intro taken
      obtain ⟨other, member, same⟩ := List.mem_map.mp taken
      exact unused other member (same ▸ List.mem_append_right _ List.mem_cons_self)
    · intro other member
      rcases List.mem_cons.mp member with rfl | member
      · rwa [own]
      · exact fun used => unused other member (List.mem_append_left _ used)
    · intro other absent
      rw [List.map_cons, List.mem_cons, not_or] at absent
      rw [frame other absent.2, Dict.get?_set_of_ne _ _ absent.1]

def DistinctBlocks (message : AssistantMessage) : Prop :=
  ((toolCallBlocks message.content).map Prod.fst).Nodup

theorem resolveToolCallIds_nodup {normalize : Option IdNormalizer} {message : AssistantMessage}
    (resolves : resolveToolCallIds normalize message = .ok resolutions)
    (objects : DistinctBlocks message) :
    ((toolCallBlocks message.content).map fun block => nextId resolutions block.1 block.2).Nodup :=
  (resolveCalls_fresh resolves objects).1

@[simp] theorem renameBlock_id (resolutions : Dict ObjectId PyStr) (blockIndex : Nat)
    (block : ObjectId × ToolCall) :
    (renameBlock resolutions blockIndex block).2.id = nextId resolutions block.1 block.2 := by
  unfold renameBlock
  dsimp only
  split
  · rfl
  · next same => exact (not_not.mp same).symm

@[simp] theorem renameBlock_name (resolutions : Dict ObjectId PyStr) (blockIndex : Nat)
    (block : ObjectId × ToolCall) : (renameBlock resolutions blockIndex block).2.name = block.2.name := by
  unfold renameBlock
  dsimp only
  split <;> rfl

/-- One block of the new content. -/
def renamePart (resolutions : Dict ObjectId PyStr) (entry : ContentPart × Nat) : ContentPart :=
  match entry.1 with
  | .toolCall object call =>
    .toolCall (renameBlock resolutions entry.2 (object, call)).1
      (renameBlock resolutions entry.2 (object, call)).2
  | part => part

/-- The renamings a message adds to the table, in order. -/
def renamings (resolutions : Dict ObjectId PyStr) (blocks : List (ObjectId × ToolCall)) :
    List (PyStr × PyStr) :=
  (blocks.filter fun block => nextId resolutions block.1 block.2 ≠ block.2.id).map
    fun block => (block.2.id, nextId resolutions block.1 block.2)

def newIds (resolutions : Dict ObjectId PyStr) (blocks : List (ObjectId × ToolCall)) : List PyStr :=
  blocks.map fun block => nextId resolutions block.1 block.2

/-- The loop over the content in closed form. -/
theorem takeContent_spec (resolutions : Dict ObjectId PyStr) (path : String)
    (entries : List (ContentPart × Nat)) (turn : Turn) :
    let after := entries.foldl (Turn.takePart resolutions path) turn
    let blocks := toolCallBlocks (entries.map Prod.fst)
    after.normalizedContent = turn.normalizedContent ++ entries.map (renamePart resolutions) ∧
      after.currentToolCalls =
        turn.currentToolCalls ++ toolCallBlocks (entries.map (renamePart resolutions)) ∧
      after.changed = (turn.changed || blocks.any fun block => nextId resolutions block.1 block.2 ≠ block.2.id) ∧
      after.closedToolCallIds =
        turn.closedToolCallIds.filter (fun id => id ∉ newIds resolutions blocks) ∧
      after.toolCallIdMap = turn.toolCallIdMap.update (renamings resolutions blocks) := by
  induction entries generalizing turn with
  | nil => simp [toolCallBlocks, newIds, renamings]
  | cons entry rest ih =>
    obtain ⟨part, index⟩ := entry
    rw [List.foldl_cons]
    obtain ⟨content, calls, changed, closed, renames⟩ := ih (Turn.takePart resolutions path turn (part, index))
    dsimp only
    rw [content, calls, changed, closed, renames]
    cases part with
    | toolCall object call =>
      refine ⟨?_, ?_, ?_, ?_, ?_⟩
      · simp [Turn.takePart, renamePart]
      · simp [Turn.takePart, renamePart, toolCallBlocks]
      · simp [Turn.takePart, toolCallBlocks, Bool.or_assoc]
      · simp only [Turn.takePart, List.filter_filter, newIds, List.map_cons, toolCallBlocks, renameBlock_id]
        apply List.filter_congr
        intro id _
        rw [Bool.eq_iff_iff]
        simp only [Bool.and_eq_true, decide_eq_true_eq, ne_eq, List.mem_cons, not_or]
        exact (and_congr_left' decide_eq_true_iff).trans and_comm
      · simp only [Turn.takePart, List.map_cons, toolCallBlocks, renamings, List.filter_cons]
        split <;> simp_all [Dict.update_cons]
    | text _ _ => simp [Turn.takePart, renamePart, toolCallBlocks]
    | thinking _ _ _ => simp [Turn.takePart, renamePart, toolCallBlocks]
    | image _ _ => simp [Turn.takePart, renamePart, toolCallBlocks]

theorem toolCallBlocks_renamePart_names (resolutions : Dict ObjectId PyStr)
    (entries : List (ContentPart × Nat)) :
    (toolCallBlocks (entries.map (renamePart resolutions))).map (fun block => (block.2.id, block.2.name)) =
      (toolCallBlocks (entries.map Prod.fst)).map
        fun block => (nextId resolutions block.1 block.2, block.2.name) := by
  induction entries with
  | nil => rfl
  | cons entry rest ih =>
    obtain ⟨part, index⟩ := entry
    cases part with
    | toolCall object call =>
      simp only [List.map_cons, renamePart, toolCallBlocks, renameBlock_id, renameBlock_name]
      exact congrArg (List.cons _) ih
    | text _ _ => exact ih
    | thinking _ _ _ => exact ih
    | image _ _ => exact ih

/-- A message whose calls all keep their ids keeps its content. -/
theorem map_renamePart_of_kept {entries : List (ContentPart × Nat)}
    (kept : ∀ block ∈ toolCallBlocks (entries.map Prod.fst),
      nextId resolutions block.1 block.2 = block.2.id) :
    entries.map (renamePart resolutions) = entries.map Prod.fst := by
  induction entries with
  | nil => rfl
  | cons entry rest ih =>
    obtain ⟨part, index⟩ := entry
    cases part with
    | toolCall object call =>
      rw [List.map_cons, toolCallBlocks] at kept
      have own := kept (object, call) List.mem_cons_self
      rw [List.map_cons, List.map_cons, ih fun block member => kept block (List.mem_cons_of_mem _ member)]
      simp [renamePart, renameBlock, own]
    | text _ _ => exact congrArg (List.cons _) (ih kept)
    | thinking _ _ _ => exact congrArg (List.cons _) (ih kept)
    | image _ _ => exact congrArg (List.cons _) (ih kept)

/-- A tool result is checked under its newest id; only the diagnostics tell whether it changed. -/
theorem toolResult_eq (mode : PairingMode) (message : ToolResultMessage) (path : String) (t : Transformer) :
    ∃ diagnostics, t.toolResult mode message path =
      ({ t with diagnostics := diagnostics } : Transformer).acceptResult mode
        { message with toolCallId := newestId t.toolCallIdMap message.toolCallId } path := by
  unfold Transformer.toolResult
  dsimp only
  split
  · exact ⟨_, rfl⟩
  · next same =>
    rw [not_not] at same
    rw [same]
    exact ⟨_, rfl⟩

end Loushang.Ai
