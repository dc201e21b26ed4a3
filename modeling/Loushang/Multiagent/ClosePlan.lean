import Loushang.Multiagent.ControlRuns

/-!
# Closing a subtree

A session closes the agents of `plan_close_tree` in its order, with `commit_closed` for each.
The operation lock lets no other call come between.
-/
namespace Loushang.Multiagent
open Loushang.Lib

variable {types : AgentTypeRegistry} {authority : AgentAuthority} {limits : ControlLimits}
  {c : MultiAgentControl}

def AgentRecord.close (record : AgentRecord) : AgentRecord := { record with status := .closed }

theorem AgentRecord.close_closed {record : AgentRecord} (isClosed : record.isOpen = false) :
    record.close = record := by
  have status : record.status = .closed := by simpa [AgentRecord.isOpen] using isClosed
  rw [AgentRecord.close, ← status]

theorem AgentPath.parent_within {path above target : AgentPath} (isParent : path.parent = some above)
    (within : above.isWithin target) : path.depth = above.depth + 1 ∧ path.isWithin target := by
  unfold AgentPath.parent at isParent
  split at isParent
  · cases isParent
  · next deep =>
    cases isParent
    unfold AgentPath.isWithin at within ⊢
    unfold AgentPath.depth at deep ⊢
    rw [List.isPrefixOf_iff_prefix] at within ⊢
    refine ⟨?_, within.trans (List.dropLast_prefix _)⟩
    rw [List.length_dropLast]
    omega

/-- The calls that commit a plan. -/
def closeCalls (plan : List AgentRecord) : List ControlCall := plan.map fun record => .commitClosed record.ref

theorem commitClosed_open {record : AgentRecord} (known : c.registry.records.get? record.path = some record)
    (isOpen : record.isOpen) :
    (c.commitClosed record.ref).2.registry.records = c.registry.records.set record.path record.close := by
  have found : c.registry.get? record.ref = some record := AgentRegistry.get?_eq_some.mpr ⟨known, rfl⟩
  rw [AgentRecord.isOpen_iff] at isOpen
  unfold MultiAgentControl.commitClosed
  rw [found]
  dsimp only
  rw [if_neg isOpen, AgentRegistry.close_eq found isOpen]
  rfl

/-- What the records are once a plan of open agents is committed. -/
theorem closeCalls_records {plan : List AgentRecord} (distinct : (plan.map AgentRecord.path).Nodup)
    (known : ∀ record ∈ plan, c.registry.records.get? record.path = some record ∧ record.isOpen)
    (path : AgentPath) :
    ((agentTree types authority limits).final c (closeCalls plan)).registry.records.get? path =
      (c.registry.records.get? path).map fun record =>
        if path ∈ plan.map AgentRecord.path then record.close else record := by
  induction plan generalizing c with
  | nil => simp [closeCalls, Machine.final]
  | cons first rest ih =>
    obtain ⟨here, isOpen⟩ := known first List.mem_cons_self
    obtain ⟨new, distinct⟩ := List.nodup_cons.mp distinct
    have after := commitClosed_open here isOpen
    have later := @ih (c.commitClosed first.ref).2 distinct (by
      intro record member
      obtain ⟨there, isOpen⟩ := known record (List.mem_cons_of_mem _ member)
      rw [after, Dict.get?_set, if_neg]
      · exact ⟨there, isOpen⟩
      · exact fun same => new (same ▸ List.mem_map_of_mem member))
    refine later.trans ?_
    rw [after, Dict.get?_set]
    by_cases same : path = first.path
    · subst same
      simp [here, new]
    · simp [same]

variable {caller : ControlCaller} {target : AgentPath} {plan : List AgentRecord}

/-- A plan lists the open agents within its target, deeper ones first. -/
theorem planCloseTree_spec (keyed : Keyed c)
    (planned : c.planCloseTree authority caller target = .ok plan) :
    (∀ record, record ∈ plan ↔ c.registry.records.get? record.path = some record ∧ record.isOpen ∧
      record.path.isWithin target) ∧
    (plan.map AgentRecord.path).Nodup ∧
    plan.Pairwise fun earlier later => later.path.depth ≤ earlier.path.depth := by
  unfold MultiAgentControl.planCloseTree at planned
  simp only [Bind.bind] at planned
  cases isCaller : c.validateCaller caller with
  | error error => simp [isCaller, Except.bind] at planned
  | ok callerRecord =>
    simp only [isCaller, Except.bind] at planned
    unfold MultiAgentControl.requirePath at planned
    cases isTarget : c.registry.current target with
    | none => simp [isTarget] at planned
    | some top =>
      simp only [isTarget] at planned
      cases allowed : MultiAgentControl.requireControl authority caller top with
      | error error => simp [allowed] at planned
      | ok _ =>
        simp only [allowed] at planned
        obtain ⟨known, isOpen⟩ := AgentRegistry.current_eq_some.mp isTarget
        obtain rfl := keyed target top known
        have found : c.registry.getOpen? top.ref = some top :=
          AgentRegistry.getOpen?_eq_some.mpr ⟨AgentRegistry.get?_eq_some.mpr ⟨known, rfl⟩, isOpen⟩
        unfold AgentRegistry.subtree at planned
        rw [found] at planned
        cases planned
        have filed : ∀ entry ∈ c.registry.records.entries, entry.2.path = entry.1 :=
          fun entry member => keyed entry.1 entry.2 (Dict.get?_of_mem member)
        refine ⟨fun record => ?_, ?_, ?_⟩
        · rw [List.mem_mergeSort]
          unfold AgentRegistry.recordsWithin
          rw [List.mem_filter, Bool.and_eq_true]
          refine and_congr_left fun _ => ⟨fun member => ?_, fun there => ?_⟩
          · obtain ⟨entry, listed, rfl⟩ := List.mem_map.mp member
            rw [filed entry listed]
            exact Dict.get?_of_mem listed
          · exact List.mem_map.mpr ⟨_, Dict.mem_of_get? there, rfl⟩
        · rw [((List.mergeSort_perm _ _).map _).nodup_iff]
          have keys : c.registry.records.values.map AgentRecord.path = c.registry.records.keys := by
            rw [Dict.values, List.map_map]
            exact List.map_congr_left filed
          refine List.Nodup.sublist (List.filter_sublist.map _) ?_
          rw [keys]
          exact c.registry.records.nodup
        · have sorted := @List.pairwise_mergeSort AgentRecord (fun item other => other.path.depth ≤ item.path.depth)
            (by simp only [decide_eq_true_eq]; omega) (by simp only [Bool.or_eq_true, decide_eq_true_eq]; omega)
            (c.registry.recordsWithin top.path)
          exact sorted.imp fun ordered => of_decide_eq_true ordered

/-- In the order of a plan, every agent is closed after its children. -/
theorem closeCalls_childless (tree : Tree types limits c)
    (planned : c.planCloseTree authority caller target = .ok plan) (front back : List AgentRecord)
    (split : plan = front ++ back) :
    (agentTree types authority limits).AllSteps ClosesChildless
      ((agentTree types authority limits).final c (closeCalls front)) (closeCalls back) := by
  obtain ⟨listed, distinct, sorted⟩ := planCloseTree_spec tree.keyed planned
  induction back generalizing front with
  | nil => trivial
  | cons record back ih =>
    constructor
    · intro path child found childOpen isParent
      rw [split, List.map_append] at distinct
      rw [closeCalls_records (List.nodup_append.mp distinct).1 (fun other member =>
        have there := (listed other).mp (split ▸ List.mem_append_left _ member)
        ⟨there.1, there.2.1⟩)] at found
      obtain ⟨before, there, same⟩ := Option.map_eq_some_iff.mp found
      by_cases closed : path ∈ front.map AgentRecord.path
      · rw [if_pos closed] at same
        subst same
        cases childOpen
      · rw [if_neg closed] at same
        subst same
        obtain rfl := tree.keyed path before there
        have above := tree.parents before.path before there
        rw [isParent] at above
        have within := ((listed record).mp (split ▸ by simp)).2.2
        have deeper := AgentPath.parent_within above.symm within
        have member := (listed before).mpr ⟨there, childOpen, deeper.2⟩
        rw [split] at member sorted
        have later := (List.mem_append.mp member).resolve_left fun early =>
          closed (List.mem_map_of_mem early)
        rcases List.mem_cons.mp later with rfl | later
        · exact absurd deeper.1 (Nat.ne_of_lt (Nat.lt_succ_self _))
        · have shallower := (List.pairwise_cons.mp (List.pairwise_append.mp sorted).2.1).1 before later
          have depth : record.path.depth < before.path.depth := deeper.1 ▸ Nat.lt_succ_self _
          omega
    · have rest := ih (front ++ [record]) (by rw [split, List.append_assoc]; rfl)
      rw [closeCalls, List.map_append, Machine.final_append] at rest
      exact rest

/-- Whatever happened before, committing a plan in its order closes every agent after its
children, closes all agents within the target and leaves every other record as it was. -/
theorem plan_closes_subtree (calls : List ControlCall) (published : ∀ call ∈ calls, call.Published)
    (planned : ((agentTree types authority limits).final .initial calls).planCloseTree authority caller
      target = .ok plan) :
    let before := (agentTree types authority limits).final .initial calls
    let after := (agentTree types authority limits).final before (closeCalls plan)
    (plan.map AgentRecord.path).Nodup ∧
    (agentTree types authority limits).AllSteps ClosesChildless before (closeCalls plan) ∧
    (∀ path, after.registry.records.get? path = (before.registry.records.get? path).map fun record =>
      if path.isWithin target then record.close else record) ∧
    (Rooted before → Rooted after) := by
  intro before after
  have admitted := Machine.AllSteps.and_mem
    (Machine.AllSteps.true (agentTree types authority limits) .initial calls) published
  have tree : Tree types limits before :=
    (@Machine.AllSteps.of_invariant _ _ _ (agentTree types authority limits) (Tree types limits)
      (fun _ call => True ∧ call.Published) (fun _ _ => True)
      (fun _ call tree admits => ⟨trivial, tree.step
        (runCall_moves types authority limits tree.keyed call admits.2)⟩) _ _ tree_initial admitted).2
  obtain ⟨listed, distinct, _⟩ := planCloseTree_spec tree.keyed planned
  have childless := closeCalls_childless tree planned [] plan rfl
  refine ⟨distinct, childless, fun path => ?_, fun rooted => ?_⟩
  · rw [closeCalls_records distinct fun record member =>
      have there := (listed record).mp member
      ⟨there.1, there.2.1⟩]
    refine Option.map_congr fun record there => ?_
    obtain rfl := tree.keyed path record there
    by_cases member : record.path ∈ plan.map AgentRecord.path
    · obtain ⟨other, planned, same⟩ := List.mem_map.mp member
      rw [if_pos member, if_pos (same ▸ ((listed other).mp planned).2.2)]
    · rw [if_neg member]
      split
      · next within =>
        have isClosed : record.isOpen = false := by
          by_contra isOpen
          exact member (List.mem_map_of_mem ((listed record).mpr ⟨there, by simpa using isOpen, within⟩))
        rw [record.close_closed isClosed]
      · rfl
  · exact (@Machine.AllSteps.of_invariant _ _ _ (agentTree types authority limits)
      (fun c => Tree types limits c ∧ Rooted c) (fun c call => ClosesChildless c call ∧ call.Published)
      (fun _ _ => True)
      (by
        rintro c call ⟨tree, rooted⟩ ⟨childless, isPublished⟩
        have moves := runCall_moves types authority limits tree.keyed call isPublished
        exact ⟨trivial, tree.step moves, rooted.step moves childless⟩)
      _ _ ⟨tree, rooted⟩ (childless.and_mem (by simp [closeCalls, ControlCall.Published]))).2.2

/-- A lead and its helper. -/
theorem plan_closes_subtree_lead :
    let before := (agentTree leadTypes defaultAuthority roomyLimits).final .initial [spawnLead, spawnHelper]
    ∃ plan, before.planCloseTree defaultAuthority .host leadRecord.path = .ok plan ∧
      ((agentTree leadTypes defaultAuthority roomyLimits).final before (closeCalls plan)).registry.records.get?
        leadRecord.path = some leadRecord.close := by
  intro before
  obtain ⟨plan, planned⟩ : ∃ plan, before.planCloseTree defaultAuthority .host leadRecord.path = .ok plan :=
    ⟨_, rfl⟩
  obtain ⟨_, _, records, _⟩ := plan_closes_subtree [spawnLead, spawnHelper]
    (by simp [spawnLead, spawnHelper, ControlCall.Published]) planned
  exact ⟨plan, planned, (records leadRecord.path).trans (by decide)⟩

end Loushang.Multiagent
