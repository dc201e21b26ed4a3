import Loushang.AppService.ExecutionOwners
import Mathlib.Data.List.Chain

/-!
# Records, tasks and updates

The rest of the registry's invariant: records are kept as long as they can be asked for, a Product is
started once for an invocation, and the updates of an execution follow one another.
-/
namespace Loushang.AppService
open Loushang.Lib

/-- A change of status: entry, the end, or none where an interruption is requested. -/
def ExecutionStatus.Moves : ExecutionStatus → ExecutionStatus → Prop
  | .accepted, next => next ≠ .accepted
  | .running, next => next.terminal = true
  | _, _ => False

/-- One update behind another of the same execution. -/
def ExecutionState.Follows (before after : ExecutionState) : Prop :=
  after.executionId = before.executionId ∧ after.revision = before.revision + 1 ∧
    (before.status.Moves after.status ∨
      before.status.terminal = false ∧ after.status = before.status ∧
        before.interruptRequested = false ∧ after.interruptRequested = true)

/-- The updates of one execution: from its acceptance on each follows the one before, up to the
state it is in. -/
structure Orderly (updates : List ExecutionState) (state : ExecutionState) : Prop where
  first : updates.head? = some (.accepted state.executionId)
  chain : updates.IsChain ExecutionState.Follows
  last : updates.getLast? = some state

def TaskPoint.begun : TaskPoint → Bool
  | .drive _ => false
  | _ => true

namespace Registry

/-- The updates of an execution. -/
def history (r : Registry) (id : PyStr) : List ExecutionState :=
  r.updates.filter fun update => update.executionId = id

structure Kept (r : Registry) : Prop where
  recorded : ∀ (i : Nat) (v : Invocation), r.invocations[i]? = some v →
    v.live = true ∨ v.record.submissionId.isSome = true → r.records.get? v.id = some v.record
  known : ∀ (id : PyStr) (record : ExecutionRecord), r.records.get? id = some record →
    ∃ (i : Nat) (v : Invocation), r.invocations[i]? = some v ∧ v.record = record ∧ v.id = id

structure Driven (r : Registry) : Prop where
  resting : ∀ (i : Nat) (v : Invocation), r.invocations[i]? = some v → v.live = false → v.task = .done
  started : ∀ call ∈ r.starts, ∃ (i : Nat) (v : Invocation), r.invocations[i]? = some v ∧
    v.id = call.record.state.executionId ∧ v.record.key = call.record.key ∧
      v.record.submissionId = call.record.submissionId ∧ v.task.begun = true
  once : (r.starts.map fun call => call.record.state.executionId).Nodup

structure Told (r : Registry) : Prop where
  known : ∀ update ∈ r.updates,
    ∃ (i : Nat) (v : Invocation), r.invocations[i]? = some v ∧ v.id = update.executionId
  orderly : ∀ (i : Nat) (v : Invocation), r.invocations[i]? = some v →
    Orderly (r.history v.id) v.record.state

/-- The registry's invariant. -/
structure Sound (r : Registry) : Prop where
  owned : Owned r
  kept : Kept r
  driven : Driven r
  told : Told r

theorem sound_new (serviceInstanceId : PyStr) (nonce : String) (limits : ExecutionLimits) :
    Sound { serviceInstanceId, nonce, limits } := by
  refine ⟨owned_new _ _ _, ⟨?_, ?_⟩, ⟨?_, ?_, List.nodup_nil⟩, ⟨?_, ?_⟩⟩
  · intro i v found
    cases found
  · intro id record found
    cases found
  · intro i v found
    cases found
  · intro call member
    cases member
  · intro update member
    cases member
  · intro i v found
    cases found

section Distinct
variable {r : Registry} {i j : Nat} {v w : Invocation}

theorem Owned.same (owned : Owned r) (first : r.invocations[i]? = some v)
    (second : r.invocations[j]? = some w) (same : v.id = w.id) : i = j :=
  owned.distinct i j v.outline w.outline (outline_of first) (outline_of second) same

end Distinct

/-! ## A change of an invocation that no table shows -/

section Touch
variable {r : Registry} {i : Nat} {v after : Invocation}

/-- The task of an invocation goes on; its record and its binding stay. -/
structure Touches (before after : Invocation) : Prop where
  record : after.record = before.record
  binding : after.binding = before.binding
  resting : before.live = false → after.task = .done
  begun : before.task.begun = true → after.task.begun = true

theorem Touches.outline (touches : Touches v after) : after.outline = v.outline := by
  unfold Invocation.outline Invocation.id Invocation.live
  rw [touches.record, touches.binding]

theorem Sound.touch (sound : Sound r) (found : r.invocations[i]? = some v)
    (touches : Touches v after) : Sound (r.putInvocation i after) := by
  obtain ⟨owned, ⟨recorded, known⟩, ⟨resting, started, once⟩, ⟨toldKnown, orderly⟩⟩ := sound
  have inside := (List.getElem?_eq_some_iff.mp found).1
  have sameId : after.id = v.id := congrArg (fun record => record.state.executionId) touches.record
  have sameLive : after.live = v.live := congrArg (fun record => record.state.live) touches.record
  have mine : (r.putInvocation i after).invocations[i]? = some after :=
    getElem?_set_some.mpr (.inl ⟨rfl, inside, rfl⟩)
  -- An invocation found before is found after, as it was or touched.
  have later : ∀ (j : Nat) (w : Invocation), r.invocations[j]? = some w →
      ∃ x, (r.putInvocation i after).invocations[j]? = some x ∧ x.record = w.record ∧
        (w.task.begun = true → x.task.begun = true) := by
    intro j w known
    by_cases here : j = i
    · subst here
      rw [found] at known
      cases known
      exact ⟨after, mine, touches.record, touches.begun⟩
    · exact ⟨w, getElem?_set_some.mpr (.inr ⟨here, known⟩), rfl, id⟩
  refine ⟨owned.congr (outlines_set found touches.outline) rfl rfl rfl rfl rfl rfl rfl,
    ⟨?_, ?_⟩, ⟨?_, ?_, once⟩, ⟨?_, ?_⟩⟩
  · intro j w known keep
    rcases getElem?_set_some.mp known with ⟨_, _, rfl⟩ | ⟨_, old⟩
    · have record := recorded i v found
      rw [sameLive, touches.record] at keep
      rw [sameId, touches.record]
      exact record keep
    · exact recorded j w old keep
  · intro id record kept
    obtain ⟨j, w, old, same, named⟩ := known id record kept
    obtain ⟨x, now, record', _⟩ := later j w old
    exact ⟨j, x, now, record'.trans same,
      (congrArg (fun record => record.state.executionId) record').trans named⟩
  · intro j w known dead
    rcases getElem?_set_some.mp known with ⟨_, _, rfl⟩ | ⟨_, old⟩
    · rw [sameLive] at dead
      exact touches.resting dead
    · exact resting j w old dead
  · intro call member
    obtain ⟨j, w, old, named, keyed, submitted, begun⟩ := started call member
    obtain ⟨x, now, record, goesOn⟩ := later j w old
    refine ⟨j, x, now, ?_, ?_, ?_, goesOn begun⟩
    · exact (congrArg (fun record => record.state.executionId) record).trans named
    · rw [record, keyed]
    · rw [record, submitted]
  · intro update member
    obtain ⟨j, w, old, named⟩ := toldKnown update member
    obtain ⟨x, now, record, _⟩ := later j w old
    exact ⟨j, x, now, (congrArg (fun record => record.state.executionId) record).trans named⟩
  · intro j w known
    rcases getElem?_set_some.mp known with ⟨_, _, rfl⟩ | ⟨_, old⟩
    · rw [sameId, touches.record]
      exact orderly i v found
    · exact orderly j w old

theorem modify_of (found : r.invocations[i]? = some v) (f : Invocation → Invocation) :
    r.invocations.modify i f = r.invocations.set i (f v) := by
  apply List.ext_getElem?
  intro j
  rw [List.getElem?_modify, List.getElem?_set]
  by_cases here : i = j
  · subst here
    rw [found, if_pos rfl, if_pos (List.getElem?_eq_some_iff.mp found).1]
    exact congrArg some (if_pos rfl)
  · rw [if_neg here]
    cases r.invocations[j]? with
    | none => rfl
    | some w => exact congrArg some (if_neg here)

end Touch

/-! ## An update -/

section Publish
variable {r : Registry} {i : Nat} {v : Invocation} {state : ExecutionState}

theorem Kept.publish (kept : Kept r) (owned : Owned r) (found : r.invocations[i]? = some v)
    (sameId : state.executionId = v.id) : Kept (r.publish i state) := by
  obtain ⟨recorded, known⟩ := kept
  have inside := (List.getElem?_eq_some_iff.mp found).1
  rw [publish_of found]
  refine ⟨?_, ?_⟩
  · intro j w known keep
    rcases getElem?_set_some.mp known with ⟨_, _, rfl⟩ | ⟨elsewhere, old⟩
    · exact Dict.get?_set_self _ _ _
    · have other : w.id ≠ state.executionId := by
        intro same
        exact elsewhere (owned.same old found (same.trans sameId))
      rw [Dict.get?_set_of_ne _ _ other]
      exact recorded j w old keep
  · intro id record kept
    rw [Dict.get?_set] at kept
    split at kept
    · next here =>
      cases kept
      exact ⟨i, _, getElem?_set_some.mpr (.inl ⟨rfl, inside, rfl⟩), rfl, here.symm⟩
    · next other =>
      obtain ⟨j, w, old, same, named⟩ := known id record kept
      refine ⟨j, w, getElem?_set_some.mpr (.inr ⟨?_, old⟩), same, named⟩
      intro here
      subst here
      rw [found] at old
      cases old
      exact other (named.symm.trans sameId.symm)

theorem Driven.publish (driven : Driven r) (found : r.invocations[i]? = some v)
    (sameId : state.executionId = v.id) (rests : state.live = false → v.task = .done) :
    Driven (r.publish i state) := by
  obtain ⟨resting, started, once⟩ := driven
  have inside := (List.getElem?_eq_some_iff.mp found).1
  rw [publish_of found]
  refine ⟨?_, ?_, once⟩
  · intro j w known dead
    rcases getElem?_set_some.mp known with ⟨_, _, rfl⟩ | ⟨_, old⟩
    · exact rests dead
    · exact resting j w old dead
  · intro call member
    obtain ⟨j, w, old, named, keyed, submitted, begun⟩ := started call member
    by_cases here : j = i
    · subst here
      rw [found] at old
      cases old
      exact ⟨_, _, getElem?_set_some.mpr (.inl ⟨rfl, inside, rfl⟩), sameId.trans named, keyed, submitted,
        begun⟩
    · exact ⟨j, w, getElem?_set_some.mpr (.inr ⟨here, old⟩), named, keyed, submitted, begun⟩

theorem Told.publish (told : Told r) (owned : Owned r) (found : r.invocations[i]? = some v)
    (follows : v.record.state.Follows state) : Told (r.publish i state) := by
  obtain ⟨known, orderly⟩ := told
  have sameId : state.executionId = v.id := follows.1
  have inside := (List.getElem?_eq_some_iff.mp found).1
  rw [publish_of found]
  refine ⟨?_, ?_⟩
  · intro update member
    have there : ∃ (j : Nat) (w : Invocation), r.invocations[j]? = some w ∧ w.id = update.executionId := by
      rcases List.mem_append.mp member with old | new
      · exact known update old
      · rw [List.mem_singleton.mp new]
        exact ⟨i, v, found, sameId.symm⟩
    obtain ⟨j, w, old, named⟩ := there
    by_cases here : j = i
    · subst here
      rw [found] at old
      cases old
      exact ⟨_, _, getElem?_set_some.mpr (.inl ⟨rfl, inside, rfl⟩), sameId.trans named⟩
    · exact ⟨j, w, getElem?_set_some.mpr (.inr ⟨here, old⟩), named⟩
  · intro j w known
    rcases getElem?_set_some.mp known with ⟨_, _, rfl⟩ | ⟨elsewhere, old⟩
    · obtain ⟨first, chain, last⟩ := orderly i v found
      have longer : Registry.history { r with updates := r.updates ++ [state] } state.executionId =
          r.history v.id ++ [state] := by
        unfold history
        rw [List.filter_append, sameId, List.filter_singleton]
        simp [sameId]
      refine ⟨?_, ?_, ?_⟩
      · have start : (r.history v.id ++ [state]).head? = some (.accepted v.record.state.executionId) := by
          rw [List.head?_append, first]
          rfl
        rw [← follows.1] at start
        exact (congrArg List.head? longer).trans start
      · have joined : (r.history v.id ++ [state]).IsChain ExecutionState.Follows := by
          rw [List.isChain_append]
          refine ⟨chain, List.isChain_singleton _, ?_⟩
          intro before atEnd after front
          rw [last, Option.mem_some] at atEnd
          rw [List.head?_singleton, Option.mem_some] at front
          rw [← atEnd, ← front]
          exact follows
        exact longer ▸ joined
      · have ending : (r.history v.id ++ [state]).getLast? = some state := List.getLast?_concat
        exact (congrArg List.getLast? longer).trans ending
    · have other : state.executionId ≠ w.id := by
        intro same
        exact elsewhere (owned.same old found (same.symm.trans sameId))
      have unchanged : Registry.history { r with updates := r.updates ++ [state] } w.id = r.history w.id := by
        unfold history
        rw [List.filter_append, List.filter_singleton]
        simp [other]
      have before := orderly j w old
      rw [← unchanged] at before
      exact before

/-- An update that does not end the execution. -/
theorem Sound.publish (sound : Sound r) (found : r.invocations[i]? = some v)
    (follows : v.record.state.Follows state) (live : v.live = true) (stays : state.live = true) :
    Sound (r.publish i state) := by
  obtain ⟨owned, kept, driven, told⟩ := sound
  refine ⟨owned.publish found follows.1 (stays.trans live.symm), kept.publish owned found follows.1,
    driven.publish found follows.1 ?_, told.publish owned found follows⟩
  intro dead
  rw [stays] at dead
  cases dead

end Publish

/-! ## A submission -/

section Accept
variable {r : Registry} {b : Nat} {binding : Binding} {digest : List Sha256.Word}
  {submissionId : Option PyStr} {i : Nat} {v : Invocation}

theorem Owned.fresh (owned : Owned r) (found : r.invocations[i]? = some v) :
    v.id ≠ executionId r.nonce (r.sequence + 1) := by
  intro same
  obtain ⟨n, small, named⟩ := owned.numbered i v.outline (outline_of found)
  have := executionId_injective r.nonce (named.symm.trans same)
  omega

/-- The record of a submission. -/
def submitted (r : Registry) (binding : Binding) (submissionId : Option PyStr) : ExecutionRecord :=
  ⟨r.serviceInstanceId, binding.view.identity, submissionId,
    .accepted (executionId r.nonce r.sequence)⟩

/-- What a submission behind its checks changes. -/
theorem accept_of (text : PyStr) :
    let s := (r.accept b binding text digest submissionId).2
    s.invocations = r.invocations ++ [⟨r.submitted binding submissionId, b, .drive text, false, none⟩] ∧
      s.records = (r.records.set (executionId r.nonce r.sequence)
        (r.submitted binding submissionId)).set (executionId r.nonce r.sequence)
          (r.submitted binding submissionId) ∧
      s.updates = r.updates ++ [.accepted (executionId r.nonce r.sequence)] ∧ s.starts = r.starts := by
  have found : (r.entry b binding text digest submissionId).invocations[r.invocations.length]? =
      some ⟨r.submitted binding submissionId, b, .drive text, false, none⟩ :=
    List.getElem?_concat_length
  unfold accept
  dsimp only
  rw [publish_of found]
  refine ⟨?_, rfl, rfl, rfl⟩
  unfold Registry.entry
  rw [List.set_append_right _ _ (Nat.le_refl _), Nat.sub_self]
  rfl

theorem Sound.accept (sound : Sound r) (text : PyStr) (found : r.bindings[b]? = some binding)
    (idle : r.active.get? (canonical binding.view.identity) = none)
    (room : r.active.entries.length < r.limits.active)
    (unused : ∀ id, submissionId = some id →
      r.ledger.get? (canonical binding.view.identity, id) = none) :
    Sound ({ r with sequence := r.sequence + 1 }.accept b binding text digest submissionId).2 := by
  obtain ⟨owned, ⟨recorded, known⟩, ⟨resting, started, once⟩, ⟨toldKnown, orderly⟩⟩ := sound
  have entered : Owned ({ r with sequence := r.sequence + 1 }.accept b binding text digest
      submissionId).2 := by
    have atEntry := @Owned.entry r b binding digest submissionId owned text found idle room unused
    exact atEntry.publish List.getElem?_concat_length rfl rfl
  obtain ⟨invocations, records, updates, starts⟩ :=
    @accept_of { r with sequence := r.sequence + 1 } b binding digest submissionId text
  let id := executionId r.nonce (r.sequence + 1)
  have untold : r.history id = [] := by
    refine List.filter_eq_nil_iff.mpr ?_
    intro update member same
    obtain ⟨i, v, old, named⟩ := toldKnown update member
    exact owned.fresh old (named.trans (of_decide_eq_true same))
  refine ⟨entered, ⟨?_, ?_⟩, ⟨?_, ?_, ?_⟩, ⟨?_, ?_⟩⟩
  · intro i v there keep
    rw [invocations, getElem?_concat] at there
    rw [records]
    rcases there with old | ⟨_, rfl⟩
    · rw [Dict.get?_set_of_ne _ _ (owned.fresh old), Dict.get?_set_of_ne _ _ (owned.fresh old)]
      exact recorded i v old keep
    · exact Dict.get?_set_self _ _ _
  · intro other record there
    rw [records, Dict.get?_set] at there
    rw [invocations]
    split at there
    · next here =>
      cases there
      exact ⟨_, _, getElem?_concat.mpr (.inr ⟨rfl, rfl⟩), rfl, here.symm⟩
    · next elsewhere =>
      rw [Dict.get?_set_of_ne _ _ elsewhere] at there
      obtain ⟨i, v, old, rest⟩ := known other record there
      exact ⟨i, v, getElem?_concat.mpr (.inl old), rest⟩
  · intro i v there dead
    rw [invocations, getElem?_concat] at there
    rcases there with old | ⟨_, rfl⟩
    · exact resting i v old dead
    · cases dead
  · intro call member
    rw [starts] at member
    rw [invocations]
    obtain ⟨i, v, old, rest⟩ := started call member
    exact ⟨i, v, getElem?_concat.mpr (.inl old), rest⟩
  · rw [starts]
    exact once
  · intro update member
    rw [updates, List.mem_append, List.mem_singleton] at member
    rw [invocations]
    rcases member with old | rfl
    · obtain ⟨i, v, there, named⟩ := toldKnown update old
      exact ⟨i, v, getElem?_concat.mpr (.inl there), named⟩
    · exact ⟨_, _, getElem?_concat.mpr (.inr ⟨rfl, rfl⟩), rfl⟩
  · intro i v there
    rw [invocations, getElem?_concat] at there
    unfold history
    rw [updates, List.filter_append, List.filter_singleton]
    rcases there with old | ⟨_, rfl⟩
    · have other : ¬ (ExecutionState.accepted id).executionId = v.id := fun same =>
        owned.fresh old same.symm
      rw [decide_eq_false other, cond_false, List.append_nil]
      exact orderly i v old
    · have alone : (r.updates.filter fun update => update.executionId = id) = [] := untold
      rw [show (⟨submitted { r with sequence := r.sequence + 1 } binding submissionId, b, .drive text,
        false, none⟩ : Invocation).id = id from rfl, alone]
      rw [show decide ((ExecutionState.accepted id).executionId = id) = true from decide_eq_true rfl]
      exact ⟨rfl, List.isChain_singleton _, rfl⟩

end Accept

end Registry

end Loushang.AppService
