import Loushang.AppService.ExecutionRecords
import Loushang.Lib.Lists

/-!
# The steps of the registry

Every call of the registry, every report of the Product and every step of a task keeps the registry's
invariant, and none of them takes an entry off the ledger.
-/
namespace Loushang.AppService
open Loushang.Lib

namespace Registry

/-! ## Records that are kept for a while -/

section Expire
variable {r : Registry} {i : Nat} {v : Invocation}

theorem mem_of_mem_expired {recent : Nat} {now : Rat} {entries : List (PyStr × Rat)}
    {entry : PyStr × Rat} (gone : entry ∈ expired recent now entries) : entry ∈ entries := by
  induction entries with
  | nil => exact gone
  | cons first rest ih =>
    unfold expired at gone
    split at gone
    · cases gone
    · rcases List.mem_cons.mp gone with here | later
      · exact here ▸ List.mem_cons_self
      · exact List.mem_cons_of_mem _ (ih later)

theorem get?_popAll {V W : Type} {table : Dict PyStr V} {gone : List (PyStr × W)} {id : PyStr} :
    (gone.foldl (fun table entry => table.pop entry.1) table).get? id =
      if id ∈ gone.map Prod.fst then none else table.get? id := by
  induction gone generalizing table with
  | nil => rfl
  | cons entry rest ih =>
    rw [List.foldl_cons, ih, List.map_cons]
    by_cases here : id = entry.1
    · subst here
      rw [Dict.get?_pop_self, if_pos List.mem_cons_self]
      exact ite_self none
    · rw [Dict.get?_pop_of_ne _ here]
      simp only [List.mem_cons, here, false_or]

/-- Only the record of an ended execution without a submission is given up. -/
theorem Owned.of_expired (owned : Owned r) (now : Rat) (found : r.invocations[i]? = some v)
    (gone : v.id ∈ (expired r.limits.recentLegacy now r.legacy.entries).map Prod.fst) :
    v.live = false ∧ v.record.submissionId = none := by
  obtain ⟨entry, inside, named⟩ := List.mem_map.mp gone
  have key : v.id ∈ r.legacy.keys := named ▸ List.mem_map_of_mem (mem_of_mem_expired inside)
  obtain ⟨j, o, known, same, unsubmitted, dead⟩ := owned.cached v.id key
  have here := owned.distinct i j v.outline o (outline_of found) known same.symm
  subst here
  rw [outline_of found, Option.some.injEq] at known
  subst known
  exact ⟨dead, unsubmitted⟩

theorem Sound.expireLegacy (sound : Sound r) (now : Rat) : Sound (r.expireLegacy now) := by
  obtain ⟨owned, ⟨recorded, known⟩, driven, told⟩ := sound
  refine ⟨owned.expireLegacy now, ⟨?_, ?_⟩, ⟨driven.resting, driven.started, driven.once⟩,
    ⟨told.known, told.orderly⟩⟩
  · intro i v found keep
    refine get?_popAll.trans ?_
    rw [if_neg, recorded i v found keep]
    intro gone
    obtain ⟨dead, unsubmitted⟩ := owned.of_expired now found gone
    rw [dead, unsubmitted] at keep
    simp at keep
  · intro id record there
    have table := get?_popAll.symm.trans there
    split at table
    · cases table
    · exact known id record table

theorem Sound.get (sound : Sound r) (identity : SessionIdentity) (executionId : PyStr) (now : Rat) :
    Sound (r.get identity executionId now).2 := by
  unfold Registry.get
  split
  · exact sound
  · dsimp only
    split
    · exact sound.expireLegacy now
    · split
      · exact sound.expireLegacy now
      · exact sound.expireLegacy now

end Expire

/-! ## The end of an execution -/

section Settle
variable {r : Registry} {i : Nat} {v : Invocation}

theorem follows_finished (live : v.live = true) (outcome : ExecutionOutcome) :
    v.record.state.Follows (v.record.state.finished outcome) := by
  refine ⟨rfl, rfl, .inl ?_⟩
  have ended : (v.record.state.finished outcome).status.terminal = true := outcome.terminal
  unfold Invocation.live ExecutionState.live at live
  cases status : v.record.state.status with
  | accepted =>
    intro same
    rw [same] at ended
    cases ended
  | running => exact ended
  | succeeded => simp [status, ExecutionStatus.terminal] at live
  | failed => simp [status, ExecutionStatus.terminal] at live
  | interrupted => simp [status, ExecutionStatus.terminal] at live

theorem Sound.released (sound : Sound r) (found : r.invocations[i]? = some v) (live : v.live = true)
    (rests : v.task = .done) (outcome : ExecutionOutcome) :
    Sound (((r.quiet v).publish i (v.record.state.finished outcome)).release v) := by
  have owned := sound.owned.released found live outcome
  obtain ⟨before, kept, driven, told⟩ := sound
  have quietFound : (r.quiet v).invocations[i]? = some v := found
  have quietOwned : Owned (r.quiet v) :=
    before.congr rfl (owners_quiet v) rfl rfl rfl rfl rfl rfl
  have quietKept : Kept (r.quiet v) := ⟨kept.recorded, kept.known⟩
  have quietDriven : Driven (r.quiet v) := ⟨driven.resting, driven.started, driven.once⟩
  have quietTold : Told (r.quiet v) := ⟨told.known, told.orderly⟩
  have follows := follows_finished live outcome
  have publishedKept := quietKept.publish quietOwned quietFound follows.1
  have publishedDriven := quietDriven.publish quietFound follows.1 fun _ => rests
  have publishedTold := quietTold.publish quietOwned quietFound follows
  exact ⟨owned, ⟨publishedKept.recorded, publishedKept.known⟩,
    ⟨publishedDriven.resting, publishedDriven.started, publishedDriven.once⟩,
    ⟨publishedTold.known, publishedTold.orderly⟩⟩

theorem Sound.settle (sound : Sound r) (found : r.invocations[i]? = some v) (live : v.live = true)
    (rests : v.task = .done) (outcome : ExecutionOutcome) (now : Rat) :
    Sound (r.settle i v outcome now) := by
  have released := sound.released found live rests outcome
  unfold Registry.settle cache
  split
  · next unsubmitted =>
    have outlines : (((r.quiet v).publish i (v.record.state.finished outcome)).release v).outlines =
        r.outlines.set i { v.outline with live := false } :=
      outlines_publish_finished (show (r.quiet v).invocations[i]? = some v from found) outcome
    have inside : i < r.outlines.length := (List.getElem?_eq_some_iff.mp (outline_of found)).1
    have mine : (((r.quiet v).publish i (v.record.state.finished outcome)).release v).outlines[i]? =
        some { v.outline with live := false } := by
      rw [outlines]
      exact getElem?_set_some.mpr (.inl ⟨rfl, inside, rfl⟩)
    have remembered := released.owned.remember mine (Option.isNone_iff_eq_none.mp unsubmitted) rfl
      (now + (((r.quiet v).publish i (v.record.state.finished outcome)).release
        v).limits.legacyRetentionSeconds)
    have sound : Sound _ := ⟨remembered, ⟨released.kept.recorded, released.kept.known⟩,
      ⟨released.driven.resting, released.driven.started, released.driven.once⟩,
      ⟨released.told.known, released.told.orderly⟩⟩
    exact sound.expireLegacy now
  · exact released

theorem Sound.endTask (sound : Sound r) : Sound (r.endTask i) := by
  unfold Registry.endTask
  cases found : r.invocations[i]? with
  | none =>
    have same : (r.invocations.modify i fun invocation => { invocation with task := .done }) =
        r.invocations := by
      apply List.ext_getElem?
      intro j
      rw [List.getElem?_modify]
      cases here : r.invocations[j]? with
      | none => rfl
      | some w =>
        have elsewhere : i ≠ j := by
          intro same
          rw [same, here] at found
          cases found
        exact congrArg some (if_neg elsewhere)
    rw [same]
    exact sound
  | some v =>
    rw [modify_of found]
    exact sound.touch found ⟨rfl, rfl, fun _ => rfl, fun _ => rfl⟩

theorem Sound.finishTask (sound : Sound r) (found : r.invocations[i]? = some v)
    (live : v.live = true) (outcome : Option ExecutionOutcome) (now : Rat) :
    Sound (r.finishTask i outcome now) := by
  have ended := @Sound.endTask r i sound
  have mine : (r.endTask i).invocations[i]? = some { v with task := .done } := by
    unfold Registry.endTask
    rw [modify_of found]
    exact getElem?_set_some.mpr (.inl ⟨rfl, (List.getElem?_eq_some_iff.mp found).1, rfl⟩)
  unfold Registry.finishTask
  split
  · next after done =>
    unfold finish at done
    rw [mine] at done
    cases outcome with
    | none => cases done
    | some outcome =>
      dsimp only at done
      split at done
      · cases done
      · split at done
        · cases done
        · cases done
          exact ended.settle mine live rfl outcome now
  · exact ended

end Settle

/-! ## Reports of the Product -/

section Observation
variable {r : Registry} {i : Nat} {v : Invocation}

theorem Sound.touchTask (sound : Sound r) (found : r.invocations[i]? = some v)
    {f : Invocation → Invocation} (record : (f v).record = v.record)
    (binding : (f v).binding = v.binding) (task : (f v).task = v.task) :
    Sound { r with invocations := r.invocations.modify i f } := by
  rw [modify_of found]
  refine sound.touch found ⟨record, binding, ?_, ?_⟩
  · intro dead
    rw [task]
    exact sound.driven.resting i v found dead
  · intro begun
    rw [task]
    exact begun

theorem Sound.onObservation (sound : Sound r) (b : Nat) (value : ExecutionObservation) :
    Sound (r.onObservation b value).2 := by
  unfold Registry.onObservation
  split
  · exact sound
  · next i active =>
    split
    · exact sound
    · next v found =>
      dsimp only
      split
      · exact sound
      · split
        · next executionId =>
          split
          · exact sound
          · next accepted =>
            have status : v.record.state.status = .accepted := not_not.mp accepted
            have live : v.live = true := by
              unfold Invocation.live ExecutionState.live
              rw [status]
              rfl
            have follows : v.record.state.Follows v.record.state.entered := by
              refine ⟨rfl, rfl, .inl ?_⟩
              rw [status]
              exact nofun
            have published := sound.publish found follows live rfl
            have mine : (r.publish i v.record.state.entered).invocations[i]? =
                some { v with record := { v.record with state := v.record.state.entered } } := by
              rw [publish_of found]
              exact getElem?_set_some.mpr (.inl ⟨rfl, (List.getElem?_eq_some_iff.mp found).1, rfl⟩)
            exact published.touchTask mine rfl rfl rfl
        · split
          · exact sound
          · exact sound.touch found
              ⟨rfl, rfl, sound.driven.resting i v found, id⟩

/-- A report ends no execution. -/
theorem outlines_onObservation (b : Nat) (value : ExecutionObservation) :
    (r.onObservation b value).2.outlines = r.outlines := by
  unfold Registry.onObservation
  split
  · rfl
  · next i active =>
    split
    · rfl
    · next v found =>
      dsimp only
      split
      · rfl
      · split
        · split
          · rfl
          · next accepted =>
            have status : v.record.state.status = .accepted := not_not.mp accepted
            have same : Invocation.outline { v with
                record := { v.record with state := v.record.state.entered } } = v.outline := by
              unfold Invocation.outline Invocation.live ExecutionState.live
              rw [status]
              rfl
            have published : (r.publish i v.record.state.entered).outlines = r.outlines := by
              rw [publish_of found]
              exact outlines_set found same
            refine Eq.trans ?_ published
            exact outlines_modify _ _ fun _ => rfl
        · split
          · rfl
          · exact outlines_set found rfl

/-- What the Product reports during a call. -/
theorem Sound.reports (sound : Sound r) (b : Nat) (emitted : List ExecutionObservation) :
    let s := emitted.foldl (fun r value => (r.onObservation b value).2) r
    Sound s ∧ s.outlines = r.outlines := by
  induction emitted generalizing r with
  | nil => exact ⟨sound, rfl⟩
  | cons value rest ih =>
    obtain ⟨later, same⟩ := ih (sound.onObservation b value)
    exact ⟨later, same.trans (outlines_onObservation b value)⟩

end Observation

/-! ## Interruption and settlement -/

section Interrupt
variable {r : Registry} {i : Nat} {v : Invocation}

variable {record : ExecutionRecord}

/-- The record of an invocation that is asked for by name. -/
theorem Sound.record_of (sound : Sound r) (found : r.invocations[i]? = some v)
    (kept : r.records.get? v.id = some record) : v.record = record := by
  obtain ⟨j, w, known, same, named⟩ := sound.kept.known v.id record kept
  have here := sound.owned.same found known named.symm
  subst here
  rw [found, Option.some.injEq] at known
  rw [known]
  exact same

theorem get_ok {identity : SessionIdentity} {executionId : PyStr} {now : Rat} {s : Registry}
    (answer : r.get identity executionId now = (.ok record, s)) :
    s = r.expireLegacy now ∧ s.records.get? executionId = some record := by
  unfold Registry.get at answer
  split at answer
  · cases answer
  · dsimp only at answer
    split at answer
    · cases answer
    · next record kept =>
      split at answer
      · cases answer
      · cases answer
        exact ⟨rfl, kept⟩

theorem Sound.interrupt (sound : Sound r) (b : Nat) (executionId : PyStr) (now : Rat)
    (answers : Bool) : Sound (r.interrupt b executionId now answers).2 := by
  unfold Registry.interrupt
  split
  · exact sound
  · next binding bound =>
    have got := sound.get binding.view.identity executionId now
    split
    · next failure s answer =>
      rw [answer] at got
      exact got
    · next record s answer =>
      rw [answer] at got
      obtain ⟨_, kept⟩ := get_ok answer
      split
      · exact got
      · next running =>
        split
        · exact got
        · next i v active =>
          have found : s.invocations[i]? = some v := by
            obtain ⟨j, _, here⟩ := Option.bind_eq_some_iff.mp active
            obtain ⟨w, there, same⟩ := Option.map_eq_some_iff.mp here
            cases same
            exact there
          split
          · exact got
          · next named =>
            have name : v.id = executionId := not_not.mp named
            rw [← name] at kept
            have same := got.record_of found kept
            subst same
            split
            · exact got
            · next unasked =>
              split
              · exact got
              · have status : v.record.state.status.terminal = false := by
                  rw [Bool.not_eq_true] at running
                  exact running
                have live : v.live = true := by
                  unfold Invocation.live ExecutionState.live
                  rw [status]
                  rfl
                refine got.publish found ⟨rfl, rfl, .inr ⟨status, rfl, ?_, rfl⟩⟩ live live
                rw [Bool.not_eq_true] at unasked
                exact unasked

theorem Sound.retrySettlement (sound : Sound r) (b : Nat) (executionId : PyStr) (now : Rat)
    (created : Bool) : Sound (r.retrySettlement b executionId now created).2 := by
  unfold Registry.retrySettlement
  split
  · exact sound
  · next binding bound =>
    have got := sound.get binding.view.identity executionId now
    split
    · next failure s answer =>
      rw [answer] at got
      exact got
    · next record s answer =>
      rw [answer] at got
      obtain ⟨_, kept⟩ := get_ok answer
      split
      · exact got
      · next running =>
        split
        · exact got
        · next i v active =>
          have found : s.invocations[i]? = some v := by
            obtain ⟨j, _, here⟩ := Option.bind_eq_some_iff.mp active
            obtain ⟨w, there, same⟩ := Option.map_eq_some_iff.mp here
            cases same
            exact there
          split
          · exact got
          · next named =>
            split
            · exact got
            · split
              · have name : v.id = executionId := not_not.mp named
                rw [← name] at kept
                have same := got.record_of found kept
                refine got.touch found ⟨rfl, rfl, ?_, fun _ => rfl⟩
                intro dead
                unfold Invocation.live ExecutionState.live at dead
                rw [same, Bool.not_eq_false'] at dead
                exact absurd dead running
              · exact got

/-- Bindings that keep their sessions and active invocations. -/
theorem Sound.rebind (sound : Sound r) {bindings : List Binding}
    (same : (bindings.map fun binding => (binding.view.identity, binding.active)) = r.owners) :
    Sound { r with bindings := bindings } :=
  ⟨sound.owned.congr rfl same rfl rfl rfl rfl rfl rfl, ⟨sound.kept.recorded, sound.kept.known⟩,
    ⟨sound.driven.resting, sound.driven.started, sound.driven.once⟩,
    ⟨sound.told.known, sound.told.orderly⟩⟩

theorem Sound.closeBinding (sound : Sound r) (b : Nat) (now : Rat) (answers created : Bool) :
    Sound (r.closeBinding b now answers created).2 := by
  unfold Registry.closeBinding
  split
  · exact sound
  · next binding bound =>
    have closing : Sound (r.putBinding b { binding with closing := true }) := by
      refine sound.rebind ?_
      apply List.ext_getElem?
      intro c
      unfold owners
      rw [List.getElem?_map, List.getElem?_set, List.getElem?_map]
      by_cases here : b = c
      · subst here
        rw [if_pos rfl, if_pos (List.getElem?_eq_some_iff.mp bound).1, bound]
        rfl
      · rw [if_neg here]
    dsimp only
    split
    · exact closing
    · next v active =>
      have interrupted := closing.interrupt b v.id now answers
      split
      · next failure s answer =>
        rw [answer] at interrupted
        exact interrupted
      · next answer s _ told =>
        rw [told] at interrupted
        exact interrupted.retrySettlement b v.id now created

end Interrupt

/-! ## Bindings and submissions -/

section Submit
variable {r : Registry} {i : Nat} {v : Invocation}

theorem Sound.bind (sound : Sound r) (identity : SessionIdentity) : Sound (r.bind identity).2 := by
  obtain ⟨owned, kept, driven, told⟩ := sound
  have owners : (r.bind identity).2.owners = r.owners ++ [(identity, none)] := List.map_append
  refine ⟨⟨owned.numbered, owned.distinct, owned.active_iff, ?_, ?_, owned.limited, owned.ledger_iff,
    owned.cached⟩, ⟨kept.recorded, kept.known⟩, ⟨driven.resting, driven.started, driven.once⟩,
    ⟨told.known, told.orderly⟩⟩
  · intro b i
    refine Iff.trans ?_ (owned.bound_iff b i)
    rw [owners]
    constructor
    · intro ⟨session, owns⟩
      rcases getElem?_concat.mp owns with old | ⟨_, same⟩
      · exact ⟨session, old⟩
      · cases same
    · intro ⟨session, owns⟩
      exact ⟨session, getElem?_concat.mpr (.inl owns)⟩
  · intro i o found
    obtain ⟨active, owns⟩ := owned.bound i o found
    rw [owners]
    exact ⟨active, getElem?_concat.mpr (.inl owns)⟩

/-- A submission whose task could not be created takes a number only. -/
theorem Sound.skip (sound : Sound r) : Sound { r with sequence := r.sequence + 1 } := by
  obtain ⟨owned, kept, driven, told⟩ := sound
  refine ⟨⟨?_, owned.distinct, owned.active_iff, owned.bound_iff, owned.bound, owned.limited,
    owned.ledger_iff, owned.cached⟩, ⟨kept.recorded, kept.known⟩,
    ⟨driven.resting, driven.started, driven.once⟩, ⟨told.known, told.orderly⟩⟩
  intro i o found
  obtain ⟨n, small, named⟩ := owned.numbered i o found
  exact ⟨n, Nat.le_succ_of_le small, named⟩

/-- What a submission takes: a text and an identifier, on an open binding. -/
structure Submittable (r : Registry) (binding : Binding) (text : PyStr)
    (submissionId : Option PyStr) : Prop where
  opened : r.closed = false ∧ binding.closing = false
  turn : isTurnText text = true
  identifier : ∀ id, submissionId = some id → isIdentifier id = true

/-- Everything that `submit` does. -/
inductive Submits (r : Registry) (b : Nat) (text : PyStr) (submissionId : Option PyStr) :
    Answer × Registry → Prop where
  | refused (failure : Failure) : Submits r b text submissionId (.failed failure, r)
  | known (binding : Binding) (bytes : List UInt8) (id : PyStr) (record : ExecutionRecord)
      (submission : PyStr) (bound : r.bindings[b]? = some binding)
      (valid : Submittable r binding text submissionId) (encoded : text.encode? = some bytes)
      (named : submissionId = some submission)
      (prior : r.ledger.get? (canonical binding.view.identity, submission) =
        some (Sha256.digest bytes, id))
      (kept : r.records.get? id = some record) : Submits r b text submissionId (.record record, r)
  | accepted (binding : Binding) (bytes : List UInt8) (bound : r.bindings[b]? = some binding)
      (valid : Submittable r binding text submissionId) (encoded : text.encode? = some bytes)
      (idle : r.active.get? (canonical binding.view.identity) = none)
      (room : r.active.entries.length < r.limits.active)
      (unused : ∀ id, submissionId = some id →
        r.ledger.get? (canonical binding.view.identity, id) = none) :
      Submits r b text submissionId
        ({ r with sequence := r.sequence + 1 }.accept b binding text (Sha256.digest bytes) submissionId)
  | skipped : Submits r b text submissionId (.failed .task, { r with sequence := r.sequence + 1 })

theorem submits (b : Nat) (text : PyStr) (submissionId : Option PyStr) (created : Bool) :
    Submits r b text submissionId (r.submit b text submissionId created) := by
  unfold Registry.submit
  split
  · exact .refused _
  · next binding bound =>
    split
    · exact .refused _
    · next opened =>
      split
      · exact .refused _
      · next turn =>
        split
        · exact .refused _
        · next bytes encoded =>
          dsimp only
          split
          · exact .refused _
          · next identifier =>
            have valid : Submittable r binding text submissionId := by
              rw [Bool.not_eq_true, Bool.or_eq_false_iff] at opened
              refine ⟨opened, by simpa using turn, ?_⟩
              intro id same
              rw [same] at identifier
              simpa using identifier
            split
            · next prior there =>
              obtain ⟨submission, named, entry⟩ := Option.bind_eq_some_iff.mp there
              split
              · exact .refused _
              · next same =>
                split
                · exact .refused _
                · next record kept =>
                  have entry' : r.ledger.get? (canonical binding.view.identity, submission) =
                      some (Sha256.digest bytes, prior.2) := by
                    rw [entry, ← not_not.mp same]
                  exact .known binding bytes prior.2 record submission bound valid encoded named entry' kept
            · next unused =>
              split
              · exact .refused _
              · next free =>
                rw [Bool.not_eq_true, Bool.or_eq_false_iff, decide_eq_false_iff_not] at free
                split
                · exact .refused _
                · split
                  · refine .accepted binding bytes bound valid encoded ?_ (Nat.lt_of_not_le free.2) ?_
                    · rw [← Option.isNone_iff_eq_none, ← Option.not_isSome]
                      rw [free.1]
                      rfl
                    · intro id same
                      subst same
                      exact unused
                  · exact .skipped

theorem Sound.submit (sound : Sound r) (b : Nat) (text : PyStr) (submissionId : Option PyStr)
    (created : Bool) : Sound (r.submit b text submissionId created).2 := by
  have done := @submits r b text submissionId created
  generalize r.submit b text submissionId created = result at done ⊢
  cases done with
  | refused => exact sound
  | known => exact sound
  | accepted binding bytes bound valid encoded idle room unused =>
    exact sound.accept text bound idle room unused
  | skipped => exact sound.skip

end Submit

/-! ## Tasks -/

section Progress
variable {r : Registry} {i : Nat} {v : Invocation}

/-- The Product is started: once, for an invocation whose task had not begun. -/
theorem Sound.begin (sound : Sound r) (found : r.invocations[i]? = some v) {text : PyStr}
    (point : v.task = .drive text) :
    Sound { r.putInvocation i { v with task := .waiting } with
      starts := r.starts ++ [StartCall.mk v.record text] } := by
  have live : v.live = true := by
    by_contra dead
    have resting := sound.driven.resting i v found (Bool.not_eq_true _ ▸ dead)
    rw [point] at resting
    cases resting
  have touched : Sound (r.putInvocation i { v with task := .waiting }) := by
    refine sound.touch found ⟨rfl, rfl, ?_, fun _ => rfl⟩
    intro dead
    rw [live] at dead
    cases dead
  obtain ⟨owned, kept, driven, told⟩ := touched
  have mine : (r.putInvocation i { v with task := .waiting }).invocations[i]? =
      some { v with task := .waiting } :=
    getElem?_set_some.mpr (.inl ⟨rfl, (List.getElem?_eq_some_iff.mp found).1, rfl⟩)
  refine ⟨owned.congr rfl rfl rfl rfl rfl rfl rfl rfl, ⟨kept.recorded, kept.known⟩,
    ⟨driven.resting, ?_, ?_⟩, ⟨told.known, told.orderly⟩⟩
  · exact forall_mem_snoc driven.started ⟨i, _, mine, rfl, rfl, rfl, rfl⟩
  · rw [List.map_append]
    refine List.nodup_append.mpr ⟨sound.driven.once, List.nodup_singleton _, ?_⟩
    intro id before other now same
    rw [List.map_singleton, List.mem_singleton] at now
    obtain ⟨call, member, named⟩ := List.mem_map.mp before
    obtain ⟨j, w, known, name, _, _, begun⟩ := sound.driven.started call member
    have sameId : v.id = w.id := by
      rw [name, named, same, now]
      rfl
    have here := sound.owned.same found known sameId
    subst here
    rw [found, Option.some.injEq] at known
    rw [← known, point] at begun
    cases begun

/-- An invocation is live where its outline was. -/
theorem live_of_outlines {s : Registry} (same : s.outlines = r.outlines)
    (found : r.invocations[i]? = some v) (live : v.live = true) :
    ∃ w, s.invocations[i]? = some w ∧ w.live = true := by
  have outline := outline_of found
  rw [← same, getElem?_outlines] at outline
  obtain ⟨w, known, equal⟩ := Option.map_eq_some_iff.mp outline
  refine ⟨w, known, ?_⟩
  have liveness := congrArg Outline.live equal
  exact liveness.trans live

theorem Sound.start (sound : Sound r) (found : r.invocations[i]? = some v) (live : v.live = true)
    {text : PyStr} (point : v.task = .drive text) (emitted : List ExecutionObservation)
    (reply : Reply) (now : Rat) : Sound (r.start i v text emitted reply now) := by
  have begun := sound.begin found point
  obtain ⟨reported, outlines⟩ := begun.reports v.binding emitted
  have kept : (r.putInvocation i { v with task := .waiting }).outlines = r.outlines :=
    outlines_set found rfl
  obtain ⟨w, known, stillLive⟩ := live_of_outlines (outlines.trans kept) found live
  unfold Registry.start
  split
  · exact reported.finishTask known stillLive _ now
  · exact reported.touchTask known rfl rfl rfl
  · exact reported.endTask

theorem Sound.progress (sound : Sound r) (i : Nat) (emitted : List ExecutionObservation)
    (reply : Reply) (now : Rat) : Sound (r.progress i emitted reply now) := by
  unfold Registry.progress
  split
  · exact sound
  · next v found =>
    have live : v.task ≠ .done → v.live = true := by
      intro pending
      by_contra dead
      exact pending (sound.driven.resting i v found (Bool.not_eq_true _ ▸ dead))
    split
    · exact sound
    · exact sound.endTask
    · next text point _ =>
      have isLive : v.live = true := live (by rw [point]; exact nofun)
      split
      · exact sound.finishTask found isLive _ now
      · exact sound.start found isLive point emitted _ now
    · next point _ =>
      have isLive : v.live = true := live (by rw [point]; exact nofun)
      split
      · refine sound.touch found ⟨rfl, rfl, ?_, fun _ => rfl⟩
        intro dead
        rw [isLive] at dead
        cases dead
      · exact sound.finishTask found isLive _ now
    · next point =>
      have isLive : v.live = true := live (by rw [point]; exact nofun)
      refine sound.touch found ⟨rfl, rfl, ?_, fun _ => rfl⟩
      intro dead
      rw [isLive] at dead
      cases dead
    · exact sound.endTask
    · next point =>
      exact sound.finishTask found (live (by rw [point]; exact nofun)) _ now
    · exact sound.endTask

end Progress

end Registry

end Loushang.AppService
