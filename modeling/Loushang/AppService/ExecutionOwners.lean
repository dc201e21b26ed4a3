import Loushang.AppService.Executions

/-!
# Who owns an execution

What the registry's tables say of its invocations, apart from their revisions: which are active and
for which session and binding, which submission they answer, which are cached only for a while.
All of it is read off the outlines of the invocations, so a step that changes no outline keeps it.
-/
namespace Loushang.AppService
open Loushang.Lib

/-- What does not change about an invocation while it is active, and whether it is. -/
structure Outline where
  id : PyStr
  identity : SessionIdentity
  submissionId : Option PyStr
  binding : Nat
  live : Bool

def Outline.key (outline : Outline) : SessionKey := canonical outline.identity

def Invocation.outline (invocation : Invocation) : Outline :=
  ⟨invocation.id, invocation.record.identity, invocation.record.submissionId, invocation.binding,
    invocation.live⟩

namespace Registry

def outlines (r : Registry) : List Outline := r.invocations.map Invocation.outline

/-- The session and the active invocation of every binding. -/
def owners (r : Registry) : List (SessionIdentity × Option Nat) :=
  r.bindings.map fun binding => (binding.view.identity, binding.active)

/-- The tables agree with the outlines of the invocations. -/
structure Owned (r : Registry) : Prop where
  numbered : ∀ (i : Nat) (o : Outline), r.outlines[i]? = some o → ∃ n ≤ r.sequence, o.id = executionId r.nonce n
  distinct : ∀ (i j : Nat) (o p : Outline), r.outlines[i]? = some o → r.outlines[j]? = some p → o.id = p.id → i = j
  active_iff : ∀ (key : SessionKey) (i : Nat), r.active.get? key = some i ↔
    ∃ o : Outline, r.outlines[i]? = some o ∧ o.key = key ∧ o.live = true
  bound_iff : ∀ (b i : Nat), (∃ identity, r.owners[b]? = some (identity, some i)) ↔
    ∃ o : Outline, r.outlines[i]? = some o ∧ o.binding = b ∧ o.live = true
  bound : ∀ (i : Nat) (o : Outline), r.outlines[i]? = some o → ∃ active, r.owners[o.binding]? = some (o.identity, active)
  limited : r.active.entries.length ≤ r.limits.active
  ledger_iff : ∀ key submissionId id, (∃ digest, r.ledger.get? (key, submissionId) = some (digest, id)) ↔
    ∃ (i : Nat) (o : Outline), r.outlines[i]? = some o ∧ o.id = id ∧ o.key = key ∧ o.submissionId = some submissionId
  cached : ∀ id ∈ r.legacy.keys,
    ∃ (i : Nat) (o : Outline), r.outlines[i]? = some o ∧ o.id = id ∧ o.submissionId = none ∧ o.live = false

theorem Owned.congr {r s : Registry} (owned : Owned r) (outlines : s.outlines = r.outlines)
    (owners : s.owners = r.owners) (active : s.active = r.active) (ledger : s.ledger = r.ledger)
    (legacy : s.legacy = r.legacy) (sequence : s.sequence = r.sequence) (nonce : s.nonce = r.nonce)
    (limits : s.limits = r.limits) : Owned s := by
  refine ⟨?_, ?_, ?_, ?_, ?_, ?_, ?_, ?_⟩
  · rw [outlines, sequence, nonce]
    exact owned.numbered
  · rw [outlines]
    exact owned.distinct
  · rw [outlines, active]
    exact owned.active_iff
  · rw [outlines, owners]
    exact owned.bound_iff
  · rw [outlines, owners]
    exact owned.bound
  · rw [active, limits]
    exact owned.limited
  · rw [outlines, ledger]
    exact owned.ledger_iff
  · rw [outlines, legacy]
    exact owned.cached

theorem owned_new (serviceInstanceId : PyStr) (nonce : String) (limits : ExecutionLimits) :
    Owned { serviceInstanceId, nonce, limits } := by
  refine ⟨?_, ?_, ?_, ?_, ?_, ?_, ?_, ?_⟩
  · intro i o found
    cases found
  · intro i j o p found
    cases found
  · intro key i
    simp [outlines]
  · intro b i
    simp [outlines, owners]
  · intro i o found
    cases found
  · exact Nat.zero_le _
  · intro key submissionId id
    simp [outlines]
  · intro id member
    cases member

theorem executionId_injective (nonce : String) {m n : Nat}
    (same : executionId nonce m = executionId nonce n) : m = n := by
  unfold executionId at same
  have texts := congrArg PyStr.toString? same
  rw [PyStr.toString?_ofString, PyStr.toString?_ofString, Option.some.injEq] at texts
  have repr : m.repr = n.repr := by
    have points := congrArg String.toList texts
    simp only [String.toList_append] at points
    exact String.toList_inj.mp (List.append_cancel_left points)
  have digits : Nat.toDigits 10 m = Nat.toDigits 10 n := by
    rw [← Nat.toList_repr, ← Nat.toList_repr, repr]
  rw [← @Nat.ofDigitChars_ten_toDigits m, digits, Nat.ofDigitChars_ten_toDigits]

section Tables
variable {r : Registry}

variable {i : Nat}

theorem getElem?_outlines : r.outlines[i]? = (r.invocations[i]?).map Invocation.outline :=
  List.getElem?_map

variable {invocation : Invocation}

theorem outline_of (found : r.invocations[i]? = some invocation) :
    r.outlines[i]? = some invocation.outline := by
  rw [getElem?_outlines, found]
  rfl

/-- A change of an invocation that keeps its outline keeps all. -/
theorem outlines_set {after : Invocation} (found : r.invocations[i]? = some invocation)
    (same : after.outline = invocation.outline) :
    (r.invocations.set i after).map Invocation.outline = r.outlines := by
  rw [List.map_set, same]
  apply List.ext_getElem?
  intro j
  rw [List.getElem?_set]
  split
  · next here =>
    subst here
    split
    · exact (outline_of found).symm
    · next outside =>
      have bound := List.getElem?_eq_some_iff.mp (outline_of found)
      exact absurd bound.1 outside
  · rfl

theorem outlines_modify (i : Nat) (f : Invocation → Invocation)
    (same : ∀ invocation, (f invocation).outline = invocation.outline) :
    (r.invocations.modify i f).map Invocation.outline = r.outlines := by
  apply List.ext_getElem?
  intro j
  rw [List.getElem?_map, List.getElem?_modify, getElem?_outlines]
  cases r.invocations[j]? with
  | none => simp
  | some invocation =>
    by_cases here : i = j
    · simp [here, same]
    · simp [here]

theorem owners_modify (b : Nat) (f : Binding → Binding)
    (same : ∀ binding, ((f binding).view.identity, (f binding).active) =
      (binding.view.identity, binding.active)) :
    ((r.bindings.modify b f).map fun binding => (binding.view.identity, binding.active)) = r.owners := by
  apply List.ext_getElem?
  intro j
  unfold owners
  rw [List.getElem?_map, List.getElem?_modify, List.getElem?_map]
  cases r.bindings[j]? with
  | none => simp
  | some binding =>
    by_cases here : b = j
    · simpa [here] using same binding
    · simp [here]

theorem getElem?_concat {A : Type} {items : List A} {last found : A} :
    (items ++ [last])[i]? = some found ↔
      items[i]? = some found ∨ i = items.length ∧ found = last := by
  rw [List.getElem?_append]
  split
  · next inside =>
    constructor
    · exact Or.inl
    · intro either
      rcases either with old | new
      · exact old
      · omega
  · next outside =>
    rw [List.getElem?_eq_none (Nat.not_lt.mp outside)]
    by_cases atEnd : i = items.length
    · subst atEnd
      simp [eq_comm]
    · rw [List.getElem?_eq_none (by rw [List.length_singleton]; omega)]
      simp [atEnd]

theorem getElem?_set_some {A : Type} {items : List A} {new found : A} {j : Nat} :
    (items.set i new)[j]? = some found ↔
      (j = i ∧ i < items.length ∧ found = new) ∨ (j ≠ i ∧ items[j]? = some found) := by
  rw [List.getElem?_set]
  by_cases here : i = j
  · subst here
    by_cases inside : i < items.length
    · simp [inside, eq_comm]
    · simp [inside]
  · simp [here, Ne.symm here]

theorem publish_of (found : r.invocations[i]? = some invocation) (state : ExecutionState) :
    r.publish i state =
      { r with
        invocations := r.invocations.set i { invocation with record := { invocation.record with state } }
        records := r.records.set state.executionId { invocation.record with state }
        bindings := r.bindings.modify invocation.binding fun binding =>
          { binding with view := binding.view.updated state }
        updates := r.updates ++ [state] } := by
  unfold publish
  rw [found]

/-- An update that does not end an execution changes no owner. -/
theorem Owned.publish (owned : Owned r) (found : r.invocations[i]? = some invocation) {state : ExecutionState}
    (sameId : state.executionId = invocation.id) (sameLive : state.live = invocation.live) :
    Owned (r.publish i state) := by
  rw [publish_of found]
  have same : Invocation.outline { invocation with record := { invocation.record with state } } =
      invocation.outline := by
    unfold Invocation.outline Invocation.id Invocation.live
    rw [sameId]
    rw [sameLive]
    rfl
  exact owned.congr (outlines_set found same) (owners_modify _ _ fun _ => rfl) rfl rfl rfl rfl rfl rfl

end Tables

/-! ## A new execution -/

section Accept
variable {r : Registry} {b : Nat} {binding : Binding} {digest : List Sha256.Word}
  {submissionId : Option PyStr}

/-- A session without an active execution, of a binding that takes submissions. -/
theorem Owned.entry (owned : Owned r) (text : PyStr) (found : r.bindings[b]? = some binding)
    (idle : r.active.get? (canonical binding.view.identity) = none)
    (room : r.active.entries.length < r.limits.active)
    (fresh : ∀ id, submissionId = some id →
      r.ledger.get? (canonical binding.view.identity, id) = none) :
    Owned ({ r with sequence := r.sequence + 1 }.entry b binding text digest submissionId) := by
  obtain ⟨numbered, distinct, active_iff, bound_iff, bound, limited, ledger_iff, cached⟩ := owned
  let id := executionId r.nonce (r.sequence + 1)
  let o : Outline := ⟨id, binding.view.identity, submissionId, b, true⟩
  have length : r.outlines.length = r.invocations.length := List.length_map _
  have owner : r.owners[b]? = some (binding.view.identity, binding.active) := by
    unfold owners
    rw [List.getElem?_map, found]
    rfl
  have inside : b < r.owners.length := (List.getElem?_eq_some_iff.mp owner).1
  have outlines_eq : ({ r with sequence := r.sequence + 1 }.entry b binding text digest
      submissionId).outlines = r.outlines ++ [o] := by
    unfold outlines Registry.entry
    rw [List.map_append]
    rfl
  have owners_eq : ({ r with sequence := r.sequence + 1 }.entry b binding text digest
      submissionId).owners = r.owners.set b (binding.view.identity, some r.outlines.length) := by
    unfold owners Registry.entry
    rw [List.map_set, length]
  have newId : ∀ (i : Nat) (p : Outline), r.outlines[i]? = some p → p.id ≠ id := by
    intro i p known same
    obtain ⟨n, small, named⟩ := numbered i p known
    have := executionId_injective r.nonce (named.symm.trans same)
    omega
  -- No invocation of the session is active, so none of the binding is.
  have noneActive : ∀ (i : Nat) (p : Outline), r.outlines[i]? = some p → p.live = true →
      p.key ≠ canonical binding.view.identity := by
    intro i p known live same
    have active := (active_iff p.key i).mpr ⟨p, known, rfl, live⟩
    rw [same, idle] at active
    cases active
  have noneBound : ∀ (i : Nat) (p : Outline), r.outlines[i]? = some p → p.live = true →
      p.binding ≠ b := by
    intro i p known live same
    obtain ⟨active, owns⟩ := bound i p known
    rw [same, owner, Option.some.injEq, Prod.mk.injEq] at owns
    exact noneActive i p known live (congrArg canonical owns.1.symm)
  refine ⟨?_, ?_, ?_, ?_, ?_, ?_, ?_, ?_⟩
  · intro i p known
    rw [outlines_eq, getElem?_concat] at known
    rcases known with old | ⟨_, rfl⟩
    · obtain ⟨n, small, named⟩ := numbered i p old
      exact ⟨n, Nat.le_succ_of_le small, named⟩
    · exact ⟨r.sequence + 1, Nat.le_refl _, rfl⟩
  · intro i j p q first second same
    rw [outlines_eq, getElem?_concat] at first second
    rcases first with first | ⟨atEnd, rfl⟩
    · rcases second with second | ⟨_, rfl⟩
      · exact distinct i j p q first second same
      · exact absurd same (newId i p first)
    · rcases second with second | ⟨alsoEnd, rfl⟩
      · exact absurd same.symm (newId j q second)
      · omega
  · intro key i
    have table : ({ r with sequence := r.sequence + 1 }.entry b binding text digest
        submissionId).active = r.active.set (canonical binding.view.identity) r.outlines.length := by
      rw [length]
      rfl
    rw [table, outlines_eq, Dict.get?_set]
    split
    · next here =>
      subst here
      constructor
      · intro same
        cases same
        exact ⟨o, getElem?_concat.mpr (.inr ⟨rfl, rfl⟩), rfl, rfl⟩
      · rintro ⟨p, known, key, live⟩
        rcases getElem?_concat.mp known with old | ⟨atEnd, _⟩
        · exact absurd key (noneActive i p old live)
        · rw [atEnd]
    · next other =>
      rw [active_iff]
      constructor
      · rintro ⟨p, known, key, live⟩
        exact ⟨p, getElem?_concat.mpr (.inl known), key, live⟩
      · rintro ⟨p, known, key, live⟩
        rcases getElem?_concat.mp known with old | ⟨_, rfl⟩
        · exact ⟨p, old, key, live⟩
        · exact absurd key.symm other
  · intro c i
    rw [owners_eq, outlines_eq]
    constructor
    · rintro ⟨identity, owns⟩
      rcases getElem?_set_some.mp owns with ⟨here, _, same⟩ | ⟨_, old⟩
      · cases same
        exact ⟨o, getElem?_concat.mpr (.inr ⟨rfl, rfl⟩), here.symm, rfl⟩
      · obtain ⟨p, known, atBinding, live⟩ := (bound_iff c i).mp ⟨identity, old⟩
        exact ⟨p, getElem?_concat.mpr (.inl known), atBinding, live⟩
    · rintro ⟨p, known, atBinding, live⟩
      rcases getElem?_concat.mp known with old | ⟨atEnd, rfl⟩
      · have elsewhere : c ≠ b := fun same => noneBound i p old live (atBinding.trans same)
        obtain ⟨identity, owns⟩ := (bound_iff c i).mpr ⟨p, old, atBinding, live⟩
        exact ⟨identity, getElem?_set_some.mpr (.inr ⟨elsewhere, owns⟩)⟩
      · exact ⟨binding.view.identity, getElem?_set_some.mpr (.inl ⟨atBinding.symm, inside, by rw [atEnd]⟩)⟩
  · intro i p known
    rw [owners_eq]
    rw [outlines_eq] at known
    rcases getElem?_concat.mp known with old | ⟨_, rfl⟩
    · obtain ⟨active, owns⟩ := bound i p old
      by_cases here : p.binding = b
      · rw [here, owner, Option.some.injEq, Prod.mk.injEq] at owns
        refine ⟨some r.outlines.length, getElem?_set_some.mpr (.inl ⟨here, inside, ?_⟩)⟩
        rw [owns.1]
      · exact ⟨active, getElem?_set_some.mpr (.inr ⟨here, owns⟩)⟩
    · exact ⟨some r.outlines.length, getElem?_set_some.mpr (.inl ⟨rfl, inside, rfl⟩)⟩
  · have absent : canonical binding.view.identity ∉ r.active.keys := Dict.get?_eq_none.mp idle
    have size := Dict.entries_set_of_not_mem absent r.invocations.length
    have count : (r.active.set (canonical binding.view.identity) r.invocations.length).entries.length =
        r.active.entries.length + 1 := by
      rw [size, List.length_append, List.length_singleton]
    have bounded : (r.active.set (canonical binding.view.identity)
        r.invocations.length).entries.length ≤ r.limits.active := by omega
    exact bounded
  · intro key sid other
    rw [outlines_eq]
    cases submissionId with
    | none =>
      have table : ({ r with sequence := r.sequence + 1 }.entry b binding text digest none).ledger =
          r.ledger := rfl
      rw [table, ledger_iff]
      constructor
      · rintro ⟨i, p, known, rest⟩
        exact ⟨i, p, getElem?_concat.mpr (.inl known), rest⟩
      · rintro ⟨i, p, known, named, keyed, submitted⟩
        rcases getElem?_concat.mp known with old | ⟨_, rfl⟩
        · exact ⟨i, p, old, named, keyed, submitted⟩
        · cases submitted
    | some submission =>
      have table : ({ r with sequence := r.sequence + 1 }.entry b binding text digest
          (some submission)).ledger =
            r.ledger.set (canonical binding.view.identity, submission) (digest, id) := rfl
      rw [table, Dict.get?_set]
      have before := ledger_iff key sid other
      split
      · next here =>
        rw [Prod.mk.injEq] at here
        obtain ⟨rfl, rfl⟩ := here
        constructor
        · rintro ⟨_, same⟩
          cases same
          exact ⟨_, o, getElem?_concat.mpr (.inr ⟨rfl, rfl⟩), rfl, rfl, rfl⟩
        · rintro ⟨i, p, known, named, keyed, submitted⟩
          rcases getElem?_concat.mp known with old | ⟨_, rfl⟩
          · obtain ⟨_, there⟩ := before.mpr ⟨i, p, old, named, keyed, submitted⟩
            rw [fresh sid rfl] at there
            cases there
          · exact ⟨digest, by rw [← named]⟩
      · next elsewhere =>
        rw [before]
        constructor
        · rintro ⟨i, p, known, rest⟩
          exact ⟨i, p, getElem?_concat.mpr (.inl known), rest⟩
        · rintro ⟨i, p, known, named, keyed, submitted⟩
          rcases getElem?_concat.mp known with old | ⟨_, rfl⟩
          · exact ⟨i, p, old, named, keyed, submitted⟩
          · cases submitted
            exact absurd (by rw [← keyed]; rfl) elsewhere
  · intro other member
    obtain ⟨i, p, known, rest⟩ := cached other member
    rw [outlines_eq]
    exact ⟨i, p, getElem?_concat.mpr (.inl known), rest⟩

end Accept

/-! ## The end of an execution -/

section Settle
variable {r s : Registry}

variable {i : Nat} {invocation : Invocation}

theorem Owned.settled (owned : Owned r) (found : r.invocations[i]? = some invocation)
    (live : invocation.live = true)
    (outlines : s.outlines = r.outlines.set i { invocation.outline with live := false })
    (owners : s.owners = r.owners.set invocation.binding (invocation.record.identity, none))
    (active : s.active = r.active.pop invocation.record.key) (ledger : s.ledger = r.ledger)
    (legacy : s.legacy = r.legacy) (sequence : s.sequence = r.sequence) (nonce : s.nonce = r.nonce)
    (limits : s.limits = r.limits) : Owned s := by
  obtain ⟨numbered, distinct, active_iff, bound_iff, bound, limited, ledger_iff, cached⟩ := owned
  have mine := outline_of found
  have inside : i < r.outlines.length := (List.getElem?_eq_some_iff.mp mine).1
  obtain ⟨owned, owner⟩ := bound i _ mine
  have insideOwners : invocation.binding < r.owners.length := (List.getElem?_eq_some_iff.mp owner).1
  -- Every outline was there before, with the same name and owner.
  have before : ∀ (j : Nat) (p : Outline), s.outlines[j]? = some p →
      ∃ q, r.outlines[j]? = some q ∧ q.id = p.id ∧ q.identity = p.identity ∧
        q.submissionId = p.submissionId ∧ q.binding = p.binding ∧
        (p.live = true ↔ q.live = true ∧ j ≠ i) := by
    intro j p known
    rw [outlines] at known
    rcases getElem?_set_some.mp known with ⟨here, _, rfl⟩ | ⟨elsewhere, old⟩
    · subst here
      exact ⟨_, mine, rfl, rfl, rfl, rfl, by simp⟩
    · exact ⟨p, old, rfl, rfl, rfl, rfl, by simp [elsewhere]⟩
  have afterwards : ∀ (j : Nat) (q : Outline), r.outlines[j]? = some q →
      ∃ p, s.outlines[j]? = some p ∧ q.id = p.id ∧ q.identity = p.identity ∧
        q.submissionId = p.submissionId ∧ q.binding = p.binding ∧
        (p.live = true ↔ q.live = true ∧ j ≠ i) := by
    intro j q known
    rw [outlines]
    by_cases here : j = i
    · subst here
      rw [mine, Option.some.injEq] at known
      subst known
      exact ⟨_, getElem?_set_some.mpr (.inl ⟨rfl, inside, rfl⟩), rfl, rfl, rfl, rfl, by simp⟩
    · exact ⟨q, getElem?_set_some.mpr (.inr ⟨here, known⟩), rfl, rfl, rfl, rfl, by simp [here]⟩
  -- The invocation is the active one of its session and of its binding.
  have activeHere : ∀ j, r.active.get? invocation.record.key = some j ↔ j = i := by
    intro j
    have this := (active_iff invocation.record.key i).mpr ⟨_, mine, rfl, live⟩
    rw [this]
    simp [eq_comm]
  have boundHere : owned = some i := by
    obtain ⟨identity, owns⟩ := (bound_iff invocation.binding i).mpr ⟨_, mine, rfl, live⟩
    rw [show (invocation.outline.binding) = invocation.binding from rfl] at owner
    rw [owner, Option.some.injEq, Prod.mk.injEq] at owns
    exact owns.2
  refine ⟨?_, ?_, ?_, ?_, ?_, ?_, ?_, ?_⟩
  · intro j p known
    obtain ⟨q, old, named, _⟩ := before j p known
    rw [sequence, nonce, ← named]
    exact numbered j q old
  · intro j k p q first second same
    obtain ⟨p', firstOld, firstNamed, _⟩ := before j p first
    obtain ⟨q', secondOld, secondNamed, _⟩ := before k q second
    exact distinct j k p' q' firstOld secondOld (by rw [firstNamed, secondNamed, same])
  · intro key j
    rw [active]
    constructor
    · intro table
      by_cases here : key = invocation.record.key
      · rw [here, Dict.get?_pop_self] at table
        cases table
      · rw [Dict.get?_pop_of_ne _ here] at table
        obtain ⟨q, old, keyed, isLive⟩ := (active_iff key j).mp table
        obtain ⟨p, known, _, identity, _, _, liveness⟩ := afterwards j q old
        refine ⟨p, known, ?_, liveness.mpr ⟨isLive, ?_⟩⟩
        · rw [← keyed]
          exact congrArg canonical identity.symm
        · intro same
          subst same
          rw [mine, Option.some.injEq] at old
          rw [← old] at keyed
          exact here keyed.symm
    · intro ⟨p, known, keyed, isLive⟩
      obtain ⟨q, old, _, identity, _, _, liveness⟩ := before j p known
      obtain ⟨wasLive, elsewhere⟩ := liveness.mp isLive
      have oldKey : q.key = key := (congrArg canonical identity).trans keyed
      have table := (active_iff key j).mpr ⟨q, old, oldKey, wasLive⟩
      have other : key ≠ invocation.record.key := by
        intro same
        rw [same, activeHere] at table
        exact elsewhere table
      rw [Dict.get?_pop_of_ne _ other]
      exact table
  · intro b j
    rw [owners]
    constructor
    · intro ⟨identity, owns⟩
      rcases getElem?_set_some.mp owns with ⟨_, _, same⟩ | ⟨elsewhere, old⟩
      · cases same
      · obtain ⟨q, known, atBinding, isLive⟩ := (bound_iff b j).mp ⟨identity, old⟩
        obtain ⟨p, after, _, _, _, binding, liveness⟩ := afterwards j q known
        refine ⟨p, after, binding.symm.trans atBinding, liveness.mpr ⟨isLive, ?_⟩⟩
        intro same
        subst same
        rw [mine, Option.some.injEq] at known
        rw [← known] at atBinding
        exact elsewhere atBinding.symm
    · intro ⟨p, known, atBinding, isLive⟩
      obtain ⟨q, old, _, _, _, binding, liveness⟩ := before j p known
      obtain ⟨wasLive, elsewhere⟩ := liveness.mp isLive
      obtain ⟨identity, owns⟩ := (bound_iff b j).mpr ⟨q, old, binding.trans atBinding, wasLive⟩
      refine ⟨identity, getElem?_set_some.mpr (.inr ⟨?_, owns⟩)⟩
      intro same
      rw [same] at owns
      rw [show (invocation.outline.binding) = invocation.binding from rfl] at owner
      rw [owner, boundHere, Option.some.injEq, Prod.mk.injEq, Option.some.injEq] at owns
      exact elsewhere owns.2.symm
  · intro j p known
    obtain ⟨q, old, _, identity, _, binding, _⟩ := before j p known
    obtain ⟨held, owns⟩ := bound j q old
    rw [owners, ← binding, ← identity]
    by_cases here : q.binding = invocation.binding
    · rw [here] at owns ⊢
      rw [show (invocation.outline.binding) = invocation.binding from rfl] at owner
      rw [owner, Option.some.injEq, Prod.mk.injEq] at owns
      refine ⟨none, getElem?_set_some.mpr (.inl ⟨rfl, insideOwners, ?_⟩)⟩
      rw [← owns.1]
      rfl
    · exact ⟨held, getElem?_set_some.mpr (.inr ⟨here, owns⟩)⟩
  · rw [active, limits]
    have fewer : (r.active.pop invocation.record.key).entries.length ≤ r.active.entries.length :=
      List.length_filter_le _ _
    omega
  · intro key submissionId id
    rw [ledger, ledger_iff]
    constructor
    · intro ⟨j, q, old, named, keyed, submitted⟩
      obtain ⟨p, known, sameId, identity, submission, _⟩ := afterwards j q old
      exact ⟨j, p, known, sameId.symm.trans named, (congrArg canonical identity).symm.trans keyed,
        submission.symm.trans submitted⟩
    · intro ⟨j, p, known, named, keyed, submitted⟩
      obtain ⟨q, old, sameId, identity, submission, _⟩ := before j p known
      exact ⟨j, q, old, sameId.trans named, (congrArg canonical identity).trans keyed,
        submission.trans submitted⟩
  · intro id member
    rw [legacy] at member
    obtain ⟨j, q, known, named, unsubmitted, dead⟩ := cached id member
    obtain ⟨p, after, sameId, _, submission, _, liveness⟩ := afterwards j q known
    refine ⟨j, p, after, sameId.symm.trans named, submission.symm.trans unsubmitted, ?_⟩
    rw [← Bool.not_eq_true, liveness, dead]
    simp

/-- What is taken off the cache was in it. -/
theorem mem_keys_popAll {V W : Type} {table : Dict PyStr V} {gone : List (PyStr × W)} {id : PyStr}
    (member : id ∈ (gone.foldl (fun table entry => table.pop entry.1) table).keys) :
    id ∈ table.keys ∧ id ∉ gone.map Prod.fst := by
  induction gone generalizing table with
  | nil => exact ⟨member, List.not_mem_nil⟩
  | cons entry rest ih =>
    obtain ⟨inPopped, notLater⟩ := ih member
    obtain ⟨kept, inside, rfl⟩ := List.mem_map.mp inPopped
    obtain ⟨old, other⟩ := Dict.mem_entries_pop.mp inside
    refine ⟨List.mem_map_of_mem old, ?_⟩
    rw [List.map_cons, List.mem_cons, not_or]
    exact ⟨other, notLater⟩

theorem Owned.expireLegacy (owned : Owned r) (now : Rat) : Owned (r.expireLegacy now) := by
  obtain ⟨numbered, distinct, active_iff, bound_iff, bound, limited, ledger_iff, cached⟩ := owned
  refine ⟨numbered, distinct, active_iff, bound_iff, bound, limited, ledger_iff, ?_⟩
  intro id member
  exact cached id (mem_keys_popAll member).1

theorem owners_quiet (invocation : Invocation) : (r.quiet invocation).owners = r.owners := by
  apply owners_modify
  intro binding
  split <;> rfl

theorem owners_publish (i : Nat) (state : ExecutionState) : (r.publish i state).owners = r.owners := by
  unfold publish
  split
  · rfl
  · exact owners_modify _ _ fun _ => rfl

theorem owners_release {invocation : Invocation} {active : Option Nat}
    (owner : r.owners[invocation.binding]? = some (invocation.record.identity, active)) :
    (r.release invocation).owners =
      r.owners.set invocation.binding (invocation.record.identity, none) := by
  apply List.ext_getElem?
  intro b
  unfold owners at owner ⊢
  unfold release
  rw [List.getElem?_map, List.getElem?_modify, List.getElem?_set, List.getElem?_map]
  rw [List.getElem?_map] at owner
  by_cases here : invocation.binding = b
  · subst here
    obtain ⟨binding, found, same⟩ := Option.map_eq_some_iff.mp owner
    have inside := (List.getElem?_eq_some_iff.mp found).1
    rw [Prod.mk.injEq] at same
    rw [found]
    simp [inside, same.1]
  · simp [here]

theorem outlines_publish_finished (found : r.invocations[i]? = some invocation) (outcome : ExecutionOutcome) :
    (r.publish i (invocation.record.state.finished outcome)).outlines =
      r.outlines.set i { invocation.outline with live := false } := by
  have ended : (invocation.record.state.finished outcome).live = false := by
    unfold ExecutionState.live
    rw [show (invocation.record.state.finished outcome).status = outcome.status from rfl,
      outcome.terminal]
    rfl
  rw [publish_of found]
  unfold outlines
  rw [List.map_set]
  congr 1
  unfold Invocation.outline Invocation.live
  rw [ended]
  rfl

/-- An execution that has given up its session and binding. -/
theorem Owned.released (owned : Owned r) (found : r.invocations[i]? = some invocation)
    (live : invocation.live = true) (outcome : ExecutionOutcome) :
    Owned (((r.quiet invocation).publish i (invocation.record.state.finished outcome)).release
      invocation) := by
  obtain ⟨held, owner⟩ := owned.bound i _ (outline_of found)
  have quietFound : (r.quiet invocation).invocations[i]? = some invocation := found
  have outlines := outlines_publish_finished quietFound outcome
  have publishedOwners := @owners_publish (r.quiet invocation) i (invocation.record.state.finished outcome)
  rw [owners_quiet] at publishedOwners
  have releasedOwners := @owners_release
    ((r.quiet invocation).publish i (invocation.record.state.finished outcome)) invocation held
    (by rw [publishedOwners]; exact owner)
  rw [publishedOwners] at releasedOwners
  rw [publish_of quietFound] at outlines releasedOwners ⊢
  exact owned.settled found live outlines releasedOwners rfl rfl rfl rfl rfl rfl

theorem Owned.remember (owned : Owned r) {o : Outline} (found : r.outlines[i]? = some o)
    (unsubmitted : o.submissionId = none) (dead : o.live = false) (deadline : Rat) :
    Owned { r with legacy := r.legacy.set o.id deadline } := by
  obtain ⟨numbered, distinct, active_iff, bound_iff, bound, limited, ledger_iff, cached⟩ := owned
  refine ⟨numbered, distinct, active_iff, bound_iff, bound, limited, ledger_iff, ?_⟩
  intro id member
  rcases Dict.mem_keys_set.mp member with rfl | old
  · exact ⟨i, o, found, rfl, unsubmitted, dead⟩
  · exact cached id old

end Settle

end Registry

end Loushang.AppService
