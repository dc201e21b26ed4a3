import Loushang.AppServer.Capacity
import Mathlib.Data.List.Perm.Subperm
import Mathlib.Data.List.Nodup

/-!
# What every order of the connection's events keeps

The client's counts are its waiting and pending calls, the server's its tasks. What is on its
way, from the registration of a call to the response the client has not read, is pending and
so fits the client's caps.
-/
namespace Loushang.AppServer
open Loushang.Lib

variable {R : Type} {fits : Call → R → Bool}

/-- How many calls are in a lane. -/
abbrev inLane (lane : Lane) (entries : List (String × Call)) : Nat :=
  entries.countP fun entry => clientLane entry.2 = lane

/-- A registered call whose request is not on the channel yet. -/
def State.undelivered (s : State R) : List (String × Call) :=
  match s.client.sending with
  | some ⟨requestId, call, false⟩ => [(requestId, call)]
  | _ => []

/-- Calls without a response so far. -/
def State.awaiting (s : State R) : List (String × Call) :=
  s.undelivered ++ s.requests ++ s.server.executing ++ s.server.answered.map Prod.fst

/-- The task whose `send` has not returned. -/
def Server.writing (server : Server R) : List (String × Call) :=
  match server.writer with
  | some (.task requestId call) => [(requestId, call)]
  | _ => []

def State.responseIds (s : State R) : List String := s.responses.map Response.requestId

/-- The task whose `send` has not returned, while the client has not read its response. -/
def State.unread (s : State R) : List (String × Call) :=
  s.server.writing.filter fun entry => entry.1 ∈ s.responseIds

/-- The client's slots and pending requests. -/
structure Ledger (c : Client R) : Prop where
  counts : ∀ lane, c.counts.get lane =
    (c.queued.countP (fun call => clientLane call = lane) + inLane lane c.pending : Nat)
  caps : ∀ lane, c.counts.get lane ≤ (lane.maximum : Int)
  pendingOnce : (c.pending.map Prod.fst).Nodup
  resolvedOnce : (c.resolved.map Prod.fst).Nodup
  apart : ∀ id ∈ c.pending.map Prod.fst, id ∉ c.resolved.map Prod.fst
  known : ∀ id ∈ c.pending.map Prod.fst ++ c.resolved.map Prod.fst,
    ∃ n ≤ c.nextId, id = requestIdOf n
  delivers : c.misdelivered = false

/-- What is on its way between the peers. -/
structure Flight (fits : Call → R → Bool) (s : State R) : Prop where
  awaited : s.client.closed = false → ∀ entry ∈ s.awaiting, entry ∈ s.client.pending
  answerable : s.client.closed = false → ∀ response ∈ s.responses,
    ∃ call, (response.requestId, call) ∈ s.client.pending ∧ call.family = response.family ∧
      response.outcome.accepted fits call = true
  unread : s.client.closed = false → ∀ entry ∈ s.unread, entry ∈ s.client.pending
  once : (s.awaiting.map Prod.fst ++ s.responseIds).Nodup
  bound : ∀ lane, inLane lane s.awaiting + inLane lane s.unread ≤ lane.maximum

/-- The numbers of the requests on their way to the server increase from its last one. -/
structure Ordered (s : State R) : Prop where
  last : s.server.lastId ≤ s.client.nextId
  numbers : ∃ numbers : List Nat,
    (s.requests ++ s.undelivered).map Prod.fst = numbers.map requestIdOf ∧
      numbers.Pairwise (· < ·) ∧
      ∀ n ∈ numbers, s.server.lastId < n ∧ n ≤ s.client.nextId ∧ n ≤ maxRequestNumber

/-- The server's slots, and what it never does. -/
structure Served (fits : Call → R → Bool) (server : Server R) : Prop where
  counts : ∀ lane, server.counts.get lane =
    (inLane lane server.executing + inLane lane (server.answered.map Prod.fst) +
      inLane lane server.writing : Nat)
  accepted : ∀ entry ∈ server.answered, entry.2.accepted fits entry.1.2 = true
  refusing : server.refusing = none
  writer : ∀ id, server.writer ≠ some (.refusal id)
  refused : server.refused = []
  rejected : server.rejected = false

/-- Every outcome on its way or delivered is the one the service call had. -/
structure Faithful (s : State R) : Prop where
  answered : ∀ entry ∈ s.server.answered, (entry.1.1, entry.2) ∈ s.server.completed
  responses : ∀ response ∈ s.responses,
    (response.requestId, response.outcome) ∈ s.server.completed
  resolved : ∀ id outcome, (id, Resolution.answered outcome) ∈ s.client.resolved →
    (id, outcome) ∈ s.server.completed

structure Inv (fits : Call → R → Bool) (s : State R) : Prop where
  ledger : Ledger s.client
  flight : Flight fits s
  ordered : Ordered s
  served : Served fits s.server
  faithful : Faithful s

theorem inv_start : Inv fits (State.start : State R) where
  ledger := by
    refine ⟨?_, ?_, List.nodup_nil, List.nodup_nil, by simp [State.start], by simp [State.start], rfl⟩
    · intro lane
      cases lane <;> rfl
    · intro lane
      cases lane <;> simp [State.start, Counts.get, Lane.maximum]
  flight := ⟨fun _ => List.forall_mem_nil _, fun _ => List.forall_mem_nil _, fun _ => List.forall_mem_nil _,
    List.nodup_nil, fun _ => Nat.zero_le _⟩
  ordered := ⟨Nat.le_refl _, [], rfl, List.Pairwise.nil, List.forall_mem_nil _⟩
  served := by
    refine ⟨?_, by simp [State.start], rfl, by simp [State.start], rfl, rfl⟩
    intro lane
    cases lane <;> rfl
  faithful := ⟨List.forall_mem_nil _, List.forall_mem_nil _, by simp [State.start]⟩

theorem perm_eraseIdx {T : Type} {items : List T} {i : Nat} {item : T}
    (found : items[i]? = some item) : items.Perm (item :: items.eraseIdx i) := by
  obtain ⟨inside, same⟩ := List.getElem?_eq_some_iff.mp found
  rw [← same]
  exact (List.getElem_cons_eraseIdx_perm inside).symm

/-! ## The client's ledger -/

section

variable {c : Client R}

theorem get_foldl_release (pending : List (String × Call)) (counts : Counts) (lane : Lane) :
    (pending.foldl (fun counts entry => counts.add (clientLane entry.2) (-1)) counts).get lane =
      counts.get lane - inLane lane pending := by
  induction pending generalizing counts with
  | nil => simp [inLane]
  | cons entry rest ih =>
    rw [List.foldl_cons, ih, Counts.get_add, inLane, inLane, List.countP_cons]
    by_cases same : clientLane entry.2 = lane
    · simp only [same, if_true, decide_true]
      omega
    · simp only [same, if_false, decide_false, Bool.false_eq_true]
      omega

theorem ledger_failPending (ledger : Ledger c) : Ledger c.failPending where
  counts := by
    intro lane
    have counts := ledger.counts lane
    simp only [Client.failPending, get_foldl_release, counts]
    simp only [inLane, List.countP_nil]
    omega
  caps := by
    intro lane
    have counts := ledger.caps lane
    simp only [Client.failPending, get_foldl_release]
    omega
  pendingOnce := List.nodup_nil
  resolvedOnce := by
    simp only [Client.failPending, List.map_append, List.map_map]
    rw [List.nodup_append]
    refine ⟨ledger.resolvedOnce, ledger.pendingOnce, ?_⟩
    intro id resolved other pending same
    exact ledger.apart other pending (same ▸ resolved)
  apart := nofun
  known := by
    intro id member
    apply ledger.known id
    simp only [Client.failPending, List.map_append, List.map_map, List.map_nil, List.nil_append,
      List.mem_append] at member ⊢
    exact member.symm
  delivers := ledger.delivers

theorem ledger_submit (ledger : Ledger c) (call : Call) : Ledger (c.submit call) := by
  unfold Client.submit
  split
  · exact ledger
  · split
    · exact ledger
    · next room =>
      refine ⟨?_, ?_, ledger.pendingOnce, ledger.resolvedOnce, ledger.apart, ledger.known,
        ledger.delivers⟩
      · intro lane
        have counts := ledger.counts lane
        simp only [Counts.get_add, List.countP_append, List.countP_cons, List.countP_nil, counts]
        by_cases same : clientLane call = lane
        · simp only [same, if_true, decide_true]
          omega
        · simp only [same, if_false, decide_false, Bool.false_eq_true]
          omega
      · intro lane
        have caps := ledger.caps lane
        simp only [Counts.get_add]
        by_cases same : clientLane call = lane
        · simp only [same, if_true] at room ⊢
          omega
        · simp only [same, if_false]
          omega

variable {call : Call} {rest : List Call}

/-- A caller that waits for the send lock gives its slot back. -/
theorem ledger_unqueue (ledger : Ledger c) {nextId : Nat} (queued : c.queued.Perm (call :: rest))
    (later : c.nextId ≤ nextId) :
    Ledger { c with
      counts := c.counts.add (clientLane call) (-1)
      queued := rest
      nextId := nextId } := by
  refine ⟨?_, ?_, ledger.pendingOnce, ledger.resolvedOnce, ledger.apart, ?_, ledger.delivers⟩
  · intro lane
    have counts := ledger.counts lane
    rw [queued.countP_eq] at counts
    simp only [Counts.get_add, counts, List.countP_cons]
    by_cases same : clientLane call = lane
    · simp only [same, if_true, decide_true]
      omega
    · simp only [same, if_false, decide_false, Bool.false_eq_true]
      omega
  · intro lane
    have caps := ledger.caps lane
    simp only [Counts.get_add]
    split <;> omega
  · intro id member
    obtain ⟨n, bound, same⟩ := ledger.known id member
    exact ⟨n, Nat.le_trans bound later, same⟩

variable {id : String}

/-- No pending or completed request has a number still to come. -/
theorem Ledger.fresh (ledger : Ledger c) (member : id ∈ c.pending.map Prod.fst ++ c.resolved.map Prod.fst) :
    id ≠ requestIdOf (c.nextId + 1) := by
  obtain ⟨n, bound, same⟩ := ledger.known id member
  intro equal
  have numbers := requestIdOf_injective (same.symm.trans equal)
  omega

/-- A registered call keeps its slot. -/
theorem ledger_register (ledger : Ledger c) (queued : c.queued = call :: rest) (sending : Option Sending) :
    Ledger { c with
      queued := rest
      nextId := c.nextId + 1
      pending := c.pending ++ [(requestIdOf (c.nextId + 1), call)]
      sending := sending } := by
  refine ⟨?_, ledger.caps, ?_, ledger.resolvedOnce, ?_, ?_, ledger.delivers⟩
  · intro lane
    have counts := ledger.counts lane
    rw [queued, List.countP_cons] at counts
    simp only [inLane, List.countP_append, List.countP_cons, List.countP_nil] at counts ⊢
    omega
  · rw [List.map_append, List.nodup_append]
    refine ⟨ledger.pendingOnce, List.nodup_singleton _, ?_⟩
    intro id pending other new
    rw [List.mem_singleton.mp new]
    exact ledger.fresh (List.mem_append_left _ pending)
  · intro id member resolved
    rw [List.map_append, List.mem_append] at member
    rcases member with pending | new
    · exact ledger.apart id pending resolved
    · rw [List.mem_singleton.mp new] at resolved
      exact ledger.fresh (List.mem_append_right _ resolved) rfl
  · intro id member
    simp only [List.map_append, List.mem_append] at member
    rcases member with (pending | new) | resolved
    · obtain ⟨n, bound, same⟩ := ledger.known id (List.mem_append_left _ pending)
      exact ⟨n, Nat.le_succ_of_le bound, same⟩
    · exact ⟨c.nextId + 1, Nat.le_refl _, List.mem_singleton.mp new⟩
    · obtain ⟨n, bound, same⟩ := ledger.known id (List.mem_append_right _ resolved)
      exact ⟨n, Nat.le_succ_of_le bound, same⟩

/-- The entry of a key that occurs once, and the rest. -/
theorem perm_filter_key {entries : List (String × Call)} (once : (entries.map Prod.fst).Nodup)
    (member : (id, call) ∈ entries) :
    entries.Perm ((id, call) :: entries.filter fun entry => entry.1 ≠ id) := by
  induction entries with
  | nil => cases member
  | cons entry rest ih =>
    rw [List.map_cons, List.nodup_cons] at once
    rcases List.mem_cons.mp member with same | later
    · subst same
      have kept : rest.filter (fun entry => entry.1 ≠ id) = rest := by
        rw [List.filter_eq_self]
        intro other inside
        simp only [ne_eq, decide_not, Bool.not_eq_true', decide_eq_false_iff_not]
        intro equal
        exact once.1 (List.mem_map.mpr ⟨other, inside, equal⟩)
      rw [List.filter_cons_of_neg (by simp), kept]
    · have different : entry.1 ≠ id := by
        intro equal
        exact once.1 (List.mem_map.mpr ⟨_, later, equal.symm⟩)
      rw [List.filter_cons_of_pos (by simpa using different)]
      exact ((ih once.2 later).cons entry).trans (List.Perm.swap _ _ _)

/-- The client finds the pending request a response answers. -/
theorem receive_eq (ledger : Ledger c) {response : Response R}
    (pending : (response.requestId, call) ∈ c.pending) (family : call.family = response.family)
    (accepted : response.outcome.accepted fits call = true) :
    c.receive fits response =
      { c with
        pending := c.pending.filter fun entry => entry.1 ≠ response.requestId
        counts := c.counts.add (clientLane call) (-1)
        resolved := c.resolved ++ [(response.requestId, .answered response.outcome)] } := by
  have found : c.pending.find? (fun entry => entry.1 = response.requestId) =
      some (response.requestId, call) := by
    cases search : c.pending.find? (fun entry => entry.1 = response.requestId) with
    | none =>
      have missing := List.find?_eq_none.mp search _ pending
      simp at missing
    | some entry =>
      have key : entry.1 = response.requestId := by simpa using List.find?_some search
      have inside := List.mem_of_find?_eq_some search
      have same := List.inj_on_of_nodup_map ledger.pendingOnce inside pending key
      rw [same]
  unfold Client.receive
  rw [found]
  dsimp only
  rw [if_neg]
  simp [family, accepted]

theorem ledger_receive (ledger : Ledger c) {resolution : Resolution R} (pending : (id, call) ∈ c.pending) :
    Ledger { c with
      pending := c.pending.filter fun entry => entry.1 ≠ id
      counts := c.counts.add (clientLane call) (-1)
      resolved := c.resolved ++ [(id, resolution)] } := by
  have split := perm_filter_key ledger.pendingOnce pending
  have key : id ∈ c.pending.map Prod.fst := List.mem_map.mpr ⟨_, pending, rfl⟩
  have kept : ∀ other ∈ (c.pending.filter fun entry => entry.1 ≠ id).map Prod.fst,
      other ∈ c.pending.map Prod.fst ∧ other ≠ id := by
    intro other member
    obtain ⟨entry, inside, same⟩ := List.mem_map.mp member
    rw [List.mem_filter, decide_eq_true_eq] at inside
    subst same
    exact ⟨List.mem_map.mpr ⟨entry, inside.1, rfl⟩, inside.2⟩
  refine ⟨?_, ?_, ?_, ?_, ?_, ?_, ledger.delivers⟩
  · intro lane
    have counts := ledger.counts lane
    rw [inLane, split.countP_eq, List.countP_cons] at counts
    simp only [Counts.get_add, counts, inLane]
    by_cases same : clientLane call = lane
    · simp only [same, if_true, decide_true]
      omega
    · simp only [same, if_false, decide_false, Bool.false_eq_true]
      omega
  · intro lane
    have caps := ledger.caps lane
    simp only [Counts.get_add]
    split <;> omega
  · exact ledger.pendingOnce.sublist (List.filter_sublist.map _)
  · rw [List.map_append, List.nodup_append]
    refine ⟨ledger.resolvedOnce, List.nodup_singleton _, ?_⟩
    intro other resolved new member same
    rw [same, List.mem_singleton.mp member] at resolved
    exact ledger.apart id key resolved
  · intro other member resolved
    rw [List.map_append, List.mem_append] at resolved
    rcases resolved with before | new
    · exact ledger.apart other (kept other member).1 before
    · exact (kept other member).2 (List.mem_singleton.mp new)
  · intro other member
    apply ledger.known
    simp only [List.map_append, List.mem_append] at member ⊢
    rcases member with pending | resolved | new
    · exact Or.inl (kept other pending).1
    · exact Or.inr resolved
    · rw [List.mem_singleton.mp new]
      exact Or.inl key

end

end Loushang.AppServer
