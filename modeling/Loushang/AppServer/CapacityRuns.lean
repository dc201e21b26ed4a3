import Loushang.AppServer.CapacityInvariant
import Loushang.Lib.Lists

/-!
# A client within its caps

A client that submits through its own caps is not refused, as long as the server does not
take a request while a response of the same lane, which the client has read already, still
holds its slot because the `send` that wrote it has not returned.
-/
namespace Loushang.AppServer
open Loushang.Lib

variable {R : Type} {fits : Call → R → Bool} {s : State R}

/-- No slot of the lane of the next request belongs to a response the client has read. -/
def Prompt (s : State R) : Event R → Prop
  | .receiveRequest =>
    ∀ request ∈ s.requests.head?, ∀ entry ∈ s.server.writing,
      clientLane entry.2 = clientLane request.2 → entry.1 ∈ s.responseIds
  | _ => True

instance (s : State R) : ∀ event, Decidable (Prompt s event)
  | .receiveRequest => by
    unfold Prompt
    infer_instance
  | .submit _ | .abandon _ | .register _ | .deliver | .sent | .sendFailed | .receiveResponse
  | .close | .complete _ _ | .write _ | .writeRefusal | .returned | .stop => isTrue trivial

/-- What the two peers promise at a state: no request was answered with an error for want of
capacity or for its id, every response found a pending request of its family that takes it,
there is exactly one for each response on its way, a future completed with an answer has the
one its own service call had, and none was completed twice. -/
structure Safe (fits : Call → R → Bool) (s : State R) : Prop where
  refused : s.server.refused = []
  rejected : s.server.rejected = false
  delivered : s.client.misdelivered = false
  pending : s.client.closed = false → ∀ response ∈ s.responses,
    ∃! entry, entry ∈ s.client.pending ∧ entry.1 = response.requestId
  takes : s.client.closed = false → ∀ response ∈ s.responses, ∀ entry ∈ s.client.pending,
    entry.1 = response.requestId →
      entry.2.family = response.family ∧ response.outcome.accepted fits entry.2 = true
  answers : ∀ id outcome, (id, Resolution.answered outcome) ∈ s.client.resolved →
    (id, outcome) ∈ s.server.completed
  once : (s.client.resolved.map Prod.fst).Nodup

theorem Inv.safe (inv : Inv fits s) : Safe fits s where
  refused := inv.served.refused
  rejected := inv.served.rejected
  delivered := inv.ledger.delivers
  pending := by
    intro opened response member
    obtain ⟨call, pending, -, -⟩ := inv.flight.answerable opened response member
    refine ⟨(response.requestId, call), ⟨pending, rfl⟩, ?_⟩
    intro other ⟨inside, key⟩
    exact List.inj_on_of_nodup_map inv.ledger.pendingOnce inside pending key
  takes := by
    intro opened response member entry inside key
    obtain ⟨call, pending, family, accepted⟩ := inv.flight.answerable opened response member
    have same := List.inj_on_of_nodup_map inv.ledger.pendingOnce inside pending key
    subst same
    exact ⟨family, accepted⟩
  answers := inv.faithful.resolved
  once := inv.ledger.resolvedOnce

/-! ## The client's events -/

theorem inv_ledger (inv : Inv fits s) {counts : Counts} {queued : List Call} {nextId : Nat}
    (ledger : Ledger { s.client with counts := counts, queued := queued, nextId := nextId })
    (later : s.client.nextId ≤ nextId) :
    Inv fits { s with client :=
      { s.client with counts := counts, queued := queued, nextId := nextId } } where
  ledger := ledger
  flight := ⟨inv.flight.awaited, inv.flight.answerable, inv.flight.unread, inv.flight.once,
    inv.flight.bound⟩
  ordered := by
    obtain ⟨numbers, ids, sorted, bounds⟩ := inv.ordered.numbers
    refine ⟨Nat.le_trans inv.ordered.last later, numbers, ids, sorted, ?_⟩
    intro n member
    obtain ⟨above, below, limit⟩ := bounds n member
    exact ⟨above, Nat.le_trans below later, limit⟩
  served := inv.served
  faithful := ⟨inv.faithful.answered, inv.faithful.responses, inv.faithful.resolved⟩

theorem inv_submit (inv : Inv fits s) (call : Call) :
    Inv fits { s with client := s.client.submit call } := by
  have ledger := ledger_submit inv.ledger call
  unfold Client.submit at ledger ⊢
  split at ledger
  · next closed =>
    rw [if_pos closed]
    exact inv
  · next opened =>
    rw [if_neg opened]
    split at ledger
    · next full =>
      rw [if_pos full]
      exact inv
    · next room =>
      rw [if_neg room]
      exact inv_ledger inv ledger (Nat.le_refl _)

variable {i : Nat} {client : Client R}

theorem inv_abandon (inv : Inv fits s) (done : s.client.abandon i = some client) :
    Inv fits { s with client := client } := by
  unfold Client.abandon at done
  split at done
  · cases done
  · next call found =>
    cases done
    exact inv_ledger inv (ledger_unqueue inv.ledger (perm_eraseIdx found) (Nat.le_refl _))
      (Nat.le_refl _)

/-- What is awaited and what is unread are different requests. -/
theorem Flight.live_nodup (flight : Flight fits s) : (s.awaiting ++ s.unread).Nodup := by
  have once := flight.once
  rw [List.nodup_append] at once
  obtain ⟨awaiting, -, apart⟩ := once
  rw [List.nodup_append]
  refine ⟨awaiting.of_map, ?_, ?_⟩
  · unfold State.unread Server.writing
    split
    · exact (List.nodup_singleton _).filter _
    · exact List.nodup_nil
  · intro entry awaited other unread same
    unfold State.unread at unread
    rw [List.mem_filter, decide_eq_true_eq] at unread
    exact apart entry.1 (List.mem_map.mpr ⟨entry, awaited, rfl⟩) other.1 unread.2
      (congrArg Prod.fst same)

/-- While the client is open, what is on its way fits the caps because it is pending. -/
theorem live_le {entries : List (String × Call)} (ledger : Ledger s.client)
    (once : entries.Nodup) (pending : ∀ entry ∈ entries, entry ∈ s.client.pending) (lane : Lane) :
    inLane lane entries ≤ lane.maximum := by
  have fewer : inLane lane entries ≤ inLane lane s.client.pending :=
    (once.subperm pending).countP_le _
  have counts := ledger.counts lane
  have caps := ledger.caps lane
  omega

theorem inv_registered (inv : Inv fits s) (opened : s.client.closed = false)
    (idle : s.client.sending = none) {call : Call} {rest : List Call}
    (queued : s.client.queued = call :: rest) (bounded : s.client.nextId + 1 ≤ maxRequestNumber) :
    Inv fits { s with client := { s.client with
      queued := rest
      nextId := s.client.nextId + 1
      pending := s.client.pending ++ [(requestIdOf (s.client.nextId + 1), call)]
      sending := some ⟨requestIdOf (s.client.nextId + 1), call, false⟩ } } := by
  have ledger := ledger_register inv.ledger queued
    (some ⟨requestIdOf (s.client.nextId + 1), call, false⟩)
  have none : s.undelivered = [] := by
    unfold State.undelivered
    rw [idle]
  have fresh : ∀ entry ∈ s.client.pending, entry.1 ≠ requestIdOf (s.client.nextId + 1) :=
    fun entry pending => inv.ledger.fresh
      (List.mem_append_left _ (List.mem_map.mpr ⟨entry, pending, rfl⟩))
  have awaited : ∀ entry ∈ s.awaiting, entry ∈ s.client.pending := inv.flight.awaited opened
  have unread := inv.flight.unread opened
  generalize registered : ({ s with client := { s.client with
      queued := rest
      nextId := s.client.nextId + 1
      pending := s.client.pending ++ [(requestIdOf (s.client.nextId + 1), call)]
      sending := some ⟨requestIdOf (s.client.nextId + 1), call, false⟩ } } : State R) = s' at *
  have way : s'.awaiting = (requestIdOf (s.client.nextId + 1), call) :: s.awaiting := by
    rw [← registered]
    unfold State.awaiting
    rw [none]
    rfl
  have way' : s'.unread = s.unread := by rw [← registered]; rfl
  have pending : s'.client.pending =
      s.client.pending ++ [(requestIdOf (s.client.nextId + 1), call)] := by rw [← registered]
  have responses : s'.responses = s.responses := by rw [← registered]
  have awaited' : ∀ entry ∈ s'.awaiting, entry ∈ s'.client.pending := by
    intro entry member
    rw [way] at member
    rw [pending, List.mem_append]
    rcases List.mem_cons.mp member with new | before
    · exact Or.inr (List.mem_singleton.mpr new)
    · exact Or.inl (awaited entry before)
  have unread' : ∀ entry ∈ s'.unread, entry ∈ s'.client.pending := by
    intro entry member
    rw [way'] at member
    rw [pending]
    exact List.mem_append_left _ (unread entry member)
  have once : (s'.awaiting.map Prod.fst ++ s'.responseIds).Nodup := by
    unfold State.responseIds
    rw [way, responses, List.map_cons, List.cons_append, List.nodup_cons]
    refine ⟨?_, inv.flight.once⟩
    intro member
    rw [List.mem_append, List.mem_map, List.mem_map] at member
    rcases member with ⟨entry, inside, same⟩ | ⟨response, inside, same⟩
    · exact fresh entry (awaited entry inside) same
    · obtain ⟨other, known, -, -⟩ := inv.flight.answerable opened response inside
      exact fresh _ known same
  have ledger' : Ledger s'.client := by
    rw [← registered]
    exact ledger
  have flight : Flight fits s' := by
    refine ⟨fun _ => awaited', ?_, fun _ => unread', once, ?_⟩
    · intro _ response member
      rw [responses] at member
      obtain ⟨other, known, facts⟩ := inv.flight.answerable opened response member
      rw [pending]
      exact ⟨other, List.mem_append_left _ known, facts⟩
    · intro lane
      rw [inLane, inLane, ← List.countP_append]
      have nodup : (s'.awaiting ++ s'.unread).Nodup := by
        rw [way, way', List.cons_append, List.nodup_cons]
        refine ⟨?_, inv.flight.live_nodup⟩
        intro member
        rcases List.mem_append.mp member with before | before
        · exact fresh _ (awaited _ before) rfl
        · exact fresh _ (unread _ before) rfl
      refine live_le ledger' nodup ?_ lane
      exact List.forall_mem_append.mpr ⟨awaited', unread'⟩
  refine ⟨ledger', flight, ?_, ?_, ?_⟩
  · rw [← registered]
    obtain ⟨numbers, ids, sorted, bounds⟩ := inv.ordered.numbers
    refine ⟨Nat.le_succ_of_le inv.ordered.last, numbers ++ [s.client.nextId + 1], ?_, ?_, ?_⟩
    · rw [none, List.append_nil] at ids
      simp only [State.undelivered, List.map_append, ids, List.map_cons, List.map_nil]
    · rw [List.pairwise_append]
      refine ⟨sorted, List.pairwise_singleton _ _, ?_⟩
      intro n member other new
      rw [List.mem_singleton.mp new]
      exact Nat.lt_succ_of_le (bounds n member).2.1
    · refine forall_mem_snoc (fun n before => ?_) ?_
      · obtain ⟨above, below, limit⟩ := bounds n before
        exact ⟨above, Nat.le_succ_of_le below, limit⟩
      · exact ⟨Nat.lt_succ_of_le inv.ordered.last, Nat.le_refl _, bounded⟩
  · rw [← registered]
    exact inv.served
  · rw [← registered]
    exact ⟨inv.faithful.answered, inv.faithful.responses, inv.faithful.resolved⟩

theorem inv_register (inv : Inv fits s) {encodes : Bool} (done : s.client.register encodes = some client) :
    Inv fits { s with client := client } := by
  unfold Client.register at done
  split at done
  · next call rest idle queued =>
    have waiting : s.client.queued.Perm (call :: rest) := by rw [queued]
    dsimp only at done
    split at done
    · cases done
      exact inv_ledger inv (ledger_unqueue inv.ledger waiting (Nat.le_refl _)) (Nat.le_refl _)
    · next opened =>
      split at done
      · cases done
        exact inv_ledger inv (ledger_unqueue inv.ledger waiting (Nat.le_succ _)) (Nat.le_succ _)
      · next bounded =>
        cases done
        exact inv_registered inv (by simpa using opened) idle queued (by omega)
  · cases done

variable {s' : State R}

/-- The request of the holder of the send lock goes from its hands to the channel. -/
theorem inv_deliver (inv : Inv fits s) (done : s.deliver = some s') : Inv fits s' := by
  unfold State.deliver at done
  split at done
  · next requestId call held =>
    cases done
    have before : s.undelivered = [(requestId, call)] := by
      unfold State.undelivered
      rw [held]
    have way : List.Perm
        (State.awaiting { s with
          client := { s.client with sending := some ⟨requestId, call, true⟩ }
          requests := s.requests ++ [(requestId, call)] }) s.awaiting := by
      unfold State.awaiting
      rw [before]
      simp only [State.undelivered, List.nil_append]
      exact (List.perm_append_comm.append_right _).append_right _
    refine ⟨?_, ⟨?_, inv.flight.answerable, inv.flight.unread, ?_, ?_⟩, ?_, inv.served,
      ⟨inv.faithful.answered, inv.faithful.responses, inv.faithful.resolved⟩⟩
    · obtain ⟨counts, caps, pendingOnce, resolvedOnce, apart, known, delivers⟩ := inv.ledger
      exact ⟨counts, caps, pendingOnce, resolvedOnce, apart, known, delivers⟩
    · intro opened entry member
      exact inv.flight.awaited opened entry (way.mem_iff.mp member)
    · exact ((way.map Prod.fst).append_right _).nodup_iff.mpr inv.flight.once
    · intro lane
      rw [inLane, way.countP_eq]
      exact inv.flight.bound lane
    · obtain ⟨numbers, ids, rest⟩ := inv.ordered.numbers
      refine ⟨inv.ordered.last, numbers, ?_, rest⟩
      rw [before] at ids
      simp only [State.undelivered, List.append_nil]
      exact ids
  · cases done

theorem inv_sent (inv : Inv fits s) (done : s.client.sent = some client) :
    Inv fits { s with client := client } := by
  unfold Client.sent at done
  split at done
  · next requestId call held =>
    cases done
    have before : s.undelivered = [] := by
      unfold State.undelivered
      rw [held]
    have way : State.awaiting { s with client := { s.client with sending := none } } =
        s.awaiting := by
      unfold State.awaiting
      rw [before]
      rfl
    refine ⟨?_, ⟨?_, inv.flight.answerable, inv.flight.unread, ?_, ?_⟩, ?_, inv.served,
      ⟨inv.faithful.answered, inv.faithful.responses, inv.faithful.resolved⟩⟩
    · obtain ⟨counts, caps, pendingOnce, resolvedOnce, apart, known, delivers⟩ := inv.ledger
      exact ⟨counts, caps, pendingOnce, resolvedOnce, apart, known, delivers⟩
    · rw [way]
      exact inv.flight.awaited
    · rw [way]
      exact inv.flight.once
    · rw [way]
      exact inv.flight.bound
    · obtain ⟨numbers, ids, rest⟩ := inv.ordered.numbers
      refine ⟨inv.ordered.last, numbers, ?_, rest⟩
      rw [before] at ids
      exact ids
  · cases done

/-- Closing the client ends its pending requests; what is on its way runs out. -/
theorem inv_failPending (inv : Inv fits s) :
    Inv fits { s with client := s.client.failPending } where
  ledger := ledger_failPending inv.ledger
  flight := ⟨nofun, nofun, nofun, inv.flight.once, inv.flight.bound⟩
  ordered := ⟨inv.ordered.last, inv.ordered.numbers⟩
  served := inv.served
  faithful := by
    refine ⟨inv.faithful.answered, inv.faithful.responses, ?_⟩
    intro id outcome member
    simp only [Client.failPending, List.mem_append, List.mem_map] at member
    rcases member with before | ⟨entry, -, closed⟩
    · exact inv.faithful.resolved id outcome before
    · cases closed

/-- A client that is closed may lose the request its caller holds. -/
theorem inv_released (inv : Inv fits s) (closed : s.client.closed = true) :
    Inv fits { s with client := { s.client with sending := none } } := by
  have fewer : List.Sublist (State.awaiting { s with client := { s.client with sending := none } })
      s.awaiting := by
    unfold State.awaiting
    simp only [State.undelivered, List.nil_append, List.append_assoc]
    exact List.sublist_append_right _ _
  refine ⟨?_, ⟨?_, ?_, ?_, ?_, ?_⟩, ?_, inv.served,
    ⟨inv.faithful.answered, inv.faithful.responses, inv.faithful.resolved⟩⟩
  · obtain ⟨counts, caps, pendingOnce, resolvedOnce, apart, known, delivers⟩ := inv.ledger
    exact ⟨counts, caps, pendingOnce, resolvedOnce, apart, known, delivers⟩
  · intro opened
    exact absurd (closed.symm.trans opened) (by decide)
  · intro opened
    exact absurd (closed.symm.trans opened) (by decide)
  · intro opened
    exact absurd (closed.symm.trans opened) (by decide)
  · exact inv.flight.once.sublist ((fewer.map _).append_right _)
  · intro lane
    exact Nat.le_trans (Nat.add_le_add_right fewer.countP_le _) (inv.flight.bound lane)
  · obtain ⟨numbers, ids, sorted, bounds⟩ := inv.ordered.numbers
    refine ⟨inv.ordered.last, numbers.take s.requests.length, ?_, ?_, ?_⟩
    · simp only [State.undelivered, List.append_nil, List.map_take]
      rw [← ids, ← List.map_take, List.take_left]
    · exact sorted.sublist (List.take_sublist _ _)
    · exact fun n member => bounds n (List.mem_of_mem_take member)

theorem inv_sendFailed (inv : Inv fits s) (done : s.client.sendFailed = some client) :
    Inv fits { s with client := client } := by
  unfold Client.sendFailed at done
  split at done
  · cases done
    exact inv_released (inv_failPending inv) rfl
  · cases done

/-- The client reads a response: its request is the only pending one with the id. -/
theorem inv_receiveResponse (inv : Inv fits s) (done : s.receiveResponse fits = some s') : Inv fits s' := by
  unfold State.receiveResponse at done
  split at done
  · next response rest opened queue =>
    cases done
    obtain ⟨call, pending, family, accepted⟩ :=
      inv.flight.answerable opened response (queue ▸ List.mem_cons_self)
    have outcome := receive_eq inv.ledger pending family accepted
    have once := inv.flight.once
    have ids : s.responseIds = response.requestId :: rest.map Response.requestId := by
      unfold State.responseIds
      rw [queue]
      rfl
    rw [ids] at once
    have elsewhere := List.nodup_middle.mp once
    rw [List.nodup_cons, List.mem_append] at elsewhere
    have unread : List.Sublist
        (State.unread { s with client := s.client.receive fits response, responses := rest })
        s.unread := by
      apply List.monotone_filter_right
      intro entry inside
      rw [decide_eq_true_eq] at inside ⊢
      rw [ids]
      exact List.mem_cons_of_mem _ inside
    have remains : ∀ entry ∈ s.client.pending, entry.1 ≠ response.requestId →
        entry ∈ (s.client.receive fits response).pending := by
      intro entry inside different
      rw [outcome, List.mem_filter, decide_eq_true_eq]
      exact ⟨inside, different⟩
    have way : State.awaiting
        { s with client := s.client.receive fits response, responses := rest } = s.awaiting := by
      unfold State.awaiting State.undelivered
      rw [outcome]
    have closed : (s.client.receive fits response).closed = s.client.closed := by rw [outcome]
    refine ⟨?_, ⟨?_, ?_, ?_, ?_, ?_⟩, ?_, inv.served, ?_⟩
    · rw [outcome]
      exact ledger_receive inv.ledger pending
    · intro _ entry member
      rw [way] at member
      apply remains entry (inv.flight.awaited opened entry member)
      intro same
      exact elsewhere.1 (Or.inl (List.mem_map.mpr ⟨entry, member, same⟩))
    · intro _ other member
      obtain ⟨known, inside, facts⟩ :=
        inv.flight.answerable opened other (queue ▸ List.mem_cons_of_mem _ member)
      refine ⟨known, remains _ inside ?_, facts⟩
      intro same
      exact elsewhere.1 (Or.inr (List.mem_map.mpr ⟨other, member, same⟩))
    · intro _ entry member
      apply remains entry (inv.flight.unread opened entry (unread.subset member))
      intro same
      unfold State.unread at member
      rw [List.mem_filter, decide_eq_true_eq, same] at member
      exact elsewhere.1 (Or.inr member.2)
    · rw [way]
      exact elsewhere.2
    · intro lane
      rw [way]
      exact Nat.le_trans (Nat.add_le_add_left unread.countP_le _) (inv.flight.bound lane)
    · obtain ⟨numbers, same, sorted, bounds⟩ := inv.ordered.numbers
      have frame : (s.client.receive fits response).nextId = s.client.nextId ∧
          (s.client.receive fits response).sending = s.client.sending := by
        rw [outcome]
        exact ⟨rfl, rfl⟩
      refine ⟨?_, numbers, ?_, sorted, ?_⟩
      · rw [frame.1]
        exact inv.ordered.last
      · unfold State.undelivered
        rw [frame.2]
        exact same
      · rw [frame.1]
        exact bounds
    · refine ⟨inv.faithful.answered, ?_, ?_⟩
      · exact fun other member =>
          inv.faithful.responses other (queue ▸ List.mem_cons_of_mem _ member)
      · intro id answer member
        rw [outcome, List.mem_append] at member
        rcases member with before | new
        · exact inv.faithful.resolved id answer before
        · cases List.mem_singleton.mp new
          exact inv.faithful.responses response (queue ▸ List.mem_cons_self)
  · cases done

/-! ## The server's events -/

/-- A prompt server counts no more tasks in the lane of the next request than are on their
way with it. -/
theorem counts_of_prompt (inv : Inv fits s) (prompt : Prompt s .receiveRequest)
    {requestId : String} {request : Call} {rest : List (String × Call)}
    (queue : s.requests = (requestId, request) :: rest) :
    s.server.counts.get (serverLane request) < ((serverLane request).maximum : Int) := by
  rw [serverLane_eq]
  have bound := inv.flight.bound (clientLane request)
  have counts := inv.served.counts (clientLane request)
  have slots : inLane (clientLane request) s.server.writing ≤
      inLane (clientLane request) s.unread := by
    unfold inLane State.unread
    rw [List.countP_filter]
    apply List.countP_mono_left
    intro entry member same
    rw [decide_eq_true_eq] at same
    rw [Bool.and_eq_true, decide_eq_true_eq, decide_eq_true_eq]
    exact ⟨same, prompt (requestId, request) (by rw [queue]; rfl) entry member same⟩
  have way : inLane (clientLane request) s.awaiting =
      inLane (clientLane request) s.undelivered + (inLane (clientLane request) rest + 1) +
        inLane (clientLane request) s.server.executing +
        inLane (clientLane request) (s.server.answered.map Prod.fst) := by
    unfold State.awaiting inLane
    rw [queue, List.countP_append, List.countP_append, List.countP_append, List.countP_cons]
    simp only [decide_true, if_true]
  omega

theorem inv_receiveRequest (inv : Inv fits s) (prompt : Prompt s .receiveRequest)
    (done : s.receiveRequest = some s') : Inv fits s' := by
  unfold State.receiveRequest at done
  split at done
  · next requestId request rest _ queue =>
    cases done
    have room := counts_of_prompt inv prompt queue
    obtain ⟨numbers, ids, sorted, bounds⟩ := inv.ordered.numbers
    rw [queue] at ids
    cases numbers with
    | nil => cases ids
    | cons number later =>
      rw [List.cons_append, List.map_cons, List.map_cons, List.cons.injEq] at ids
      obtain ⟨id, ids⟩ := ids
      dsimp only at id
      obtain ⟨above, below, limit⟩ := bounds number List.mem_cons_self
      have read : connectionRequestNumber requestId = some number := by
        rw [id]
        exact connectionRequestNumber_requestIdOf (by omega) limit
      have outcome : s.server.receive requestId request = { s.server with
          lastId := number
          counts := s.server.counts.add (serverLane request) 1
          executing := s.server.executing ++ [(requestId, request)] } := by
        unfold Server.receive
        rw [read]
        dsimp only
        rw [if_neg (by omega), if_neg (by omega)]
      rw [outcome]
      have way : List.Perm
          (State.awaiting { s with
            requests := rest
            server := { s.server with
              lastId := number
              counts := s.server.counts.add (serverLane request) 1
              executing := s.server.executing ++ [(requestId, request)] } }) s.awaiting := by
        unfold State.awaiting
        rw [queue]
        simp only [List.append_assoc]
        apply List.Perm.append_left
        rw [← List.append_assoc rest, ← List.append_assoc (rest ++ _), List.cons_append,
          ← List.cons_append, ← List.append_assoc]
        apply List.Perm.append_right
        exact List.perm_append_singleton _ _
      refine ⟨inv.ledger, ⟨?_, inv.flight.answerable, inv.flight.unread, ?_, ?_⟩, ?_, ?_,
        ⟨inv.faithful.answered, inv.faithful.responses, inv.faithful.resolved⟩⟩
      · intro opened entry member
        exact inv.flight.awaited opened entry (way.mem_iff.mp member)
      · exact ((way.map Prod.fst).append_right _).nodup_iff.mpr inv.flight.once
      · intro lane
        rw [inLane, way.countP_eq]
        exact inv.flight.bound lane
      · refine ⟨below, later, ids, (List.pairwise_cons.mp sorted).2, ?_⟩
        intro n member
        obtain ⟨-, within, short⟩ := bounds n (List.mem_cons_of_mem _ member)
        exact ⟨(List.pairwise_cons.mp sorted).1 n member, within, short⟩
      · refine ⟨?_, inv.served.accepted, inv.served.refusing, inv.served.writer,
          inv.served.refused, inv.served.rejected⟩
        intro lane
        have counts := inv.served.counts lane
        have writing : Server.writing { s.server with
            lastId := number
            counts := s.server.counts.add (serverLane request) 1
            executing := s.server.executing ++ [(requestId, request)] } = s.server.writing := rfl
        rw [writing]
        simp only [Counts.get_add, counts, inLane, List.countP_append, List.countP_cons,
          List.countP_nil, serverLane_eq]
        by_cases same : clientLane request = lane
        · simp only [same, if_true, decide_true]
          omega
        · simp only [same, if_false, decide_false, Bool.false_eq_true]
          omega
  · cases done

variable {server : Server R}

theorem inv_complete (inv : Inv fits s) {outcome : Outcome R}
    (done : s.server.complete fits i outcome = some server) : Inv fits { s with server := server } := by
  unfold Server.complete at done
  split at done
  · cases done
  · next requestId call found =>
    split at done
    · cases done
    · next allowed =>
      cases done
      rw [Bool.or_eq_true, Bool.not_eq_true', not_or, Bool.not_eq_false] at allowed
      have taken := perm_eraseIdx found
      have way : List.Perm (s.server.executing.eraseIdx i ++
            (s.server.answered ++ [((requestId, call), outcome)]).map Prod.fst)
          (s.server.executing ++ s.server.answered.map Prod.fst) := by
        rw [List.map_append, ← List.append_assoc]
        refine (List.perm_append_singleton _ _).trans ?_
        exact (taken.append_right _).symm
      have whole : List.Perm
          (State.awaiting { s with server := { s.server with
            executing := s.server.executing.eraseIdx i
            answered := s.server.answered ++ [((requestId, call), outcome)]
            completed := s.server.completed ++ [(requestId, outcome)] } }) s.awaiting := by
        unfold State.awaiting
        rw [List.append_assoc, List.append_assoc _ s.server.executing]
        exact way.append_left _
      refine ⟨inv.ledger, ⟨?_, inv.flight.answerable, inv.flight.unread, ?_, ?_⟩,
        ⟨inv.ordered.last, inv.ordered.numbers⟩, ?_, ?_⟩
      · intro opened entry member
        exact inv.flight.awaited opened entry (whole.mem_iff.mp member)
      · exact ((whole.map Prod.fst).append_right _).nodup_iff.mpr inv.flight.once
      · intro lane
        rw [inLane, whole.countP_eq]
        exact inv.flight.bound lane
      · refine ⟨?_, ?_, inv.served.refusing, inv.served.writer, inv.served.refused,
          inv.served.rejected⟩
        · intro lane
          have counts := inv.served.counts lane
          have moved := way.countP_eq fun entry => clientLane entry.2 = lane
          rw [List.countP_append, List.countP_append] at moved
          have same : s.server.writing =
              Server.writing { s.server with
                executing := s.server.executing.eraseIdx i
                answered := s.server.answered ++ [((requestId, call), outcome)]
                completed := s.server.completed ++ [(requestId, outcome)] } := rfl
          rw [← same]
          dsimp only [inLane] at counts ⊢
          omega
        · intro entry member
          rcases List.mem_append.mp member with before | new
          · exact inv.served.accepted entry before
          · rw [List.mem_singleton.mp new]
            exact allowed.2
      · refine ⟨?_, ?_, ?_⟩
        · intro entry member
          rcases List.mem_append.mp member with before | new
          · exact List.mem_append_left _ (inv.faithful.answered entry before)
          · rw [List.mem_singleton.mp new]
            exact List.mem_append_right _ (List.mem_singleton.mpr rfl)
        · exact fun response member =>
            List.mem_append_left _ (inv.faithful.responses response member)
        · exact fun id answer member =>
            List.mem_append_left _ (inv.faithful.resolved id answer member)

/-- A response goes on the channel; its task keeps the slot until its `send` returns. -/
theorem inv_write (inv : Inv fits s) (done : s.write i = some s') : Inv fits s' := by
  unfold State.write at done
  split at done
  · next requestId call outcome _ idle found =>
    cases done
    have taken := perm_eraseIdx found
    have member : ((requestId, call), outcome) ∈ s.server.answered := List.mem_of_getElem? found
    have free : s.server.writing = [] := by
      unfold Server.writing
      rw [idle]
    have nothing : s.unread = [] := by
      unfold State.unread
      rw [free]
      rfl
    generalize written : ({ s with
      responses := s.responses ++ [⟨requestId, call.family, outcome⟩]
      server := { s.server with
        answered := s.server.answered.eraseIdx i
        writer := some (.task requestId call) } } : State R) = s'
    have way : s.awaiting.Perm ((requestId, call) :: s'.awaiting) := by
      rw [← written]
      unfold State.awaiting
      have moved := (taken.map Prod.fst).append_left (s.undelivered ++ s.requests ++
        s.server.executing)
      exact moved.trans List.perm_middle
    have ids : s'.responseIds = s.responseIds ++ [requestId] := by
      rw [← written]
      simp only [State.responseIds, List.map_append, List.map_cons, List.map_nil]
    have unread : s'.unread = [(requestId, call)] := by
      unfold State.unread
      rw [ids, ← written]
      simp [Server.writing]
    have client : s'.client = s.client := by rw [← written]
    have inside : (requestId, call) ∈ s.awaiting := way.mem_iff.mpr List.mem_cons_self
    refine ⟨?_, ⟨?_, ?_, ?_, ?_, ?_⟩, ?_, ?_, ?_⟩
    · rw [client]
      exact inv.ledger
    · rw [client]
      intro opened entry awaited
      exact inv.flight.awaited opened entry (way.mem_iff.mpr (List.mem_cons_of_mem _ awaited))
    · rw [client, ← written]
      intro opened response waiting
      rcases List.mem_append.mp waiting with before | new
      · exact inv.flight.answerable opened response before
      · rw [List.mem_singleton.mp new]
        exact ⟨call, inv.flight.awaited opened _ inside, rfl, inv.served.accepted _ member⟩
    · rw [client, unread]
      intro opened entry new
      rw [List.mem_singleton.mp new]
      exact inv.flight.awaited opened _ inside
    · have once := ((way.map Prod.fst).append_right s.responseIds).nodup_iff.mp inv.flight.once
      rw [ids, ← List.append_assoc]
      exact (List.perm_append_singleton _ _).nodup_iff.mpr once
    · intro lane
      have bound := inv.flight.bound lane
      rw [inLane, way.countP_eq, List.countP_cons, nothing] at bound
      rw [unread]
      simp only [inLane, List.countP_cons, List.countP_nil] at bound ⊢
      omega
    · rw [← written]
      exact ⟨inv.ordered.last, inv.ordered.numbers⟩
    · rw [← written]
      refine ⟨?_, ?_, inv.served.refusing, by simp, inv.served.refused, inv.served.rejected⟩
      · intro lane
        have counts := inv.served.counts lane
        rw [free] at counts
        have moved := (taken.map Prod.fst).countP_eq fun entry => clientLane entry.2 = lane
        rw [List.map_cons, List.countP_cons] at moved
        dsimp only at moved
        simp only [inLane, Server.writing, List.countP_cons, List.countP_nil] at counts ⊢
        omega
      · exact fun entry kept => inv.served.accepted entry (List.mem_of_mem_eraseIdx kept)
    · rw [← written]
      refine ⟨?_, ?_, inv.faithful.resolved⟩
      · exact fun entry kept => inv.faithful.answered entry (List.mem_of_mem_eraseIdx kept)
      · exact forall_mem_snoc inv.faithful.responses (inv.faithful.answered _ member)
  · cases done

theorem inv_writeRefusal (inv : Inv fits s) (done : s.writeRefusal = some s') : Inv fits s' := by
  unfold State.writeRefusal at done
  rw [inv.served.refusing] at done
  split at done
  · next none => cases none
  · cases done

theorem inv_returned (inv : Inv fits s) (done : s.server.returned = some server) :
    Inv fits { s with server := server } := by
  unfold Server.returned at done
  split at done
  · next requestId call held =>
    cases done
    have writing : s.server.writing = [(requestId, call)] := by
      unfold Server.writing
      rw [held]
    refine ⟨inv.ledger, ⟨inv.flight.awaited, inv.flight.answerable, fun _ => nofun,
      inv.flight.once, ?_⟩, ⟨inv.ordered.last, inv.ordered.numbers⟩, ?_,
      ⟨inv.faithful.answered, inv.faithful.responses, inv.faithful.resolved⟩⟩
    · intro lane
      exact Nat.le_trans (Nat.add_le_add_left (Nat.zero_le _) _) (inv.flight.bound lane)
    · refine ⟨?_, inv.served.accepted, inv.served.refusing, nofun, inv.served.refused,
        inv.served.rejected⟩
      intro lane
      have counts := inv.served.counts lane
      rw [writing] at counts
      simp only [Counts.get_add, serverLane_eq, inLane, Server.writing, List.countP_cons,
        List.countP_nil] at counts ⊢
      by_cases same : clientLane call = lane
      · simp only [same, if_true, decide_true] at counts ⊢
        omega
      · simp only [same, if_false, decide_false, Bool.false_eq_true] at counts ⊢
        omega
  · next requestId held => exact absurd held (inv.served.writer requestId)
  · cases done

/-! ## Runs -/

/-- Step lemma: every event keeps the invariant, a receipt of the server when it is prompt. -/
theorem inv_step (inv : Inv fits s) {event : Event R} (prompt : Prompt s event) :
    Inv fits ((connection fits).step s event).2 := by
  have kept : ∀ s', s.step fits event = some s' → Inv fits s' := by
    intro s' done
    cases event with
    | submit call =>
      cases done
      exact inv_submit inv call
    | abandon i =>
      obtain ⟨client, moved, same⟩ := Option.map_eq_some_iff.mp done
      exact same ▸ inv_abandon inv moved
    | register encodes =>
      obtain ⟨client, moved, same⟩ := Option.map_eq_some_iff.mp done
      exact same ▸ inv_register inv moved
    | deliver => exact inv_deliver inv done
    | sent =>
      obtain ⟨client, moved, same⟩ := Option.map_eq_some_iff.mp done
      exact same ▸ inv_sent inv moved
    | sendFailed =>
      obtain ⟨client, moved, same⟩ := Option.map_eq_some_iff.mp done
      exact same ▸ inv_sendFailed inv moved
    | receiveResponse => exact inv_receiveResponse inv done
    | close =>
      cases done
      exact inv_failPending inv
    | receiveRequest => exact inv_receiveRequest inv prompt done
    | complete i outcome =>
      obtain ⟨server, moved, same⟩ := Option.map_eq_some_iff.mp done
      exact same ▸ inv_complete inv moved
    | write i => exact inv_write inv done
    | writeRefusal => exact inv_writeRefusal inv done
    | returned =>
      obtain ⟨server, moved, same⟩ := Option.map_eq_some_iff.mp done
      exact same ▸ inv_returned inv moved
    | stop =>
      cases done
      exact ⟨inv.ledger, ⟨inv.flight.awaited, inv.flight.answerable, inv.flight.unread,
        inv.flight.once, inv.flight.bound⟩, ⟨inv.ordered.last, inv.ordered.numbers⟩,
        ⟨inv.served.counts, inv.served.accepted, inv.served.refusing, inv.served.writer,
          inv.served.refused, inv.served.rejected⟩,
        ⟨inv.faithful.answered, inv.faithful.responses, inv.faithful.resolved⟩⟩
  simp only [connection]
  cases found : s.step fits event with
  | none => exact inv
  | some s' => exact kept s' found

/-- In every run whose receipts are prompt, the server refuses no request of a client that
keeps to its own caps, and every response is delivered to the one request it answers. -/
theorem capacity_safe (fits : Call → R → Bool) (events : List (Event R))
    (prompt : (connection fits).AllSteps Prompt State.start events) :
    Safe fits ((connection fits).final State.start events) :=
  (@Machine.AllSteps.of_invariant _ _ _ (connection fits) (Inv fits) Prompt (fun _ _ => True)
    (fun _ _ inv prompt => ⟨trivial, inv_step inv prompt⟩) _ _ inv_start prompt).2.safe

/-- A turn is submitted, sent and received by the server. -/
def turnArrives : List (Event Unit) :=
  [.submit (.app .turnStart), .register true, .deliver, .sent, .receiveRequest]

/-- Sixteen turns fill the ordinary lane; the client reads one's response and submits the
seventeenth. `between` is what happens to the response's `send` in between. -/
def seventeenTurns (between : List (Event Unit)) : List (Event Unit) :=
  (List.replicate 16 turnArrives).flatten ++
    [.complete 0 (.result ()), .write 0, .receiveResponse] ++ between ++ turnArrives

theorem capacity_safe_seventeen :
    Safe (fun _ _ => true)
      ((connection fun _ _ => true).final State.start (seventeenTurns [.returned])) :=
  capacity_safe _ (seventeenTurns [.returned]) (by decide +kernel)

/-- The `send` of the first response returns after the server took the seventeenth turn: the
turn is refused, though the client never had more than sixteen pending. -/
theorem capacity_refused :
    ((connection fun _ _ => true).final State.start (seventeenTurns [])).server.refused = ["17"] ∧
      ((connection fun _ _ => true).trace State.start (seventeenTurns [])).all
        (fun entry => entry.2.2.1 && entry.1.client.pending.length ≤ Lane.ordinary.maximum) := by
  decide +kernel

end Loushang.AppServer
