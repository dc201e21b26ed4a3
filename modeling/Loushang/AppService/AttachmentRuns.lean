import Loushang.AppService.Attachments
import Mathlib.Data.List.Range

/-!
# What an attachment's reads return

A live attachment that was returned with snapshot cursor `c` for a session holds, in what was
read and what is queued, the session's events `c + 1, …, m`, and every later event that the
session was given still waits in the event handler. The code keeps this unless an event is
dropped that such an attachment needs: one whose cursor a later event or a snapshot has passed,
or one whose handler raises.
-/
namespace Loushang.AppService.Attachments
open Loushang.Lib

/-- The cursors of one session's events. -/
def cursorsOf (items : List AttachmentEvent) (session : String) : List Nat :=
  (items.filter fun item => item.event.sessionId = session).map fun item => item.event.cursor

theorem cursorsOf_append (front back : List AttachmentEvent) (session : String) :
    cursorsOf (front ++ back) session = cursorsOf front session ++ cursorsOf back session := by
  unfold cursorsOf
  rw [List.filter_append, List.map_append]

theorem cursorsOf_single_self (item : AttachmentEvent) :
    cursorsOf [item] item.event.sessionId = [item.event.cursor] := by
  simp [cursorsOf]

variable {session : String}

theorem cursorsOf_single_of_ne {item : AttachmentEvent} (other : item.event.sessionId ≠ session) :
    cursorsOf [item] session = [] := by
  simp [cursorsOf, other]

/-! ## Following one session from a bound -/

/-- Above `bound`, `kept` is `bound + 1, …, last`; an event above `last` that was delivered
is the one that waits in the handler. -/
structure Tracks (bound last : Nat) (kept suspended : List Nat) (delivered : Nat) : Prop where
  ordered : bound ≤ last
  kept : kept.filter (fun cursor => bound < cursor) = List.range' (bound + 1) (last - bound)
  reached : ∀ cursor, bound < cursor → cursor ≤ delivered → cursor ∈ suspended ∨ cursor ≤ last
  later : ∀ cursor ∈ suspended, bound < cursor → last < cursor
  single : ∀ cursor ∈ suspended, ∀ other ∈ suspended, bound < cursor → bound < other → cursor = other
  known : last ≤ max bound delivered

namespace Tracks

variable {bound last delivered cursor : Nat} {kept suspended : List Nat}

/-- An attachment starts above everything its session was given. -/
theorem start (above : delivered ≤ bound) (all : ∀ cursor ∈ suspended, cursor ≤ delivered) :
    Tracks bound bound [] suspended delivered where
  ordered := Nat.le_refl _
  kept := by simp
  reached cursor low high := by omega
  later cursor member low := by
    omega
  single cursor member other _ low := by
    have := all cursor member
    omega
  known := by omega

theorem filter_range' (low high bound : Nat) :
    (List.range' (low + 1) (high - low)).filter (fun cursor => max low bound < cursor) =
      List.range' (max low bound + 1) (high - max low bound) := by
  by_cases inside : max low bound ≤ high
  · have split : List.range' (low + 1) (high - low) =
        List.range' (low + 1) (max low bound - low) ++
          List.range' (max low bound + 1) (high - max low bound) := by
      have start : max low bound + 1 = low + 1 + 1 * (max low bound - low) := by omega
      have total : high - low = max low bound - low + (high - max low bound) := by omega
      rw [start, List.range'_append, total]
    have dropped : (List.range' (low + 1) (max low bound - low)).filter
        (fun cursor => max low bound < cursor) = [] := by
      apply List.filter_eq_nil_iff.mpr
      intro cursor member
      have := List.mem_range'_1.mp member
      simp only [decide_eq_true_eq]
      omega
    have kept : (List.range' (max low bound + 1) (high - max low bound)).filter
        (fun cursor => max low bound < cursor) =
          List.range' (max low bound + 1) (high - max low bound) := by
      apply List.filter_eq_self.mpr
      intro cursor member
      have := List.mem_range'_1.mp member
      simp only [decide_eq_true_eq]
      omega
    rw [split, List.filter_append, dropped, kept, List.nil_append]
  · have none : high - max low bound = 0 := by omega
    rw [none, List.range'_zero]
    apply List.filter_eq_nil_iff.mpr
    intro cursor member
    have := List.mem_range'_1.mp member
    simp only [decide_eq_true_eq]
    omega

/-- A newer snapshot raises the bound. -/
theorem raise (tracks : Tracks bound last kept suspended delivered) {higher : Nat} (up : bound ≤ higher) :
    Tracks higher (max higher last) kept suspended delivered where
  ordered := Nat.le_max_left _ _
  kept := by
    have twice : kept.filter (fun cursor => higher < cursor) =
        (kept.filter (fun cursor => bound < cursor)).filter (fun cursor => higher < cursor) := by
      rw [List.filter_filter]
      apply List.filter_congr
      intro cursor _
      by_cases above : higher < cursor
      · have : bound < cursor := by omega
        simp [above, this]
      · simp [above]
    have raised := filter_range' bound last higher
    rw [Nat.max_eq_right up] at raised
    rw [twice, tracks.kept, raised]
    congr 1
    omega
  reached cursor low high := by
    rcases tracks.reached cursor (by omega) high with waiting | done
    · exact .inl waiting
    · exact .inr (by omega)
  later cursor member low := by
    have := tracks.later cursor member (by omega)
    omega
  single cursor member other member' low low' :=
    tracks.single cursor member other member' (by omega) (by omega)
  known := by
    have := tracks.known
    omega

/-- The next event is handed over and dropped. -/
theorem drop (tracks : Tracks bound last kept suspended delivered) (covered : delivered + 1 ≤ bound) :
    Tracks bound last kept suspended (delivered + 1) where
  ordered := tracks.ordered
  kept := tracks.kept
  reached cursor low high := by omega
  later := tracks.later
  single := tracks.single
  known := by
    have := tracks.known
    omega

/-- The next event is handed over and waits in the handler. -/
theorem suspend (tracks : Tracks bound last kept suspended delivered)
    (spared : ∀ cursor ∈ suspended, cursor ≤ bound) :
    Tracks bound last kept (suspended ++ [delivered + 1]) (delivered + 1) where
  ordered := tracks.ordered
  kept := tracks.kept
  reached cursor low high := by
    by_cases newest : cursor = delivered + 1
    · exact .inl (by simp [newest])
    · rcases tracks.reached cursor low (by omega) with waiting | done
      · exact .inl (List.mem_append_left _ waiting)
      · exact .inr done
  later cursor member low := by
    have := tracks.known
    rcases List.mem_append.mp member with old | new
    · have := spared cursor old
      omega
    · have := List.mem_singleton.mp new
      omega
  single cursor member other member' low low' := by
    rcases List.mem_append.mp member with old | new
    · have := spared cursor old
      omega
    · rcases List.mem_append.mp member' with old' | new'
      · have := spared other old'
        omega
      · rw [List.mem_singleton.mp new, List.mem_singleton.mp new']
  known := by
    have := tracks.known
    omega

theorem range'_grows (low high : Nat) (inside : low ≤ high) :
    List.range' (low + 1) (high - low) ++ [high + 1] = List.range' (low + 1) (high + 1 - low) := by
  have last : high + 1 = low + 1 + 1 * (high - low) := by omega
  have single : [high + 1] = List.range' (low + 1 + 1 * (high - low)) 1 := by
    rw [← last]
    rfl
  rw [single, List.range'_append]
  congr 1
  omega

/-- The next event is handed over and queued. -/
theorem push (tracks : Tracks bound last kept suspended delivered)
    (spared : ∀ cursor ∈ suspended, cursor ≤ bound) :
    Tracks bound (max last (delivered + 1)) (kept ++ [delivered + 1]) suspended (delivered + 1) where
  ordered := Nat.le_trans tracks.ordered (Nat.le_max_left _ _)
  kept := by
    have known := tracks.known
    have ordered := tracks.ordered
    rw [List.filter_append, tracks.kept]
    by_cases needed : bound < delivered + 1
    · have reached : last = delivered := by
        by_cases beyond : bound < delivered
        · rcases tracks.reached delivered beyond (Nat.le_refl _) with waiting | done
          · have := spared delivered waiting
            omega
          · omega
        · omega
      have top : max last (delivered + 1) = last + 1 := by omega
      rw [top, ← range'_grows bound last ordered, reached]
      simp [needed]
    · have top : max last (delivered + 1) = last := by omega
      rw [top]
      simp [needed]
  reached cursor low high := by
    by_cases newest : cursor = delivered + 1
    · exact .inr (by omega)
    · rcases tracks.reached cursor low (by omega) with waiting | done
      · exact .inl waiting
      · exact .inr (by omega)
  later cursor member low := by
    have := spared cursor member
    omega
  single cursor member other _ low := by
    have := spared cursor member
    omega
  known := by
    have := tracks.known
    omega

/-- A handler comes back and its event is dropped. -/
theorem wake_drop (tracks : Tracks bound last kept suspended delivered) (covered : cursor ≤ bound) :
    Tracks bound last kept (suspended.erase cursor) delivered where
  ordered := tracks.ordered
  kept := tracks.kept
  reached other low high := by
    rcases tracks.reached other low high with waiting | done
    · exact .inl ((List.mem_erase_of_ne (by omega)).mpr waiting)
    · exact .inr done
  later other member low := tracks.later other (List.mem_of_mem_erase member) low
  single other member another member' low low' :=
    tracks.single other (List.mem_of_mem_erase member) another (List.mem_of_mem_erase member') low low'
  known := tracks.known

/-- A handler comes back and its event is queued: it is the one that was missing. -/
theorem wake_push (tracks : Tracks bound last kept suspended delivered) (distinct : suspended.Nodup)
    (waits : cursor ∈ suspended) (delivered_le : cursor ≤ delivered) :
    Tracks bound (max last cursor) (kept ++ [cursor]) (suspended.erase cursor) delivered := by
  have ordered := tracks.ordered
  by_cases needed : bound < cursor
  · have next : cursor = last + 1 := by
      have beyond := tracks.later cursor waits needed
      rcases tracks.reached (last + 1) (by omega) (by omega) with waiting | done
      · exact tracks.single cursor waits (last + 1) waiting needed (by omega)
      · omega
    have none : ∀ other ∈ suspended.erase cursor, ¬bound < other := by
      intro other member low
      have same := tracks.single cursor waits other (List.mem_of_mem_erase member) needed low
      exact distinct.not_mem_erase (same ▸ member)
    have top : max last cursor = last + 1 := by omega
    refine ⟨by omega, ?_, ?_, ?_, ?_, by omega⟩
    · rw [List.filter_append, tracks.kept, top, ← range'_grows bound last ordered, ← next]
      simp [needed]
    · intro other low high
      by_cases same : other = cursor
      · exact .inr (by omega)
      · rcases tracks.reached other low high with waiting | done
        · exact .inl ((List.mem_erase_of_ne same).mpr waiting)
        · exact .inr (by omega)
    · exact fun other member low => absurd low (none other member)
    · exact fun other member _ _ low => absurd low (none other member)
  · have top : max last cursor = last := by omega
    rw [top]
    have dropped := @wake_drop bound last delivered cursor kept suspended tracks (by omega)
    refine { dropped with kept := ?_ }
    rw [List.filter_append, tracks.kept]
    simp [needed]

end Tracks

/-! ## What holds of a live attachment -/

/-- The bound of a member whose snapshot is on its way: no higher than the snapshot will be. -/
def AwaitsFrom (progress : Progress) (published bound : Nat) : Prop :=
  match progress with
  | .unasked => bound ≤ published
  | .asked floor => bound ≤ floor
  | .answered cursor => bound = cursor

/-- From which cursors on a live attachment must hold the events of its members. -/
inductive Bounds (f : Feed) (id : String) (a : Attachment) (bound : String → Option Nat) : Prop
  | returned (cursors : Dict String Nat) (activated : a.memberCursors = some cursors)
    (attached : f.attached id = some cursors) (same : ∀ session, bound session = cursors.get? session)
  | attaching (call : AttachCall) (pending : a.memberCursors = none) (unread : f.seen id = [])
    (called : f.service.calls id = some call) (going : call.failed = false)
    (members : ∀ member ∈ call.members, (bound member.sessionId).isSome)
    (awaits : ∀ session lowest, bound session = some lowest →
      AwaitsFrom (call.progress session) (f.service.sessions session).published lowest)

/-- An attachment is registered at a session and follows it from a bound. -/
structure Watches (f : Feed) (id : String) (a : Attachment) (session : String) (bound : Nat) : Prop where
  listed : id ∈ (f.service.sessions session).attachments
  accepting : (f.service.sessions session).accepting = true
  named : (a.memberIds.get? session).isSome
  tracks : ∃ last, Tracks bound last (cursorsOf (f.seen id ++ a.queue) session)
    (f.service.sessions session).suspended (f.service.sessions session).delivered
  above : a.memberCursors.isSome → ∀ cursor ∈ cursorsOf (f.seen id ++ a.queue) session, bound < cursor

/-- A live attachment either belongs to an attach that has failed, or follows its members. -/
def Live (f : Feed) (id : String) (a : Attachment) : Prop :=
  (∃ call, f.service.calls id = some call ∧ call.failed = true) ∨
    ∃ bound, Bounds f id a bound ∧ ∀ session lowest, bound session = some lowest →
      Watches f id a session lowest

structure OwnerSound (owner : SessionOwner) : Prop where
  distinct : owner.suspended.Nodup
  handed : ∀ cursor ∈ owner.suspended, cursor ≤ owner.delivered
  published : owner.delivered ≤ owner.published

structure Invariant (f : Feed) : Prop where
  owners : ∀ session, OwnerSound (f.service.sessions session)
  made : ∀ id, (f.attached id).isSome → (f.service.attachments id).isSome
  pending : ∀ id, (f.service.calls id).isSome → f.attached id = none
  unseen : ∀ id, f.attached id = none → f.seen id = []
  inOrder : ∀ id cursors session bound, f.attached id = some cursors →
    cursors.get? session = some bound →
    ∃ count, cursorsOf (f.seen id) session = List.range' (bound + 1) count
  live : ∀ id a, f.service.attachments id = some a → a.active = true → Live f id a

/-! ## The condition -/

/-- A live attachment is without an event: it was returned with an older snapshot of the
session, or its own snapshot is missing or older. -/
def Service.needs (w : Service) (session : String) (cursor : Nat) (id : String) : Bool :=
  match w.attachments id with
  | none => false
  | some a => a.active &&
    match a.memberCursors, w.calls id with
    | some cursors, _ => Attachment.above cursors ⟨session, cursor⟩
    | none, none => false
    | none, some call => !call.failed && !(call.progress session).cursor?.any (cursor ≤ ·)

def Service.spares (w : Service) (session : String) (cursor : Nat) : Bool :=
  (w.sessions session).attachments.all fun id => !w.needs session cursor id

/-- No event is handed over while another one waits in the handler, and none is dropped, unless
no live attachment needs the one that waits or is dropped. -/
def StepFits (f : Feed) : Input → Bool
  | .deliver session handling =>
    let owner := f.service.sessions session
    owner.published ≤ owner.delivered || !owner.accepting ||
      owner.suspended.all (f.service.spares session ·) &&
        (owner.latestCursor < owner.delivered + 1 && (!owner.hasHandler || handling ≠ .raises) ||
          f.service.spares session (owner.delivered + 1))
  | .resume session cursor raised =>
    let owner := f.service.sessions session
    cursor ∉ owner.suspended || !raised && owner.latestCursor ≤ cursor ||
      f.service.spares session cursor
  | _ => true

variable {f : Feed} {a : Attachment} {bound : String → Option Nat} {lowest cursor : Nat}

theorem Bounds.le_of_spares {id : String} (bounds : Bounds f id a bound)
    (found : f.service.attachments id = some a) (active : a.active = true)
    (some : bound session = some lowest) (listed : id ∈ (f.service.sessions session).attachments)
    (spares : f.service.spares session cursor = true) : cursor ≤ lowest := by
  have spared := List.all_eq_true.mp spares id listed
  unfold Service.needs at spared
  rw [found] at spared
  cases bounds with
  | returned cursors activated attached same =>
    rw [same] at some
    simp only [active, activated, Attachment.above, some, Bool.true_and, Bool.not_eq_true',
      decide_eq_false_iff_not] at spared
    omega
  | attaching call pending unread called going members awaits =>
    have awaited := awaits session lowest some
    simp only [active, pending, called, going, Bool.true_and, Bool.not_false, Bool.not_not] at spared
    unfold AwaitsFrom at awaited
    cases progress : call.progress session with
    | unasked => simp [progress, Progress.cursor?] at spared
    | asked floor => simp [progress, Progress.cursor?] at spared
    | answered answer =>
      simp only [progress, Progress.cursor?, Option.any_some, decide_eq_true_eq] at spared awaited
      omega

/-! ## Attachments under one event -/

namespace Attachment

theorem active_iff (a : Attachment) : a.active = true ↔ a.settled = false ∧ a.lagged = false := by
  simp [active]

theorem put_cases (a : Attachment) (item : AttachmentEvent) :
    (a.put item).lagged = true ∨ a.put item = { a with queue := a.queue ++ [item] } := by
  unfold put
  split
  · exact .inl rfl
  · exact .inr rfl

/-- An event leaves an attachment as it is, makes it lag, or is queued. -/
theorem push_cases (a : Attachment) (event : SessionEvent) :
    a.push event = a ∧ (a.active = true → (a.memberIds.get? event.sessionId).isSome →
        a.memberCursors.all (above · event) = false) ∨
      (a.push event).lagged = true ∨
      a.memberCursors.all (above · event) = true ∧
        ∃ item, item.event = event ∧ a.push event = { a with queue := a.queue ++ [item] } := by
  unfold push
  split
  · rename_i dead
    refine .inl ⟨rfl, fun live _ => ?_⟩
    rw [active_iff] at live
    simp [live.1, live.2] at dead
  · cases a.memberIds.get? event.sessionId with
    | none => exact .inl ⟨rfl, fun _ named => by cases named⟩
    | some memberId =>
      dsimp only
      split
      · rename_i admitted
        rcases a.put_cases ⟨a.attachmentId, memberId, event⟩ with lagged | queued
        · exact .inr (.inl lagged)
        · exact .inr (.inr ⟨admitted, _, rfl, queued⟩)
      · rename_i refused
        exact .inl ⟨rfl, fun _ _ => by simpa using refused⟩

theorem active_of_push {a : Attachment} {event : SessionEvent} (active : (a.push event).active = true) :
    a.active = true ∧ (a.push event).memberCursors = a.memberCursors ∧
      (a.push event).memberIds = a.memberIds ∧
      ∀ session, session ≠ event.sessionId →
        cursorsOf (a.push event).queue session = cursorsOf a.queue session := by
  rcases a.push_cases event with ⟨same, -⟩ | lagged | ⟨-, item, isEvent, queued⟩
  · rw [same] at active ⊢
    exact ⟨active, rfl, rfl, fun _ _ => rfl⟩
  · rw [active_iff, lagged] at active
    exact absurd active.2 (by simp)
  · rw [queued] at active ⊢
    refine ⟨active, rfl, rfl, fun session other => ?_⟩
    have none : cursorsOf [item] session = [] :=
      cursorsOf_single_of_ne (by rw [isEvent]; exact Ne.symm other)
    simp only [cursorsOf_append, none, List.append_nil]

theorem not_active_invalidate (a : Attachment) : a.invalidate.active = false := by
  simp [active, invalidate]

end Attachment

/-! ## One session changes -/

/-- One session's owner and its attachments change. -/
def Service.revise (w : Service) (session : String) (owner : SessionOwner)
    (change : Attachment → Attachment) : Service :=
  (w.mapAttachments (w.sessions session).attachments change).setSession session owner

variable {g : Feed} {b : Attachment}

theorem Watches.frame {id : String} (watches : Watches f id a session lowest)
    (listed : id ∈ (f.service.sessions session).attachments →
      id ∈ (g.service.sessions session).attachments)
    (accepting : (g.service.sessions session).accepting = (f.service.sessions session).accepting)
    (suspended : (g.service.sessions session).suspended = (f.service.sessions session).suspended)
    (delivered : (g.service.sessions session).delivered = (f.service.sessions session).delivered)
    (named : b.memberIds.get? session = a.memberIds.get? session)
    (cursors : b.memberCursors = a.memberCursors)
    (kept : cursorsOf (g.seen id ++ b.queue) session = cursorsOf (f.seen id ++ a.queue) session) :
    Watches g id b session lowest where
  listed := listed watches.listed
  accepting := accepting.trans watches.accepting
  named := by
    rw [named]
    exact watches.named
  tracks := by
    rw [kept, suspended, delivered]
    exact watches.tracks
  above := by
    rw [cursors, kept]
    exact watches.above

theorem AwaitsFrom.mono {progress : Progress} {published more bound : Nat}
    (awaits : AwaitsFrom progress published bound) (up : published ≤ more) :
    AwaitsFrom progress more bound := by
  cases progress with
  | unasked => exact Nat.le_trans awaits up
  | asked floor => exact awaits
  | answered cursor => exact awaits

theorem Bounds.frame {id : String} (bounds : Bounds f id a bound)
    (cursors : b.memberCursors = a.memberCursors) (calls : g.service.calls id = f.service.calls id)
    (attached : g.attached id = f.attached id) (seen : f.seen id = [] → g.seen id = [])
    (published : ∀ session, (f.service.sessions session).published ≤
      (g.service.sessions session).published) : Bounds g id b bound := by
  cases bounds with
  | returned table activated shown same =>
    exact .returned table (cursors.trans activated) (attached.trans shown) same
  | attaching call pending unread called going members awaits =>
    refine .attaching call (cursors.trans pending) (seen unread) (calls.trans called) going members ?_
    exact fun session lowest some => (awaits session lowest some).mono (published session)

variable {owner : SessionOwner} {change : Attachment → Attachment}

/-- A change of one session keeps the invariant if it does for that session's live attachments. -/
theorem Invariant.revise (inv : Invariant f)
    (listed : owner.attachments = (f.service.sessions session).attachments)
    (accepting : owner.accepting = (f.service.sessions session).accepting)
    (published : (f.service.sessions session).published ≤ owner.published) (sound : OwnerSound owner)
    (changes : ∀ a : Attachment, (change a).active = true → a.active = true ∧
      (change a).memberCursors = a.memberCursors ∧ (change a).memberIds = a.memberIds ∧
      ∀ other, other ≠ session → cursorsOf (change a).queue other = cursorsOf a.queue other)
    (keeps : ∀ id a bound lowest, f.service.attachments id = some a → (change a).active = true →
      Bounds f id a bound → bound session = some lowest → Watches f id a session lowest →
      (∃ last, Tracks lowest last (cursorsOf (f.seen id ++ (change a).queue) session)
        owner.suspended owner.delivered) ∧
      (a.memberCursors.isSome →
        ∀ cursor ∈ cursorsOf (f.seen id ++ (change a).queue) session, lowest < cursor)) :
    Invariant { f with service := f.service.revise session owner change } := by
  have sessions : ∀ other, (f.service.revise session owner change).sessions other =
      if other = session then owner else f.service.sessions other := by
    intro other
    by_cases same : other = session
    · subst same
      simp [Service.revise, Service.setSession]
    · simp [Service.revise, Service.setSession, Service.mapAttachments, same]
  refine ⟨?_, ?_, inv.pending, inv.unseen, inv.inOrder, ?_⟩
  · intro other
    rw [sessions]
    split
    · exact sound
    · exact inv.owners other
  · intro id shown
    have made := inv.made id shown
    change (if id ∈ _ then (f.service.attachments id).map change else _).isSome = true
    split
    · simpa using made
    · exact made
  · intro id b found active
    change (if id ∈ _ then (f.service.attachments id).map change else _) = some b at found
    obtain ⟨a, was, cursors, ids, others, live, here⟩ : ∃ a, f.service.attachments id = some a ∧
        b.memberCursors = a.memberCursors ∧ b.memberIds = a.memberIds ∧
        (∀ other, other ≠ session → cursorsOf b.queue other = cursorsOf a.queue other) ∧
        a.active = true ∧ (id ∈ (f.service.sessions session).attachments → b = change a) := by
      split at found
      · obtain ⟨a, was, changed⟩ := Option.map_eq_some_iff.mp found
        subst changed
        obtain ⟨live, cursors, ids, others⟩ := changes a active
        exact ⟨a, was, cursors, ids, others, live, fun _ => rfl⟩
      · rename_i absent
        exact ⟨b, found, rfl, rfl, fun _ _ => rfl, active, fun member => absurd member absent⟩
    rcases inv.live id a was live with failed | ⟨bound, bounds, watches⟩
    · exact .inl failed
    · refine .inr ⟨bound, ?_, ?_⟩
      · refine bounds.frame cursors rfl rfl (fun unread => unread) fun other => ?_
        rw [sessions]
        split
        · rename_i same
          rw [same]
          exact published
        · exact Nat.le_refl _
      · intro other lowest some
        have watched := watches other lowest some
        by_cases same : other = session
        · subst same
          have changed := here watched.listed
          subst changed
          obtain ⟨tracks, above⟩ := keeps id a bound lowest was active bounds some watched
          have now := sessions other
          rw [if_pos rfl] at now
          refine ⟨?_, ?_, ?_, ?_, ?_⟩
          · rw [now, listed]
            exact watched.listed
          · rw [now, accepting]
            exact watched.accepting
          · rw [ids]
            exact watched.named
          · change ∃ last, Tracks lowest last _
              ((f.service.revise other owner change).sessions other).suspended
              ((f.service.revise other owner change).sessions other).delivered
            rw [now]
            exact tracks
          · rw [cursors]
            exact above
        · have now := sessions other
          rw [if_neg same] at now
          refine watched.frame ?_ ?_ ?_ ?_ ?_ cursors ?_
          · rw [now]
            exact fun member => member
          · exact congrArg SessionOwner.accepting now
          · exact congrArg SessionOwner.suspended now
          · exact congrArg SessionOwner.delivered now
          · rw [ids]
          · simp only [cursorsOf_append, others other same]

/-! ## What a delivery does -/

namespace Service

theorem revise_id (w : Service) (session : String) (owner : SessionOwner) :
    w.revise session owner id = w.setSession session owner := by
  have same : (fun key => if key ∈ (w.sessions session).attachments then (w.attachments key).map id
      else w.attachments key) = w.attachments := by
    funext key
    rw [Option.map_id_fun, id, ite_self]
  unfold revise mapAttachments
  rw [same]

theorem setSession_setSession (w : Service) (session : String) (first second : SessionOwner) :
    (w.setSession session first).setSession session second = w.setSession session second := by
  simp [setSession]

theorem setSession_self (w : Service) (session : String) (owner : SessionOwner) :
    (w.setSession session owner).sessions session = owner := by
  simp [setSession]

theorem setSession_revise (w : Service) (session : String) (first second : SessionOwner)
    (change : Attachment → Attachment)
    (listed : first.attachments = (w.sessions session).attachments) :
    (w.setSession session first).revise session second change = w.revise session second change := by
  simp [revise, setSession, mapAttachments, listed]

theorem revise_revise (w : Service) (session : String) (first second : SessionOwner)
    (inner outer : Attachment → Attachment)
    (listed : first.attachments = (w.sessions session).attachments) :
    (w.revise session first inner).revise session second outer =
      w.revise session second (outer ∘ inner) := by
  have same : (fun key => if key ∈ first.attachments then
      Option.map outer (if key ∈ (w.sessions session).attachments then
        (w.attachments key).map inner else w.attachments key)
      else if key ∈ (w.sessions session).attachments then
        (w.attachments key).map inner else w.attachments key) =
      fun key => if key ∈ (w.sessions session).attachments then
        (w.attachments key).map (outer ∘ inner) else w.attachments key := by
    funext key
    rw [listed]
    split
    · rw [Option.map_map]
    · rfl
  simp only [revise, setSession, mapAttachments, Function.update_self, Function.update_idem, same]

theorem fanOut_eq (w : Service) (session : String) (event : SessionEvent) :
    w.fanOut session event = w.revise session (w.sessions session) (·.push event) := by
  simp [fanOut, revise, setSession, mapAttachments]

theorem invalidateAttachments_eq (w : Service) (session : String) :
    w.invalidateAttachments session =
      w.revise session (w.sessions session) Attachment.invalidate := by
  simp [invalidateAttachments, revise, setSession, mapAttachments]

end Service

/-- The live attachments of a session are as they were. -/
def Quiet (change : Attachment → Attachment) : Prop :=
  ∀ a : Attachment, (change a).active = true → change a = a

theorem quiet_id : Quiet id := fun _ _ => rfl

theorem quiet_invalidate : Quiet Attachment.invalidate := by
  intro a active
  rw [a.not_active_invalidate] at active
  cases active

/-- What becomes of the event `cursor` that a session is given. -/
inductive Handed (session : String) (owner : SessionOwner) (raises : Bool) (cursor : Nat) :
    List Nat → (Attachment → Attachment) → Prop
  | closed : owner.accepting = false → Handed session owner raises cursor owner.suspended id
  | dropped (change : Attachment → Attachment) : Quiet change →
      cursor ≤ owner.latestCursor ∨ raises = true →
      Handed session owner raises cursor owner.suspended change
  | waits (change : Attachment → Attachment) : Quiet change →
      Handed session owner raises cursor (owner.suspended ++ [cursor]) change
  | queued (change : Attachment → Attachment) :
      (∀ a : Attachment, (change a).active = true → change a = a.push ⟨session, cursor⟩) →
      Handed session owner raises cursor owner.suspended change

namespace Service

theorem revise_sessions_self (w : Service) (session : String) (owner : SessionOwner)
    (change : Attachment → Attachment) : (w.revise session owner change).sessions session = owner := by
  unfold revise
  rw [setSession_self]

theorem afterHandler_latest {w : Service} {session : String} {cursor : Nat}
    (latest : (w.sessions session).latestCursor ≤ cursor) :
    w.afterHandler session ⟨session, cursor⟩ =
      w.revise session (w.sessions session) (·.push ⟨session, cursor⟩) := by
  unfold afterHandler
  rw [if_neg (Nat.not_lt.mpr latest), fanOut_eq]

/-- The part of `_on_event` behind its checks, on attachments that `change` has gone through. -/
theorem onEvent_tail (w : Service) (session : String) (owner : SessionOwner) (handling : Handling)
    (change : Attachment → Attachment)
    (quiet : change = id ∨ change = Attachment.invalidate) (cursor : Nat)
    (listed : owner.attachments = (w.sessions session).attachments)
    (latest : owner.latestCursor = cursor) :
    ∃ suspended change',
      (if owner.hasHandler then
        match handling with
        | .returns => (w.revise session owner change).afterHandler session ⟨session, cursor⟩
        | .suspends => (w.revise session owner change).setSession session
            { owner with suspended := owner.suspended ++ [cursor] }
        | .raises => w.revise session owner change
      else (w.revise session owner change).fanOut session ⟨session, cursor⟩) =
        w.revise session { owner with suspended := suspended } change' ∧
      ∀ before : SessionOwner, before.suspended = owner.suspended →
        Handed session before (owner.hasHandler && handling = .raises) cursor suspended change' := by
  have still : Quiet change := by
    rcases quiet with same | same
    · rw [same]
      exact quiet_id
    · rw [same]
      exact quiet_invalidate
  have pushes : ∀ a : Attachment, ((change a).push ⟨session, cursor⟩).active = true →
      (change a).push ⟨session, cursor⟩ = a.push ⟨session, cursor⟩ := by
    intro a active
    rw [still a (Attachment.active_of_push active).1]
  have fans : (w.revise session owner change).fanOut session ⟨session, cursor⟩ =
      w.revise session owner ((fun a => Attachment.push a ⟨session, cursor⟩) ∘ change) := by
    rw [fanOut_eq, revise_sessions_self, revise_revise _ _ _ _ _ _ listed]
  by_cases handler : owner.hasHandler = true
  · rw [if_pos handler]
    cases handling with
    | returns =>
      refine ⟨owner.suspended, _, ?_, fun before same => by
        rw [← same]
        exact .queued _ pushes⟩
      unfold afterHandler
      rw [revise_sessions_self, if_neg (by simp [latest]), fans]
      rfl
    | suspends =>
      refine ⟨owner.suspended ++ [cursor], change, ?_, fun before same => by
        rw [← same]
        exact .waits _ still⟩
      unfold revise
      rw [setSession_setSession]
    | raises =>
      refine ⟨owner.suspended, change, rfl, fun before same => ?_⟩
      rw [← same]
      exact .dropped _ still (.inr (by simp [handler]))
  · rw [if_neg handler]
    refine ⟨owner.suspended, _, fans, fun before same => ?_⟩
    rw [← same]
    exact .queued _ pushes

theorem deliver_spec (w : Service) (session : String) (handling : Handling)
    (due : (w.sessions session).delivered < (w.sessions session).published) :
    ∃ latest suspended change, w.deliver session handling = (.done, w.revise session
        { w.sessions session with
          delivered := (w.sessions session).delivered + 1
          latestCursor := latest
          suspended := suspended } change) ∧
      Handed session (w.sessions session) ((w.sessions session).hasHandler && handling = .raises)
        ((w.sessions session).delivered + 1) suspended change := by
  obtain ⟨owner, isOwner⟩ : ∃ owner, owner = w.sessions session := ⟨_, rfl⟩
  unfold deliver
  rw [← isOwner] at due ⊢
  rw [if_pos due]
  unfold onEvent
  rw [setSession_self]
  dsimp only
  split
  · rename_i closed
    refine ⟨owner.latestCursor, owner.suspended, id, ?_, .closed (by simpa using closed)⟩
    rw [revise_id]
  · split
    · rename_i other
      exact absurd rfl other
    · split
      · rename_i passed
        refine ⟨owner.latestCursor, owner.suspended, id, ?_, .dropped _ quiet_id (.inl passed)⟩
        rw [revise_id]
      · obtain ⟨change, quiet, checked⟩ : ∃ change, (change = id ∨ change = Attachment.invalidate) ∧
            ((if owner.latestCursor ≠ 0 ∧ owner.delivered + 1 ≠ owner.latestCursor + 1 then
              (w.setSession session { owner with delivered := owner.delivered + 1 }).invalidateAttachments session
            else w.setSession session { owner with delivered := owner.delivered + 1 }).setSession session
              { owner with delivered := owner.delivered + 1, latestCursor := owner.delivered + 1 }) =
            w.revise session { owner with delivered := owner.delivered + 1, latestCursor := owner.delivered + 1 }
              change := by
          split
          · refine ⟨_, .inr rfl, ?_⟩
            rw [invalidateAttachments_eq, setSession_self, setSession_revise _ _ _ _ _ (by rw [← isOwner])]
            unfold revise
            rw [setSession_setSession]
          · refine ⟨_, .inl rfl, ?_⟩
            rw [setSession_setSession, revise_id]
        obtain ⟨suspended, change', tail, handed⟩ := onEvent_tail w session
          { owner with delivered := owner.delivered + 1, latestCursor := owner.delivered + 1 } handling
          change quiet (owner.delivered + 1) (by rw [← isOwner]) rfl
        refine ⟨owner.delivered + 1, suspended, change', ?_, handed owner rfl⟩
        rw [checked]
        exact congrArg (Prod.mk Answer.done) tail

theorem resume_spec (w : Service) (session : String) (cursor : Nat) (raised : Bool)
    (waits : cursor ∈ (w.sessions session).suspended) :
    ∃ change, w.resume session cursor raised = (.done, w.revise session
        { w.sessions session with suspended := (w.sessions session).suspended.erase cursor } change) ∧
      ((change = id ∧ (raised = true ∨ cursor < (w.sessions session).latestCursor)) ∨
        change = (·.push ⟨session, cursor⟩)) := by
  unfold resume
  dsimp only
  rw [if_pos waits]
  cases raised with
  | true =>
    refine ⟨id, ?_, .inl ⟨rfl, .inl rfl⟩⟩
    rw [if_pos rfl, revise_id]
  | false =>
    by_cases passed : cursor < (w.sessions session).latestCursor
    · refine ⟨id, ?_, .inl ⟨rfl, .inr passed⟩⟩
      unfold afterHandler
      rw [if_neg Bool.false_ne_true, setSession_self, if_pos passed, revise_id]
    · refine ⟨_, ?_, .inr rfl⟩
      rw [if_neg Bool.false_ne_true, afterHandler_latest, setSession_self]
      · exact congrArg (Prod.mk Answer.done) (setSession_revise _ _ _ _ _ rfl)
      · rw [setSession_self]
        exact Nat.not_lt.mp passed

end Service

theorem OwnerSound.handOver (sound : OwnerSound owner) (due : owner.delivered < owner.published)
    {raises : Bool} (latest : Nat) {suspended : List Nat}
    (handed : Handed session owner raises (owner.delivered + 1) suspended change) :
    OwnerSound { owner with
      delivered := owner.delivered + 1
      latestCursor := latest
      suspended := suspended } := by
  have old : ∀ cursor ∈ owner.suspended, cursor ≤ owner.delivered + 1 := by
    intro cursor member
    have := sound.handed cursor member
    omega
  cases handed with
  | closed _ => exact ⟨sound.distinct, old, due⟩
  | dropped _ _ _ => exact ⟨sound.distinct, old, due⟩
  | queued _ _ => exact ⟨sound.distinct, old, due⟩
  | waits _ _ =>
    refine ⟨?_, ?_, due⟩
    · apply List.nodup_append.mpr
      refine ⟨sound.distinct, List.nodup_singleton _, ?_⟩
      intro cursor member other newest same
      have := sound.handed cursor member
      rw [List.mem_singleton] at newest
      omega
    · exact List.forall_mem_append.mpr ⟨old, fun _ new => Nat.le_of_eq (List.mem_singleton.mp new)⟩

/-- What a live attachment that is given an event keeps of it. -/
theorem Watches.pushed {id : String} (watches : Watches f id a session lowest) (bounds : Bounds f id a bound)
    (some : bound session = some lowest) (live : a.active = true)
    (stays : (a.push ⟨session, cursor⟩).active = true) :
    cursorsOf (f.seen id ++ (a.push ⟨session, cursor⟩).queue) session =
        cursorsOf (f.seen id ++ a.queue) session ∧ cursor ≤ lowest ∨
      cursorsOf (f.seen id ++ (a.push ⟨session, cursor⟩).queue) session =
        cursorsOf (f.seen id ++ a.queue) session ++ [cursor] ∧
        (a.memberCursors.isSome → lowest < cursor) := by
  rcases a.push_cases ⟨session, cursor⟩ with ⟨same, refused⟩ | lagged | ⟨admitted, item, isEvent, queued⟩
  · left
    have refused := refused live watches.named
    refine ⟨by rw [same], ?_⟩
    cases bounds with
    | returned cursors activated attached equal =>
      rw [equal] at some
      simp only [activated, Option.all_some, Attachment.above, some, decide_eq_false_iff_not] at refused
      omega
    | attaching call pending unread called going members awaits => simp [pending] at refused
  · rw [Attachment.active_iff, lagged] at stays
    exact absurd stays.2 (by simp)
  · right
    refine ⟨?_, fun activated => ?_⟩
    · have one : cursorsOf [item] session = [cursor] := by
        have self := cursorsOf_single_self item
        rw [isEvent] at self
        exact self
      simp only [queued, ← List.append_assoc, cursorsOf_append, one]
    · cases bounds with
      | returned cursors table attached equal =>
        rw [equal] at some
        simp only [table, Option.all_some, Attachment.above, some, decide_eq_true_eq] at admitted
        exact admitted
      | attaching call pending unread called going members awaits =>
        rw [pending] at activated
        cases activated

theorem Invariant.deliver (inv : Invariant f) {handling : Handling}
    (fits : StepFits f (.deliver session handling) = true) :
    Invariant { f with service := (f.service.deliver session handling).2 } := by
  by_cases due : (f.service.sessions session).delivered < (f.service.sessions session).published
  · obtain ⟨latest, suspended, change, delivered, handed⟩ := f.service.deliver_spec session handling due
    rw [delivered]
    have sound := (inv.owners session).handOver due latest handed
    unfold StepFits at fits
    simp only [Bool.or_eq_true, decide_eq_true_eq, Bool.not_eq_true', Bool.and_eq_true] at fits
    have spared : ∀ id a bound lowest, f.service.attachments id = some a → a.active = true →
        Bounds f id a bound → bound session = some lowest → Watches f id a session lowest →
        ∀ cursor ∈ (f.service.sessions session).suspended, cursor ≤ lowest := by
      intro id a bound lowest found live bounds some watched cursor member
      rcases fits with (late | closed) | ⟨waiting, -⟩
      · omega
      · rw [watched.accepting] at closed
        cases closed
      · exact bounds.le_of_spares found live some watched.listed (List.all_eq_true.mp waiting cursor member)
    have covered : ∀ id a bound lowest, f.service.attachments id = some a → a.active = true →
        Bounds f id a bound → bound session = some lowest → Watches f id a session lowest →
        (f.service.sessions session).delivered + 1 ≤ (f.service.sessions session).latestCursor ∨
          ((f.service.sessions session).hasHandler && decide (handling = .raises)) = true →
        (f.service.sessions session).delivered + 1 ≤ lowest := by
      intro id a bound lowest found live bounds some watched lost
      rcases fits with (late | closed) | ⟨-, ⟨fresh, returns⟩ | spares⟩
      · omega
      · rw [watched.accepting] at closed
        cases closed
      · rcases lost with passed | raises
        · omega
        · simp only [Bool.and_eq_true, decide_eq_true_eq] at raises
          simp [raises.1, raises.2] at returns
      · exact bounds.le_of_spares found live some watched.listed spares
    refine inv.revise rfl rfl (Nat.le_refl _) sound ?_ ?_
    · intro a active
      have quietly : change a = a → a.active = true ∧ (change a).memberCursors = a.memberCursors ∧
          (change a).memberIds = a.memberIds ∧ ∀ other, other ≠ session →
            cursorsOf (change a).queue other = cursorsOf a.queue other := by
        intro same
        rw [same] at active ⊢
        exact ⟨active, rfl, rfl, fun _ _ => rfl⟩
      cases handed with
      | closed _ => exact quietly rfl
      | dropped _ quiet _ => exact quietly (quiet a active)
      | waits _ quiet => exact quietly (quiet a active)
      | queued _ pushes =>
        have pushed := pushes a active
        rw [pushed] at active ⊢
        exact Attachment.active_of_push active
    · intro id a bound lowest found active bounds some watched
      obtain ⟨last, tracks⟩ := watched.tracks
      cases handed with
      | closed closed =>
        rw [watched.accepting] at closed
        cases closed
      | dropped _ quiet lost =>
        have same := quiet a active
        rw [same] at active ⊢
        exact ⟨⟨last, tracks.drop (covered id a bound lowest found active bounds some watched lost)⟩,
          watched.above⟩
      | waits _ quiet =>
        have same := quiet a active
        rw [same] at active ⊢
        exact ⟨⟨last, tracks.suspend (spared id a bound lowest found active bounds some watched)⟩,
          watched.above⟩
      | queued _ pushes =>
        have pushed := pushes a active
        rw [pushed] at active ⊢
        have live := (Attachment.active_of_push active).1
        have spared := spared id a bound lowest found live bounds some watched
        rcases watched.pushed bounds some live active with ⟨same, low⟩ | ⟨more, high⟩
        · rw [same]
          exact ⟨⟨last, tracks.drop low⟩, watched.above⟩
        · rw [more]
          refine ⟨⟨_, tracks.push spared⟩, fun activated cursor member => ?_⟩
          rcases List.mem_append.mp member with old | new
          · exact watched.above activated cursor old
          · rw [List.mem_singleton.mp new]
            exact high activated
  · unfold Service.deliver
    rw [if_neg due]
    exact inv

theorem Invariant.resume (inv : Invariant f) {raised : Bool}
    (fits : StepFits f (.resume session cursor raised) = true) :
    Invariant { f with service := (f.service.resume session cursor raised).2 } := by
  by_cases waits : cursor ∈ (f.service.sessions session).suspended
  · obtain ⟨change, resumed, kind⟩ := f.service.resume_spec session cursor raised waits
    have owner := inv.owners session
    rw [resumed]
    unfold StepFits at fits
    simp only [waits, not_true_eq_false, decide_false, Bool.false_or, Bool.or_eq_true, Bool.and_eq_true,
      Bool.not_eq_true', decide_eq_true_eq] at fits
    refine inv.revise rfl rfl (Nat.le_refl _) ?_ ?_ ?_
    · exact ⟨owner.distinct.erase cursor,
        fun other member => owner.handed other (List.mem_of_mem_erase member), owner.published⟩
    · intro a active
      rcases kind with ⟨rfl, -⟩ | rfl
      · exact ⟨active, rfl, rfl, fun _ _ => rfl⟩
      · exact Attachment.active_of_push active
    · intro id a bound lowest found active bounds some watched
      obtain ⟨last, tracks⟩ := watched.tracks
      rcases kind with ⟨rfl, lost⟩ | rfl
      · have covered : cursor ≤ lowest := by
          rcases fits with ⟨returns, latest⟩ | spares
          · rcases lost with raises | passed
            · rw [raises] at returns
              cases returns
            · omega
          · exact bounds.le_of_spares found active some watched.listed spares
        exact ⟨⟨last, tracks.wake_drop covered⟩, watched.above⟩
      · have live := (Attachment.active_of_push active).1
        rcases watched.pushed bounds some live active with ⟨same, low⟩ | ⟨more, high⟩
        · rw [same]
          exact ⟨⟨last, tracks.wake_drop low⟩, watched.above⟩
        · rw [more]
          refine ⟨⟨_, tracks.wake_push owner.distinct waits (owner.handed cursor waits)⟩,
            fun activated other member => ?_⟩
          rcases List.mem_append.mp member with old | new
          · exact watched.above activated other old
          · rw [List.mem_singleton.mp new]
            exact high activated
  · unfold Service.resume
    rw [if_neg waits]
    exact inv

/-- A session as the attachment `id` sees it, if it is registered there, stays as it is. -/
structure Carries (id : String) (before after : SessionOwner) : Prop where
  joined : id ∈ before.attachments → id ∈ after.attachments ∧ after.accepting = before.accepting ∧
    after.suspended = before.suspended ∧ after.delivered = before.delivered
  published : before.published ≤ after.published

theorem Carries.refl (id : String) (owner : SessionOwner) : Carries id owner owner :=
  ⟨fun member => ⟨member, rfl, rfl, rfl⟩, Nat.le_refl _⟩

theorem Live.frame {id : String} (live : Live f id a) (calls : g.service.calls id = f.service.calls id)
    (attached : g.attached id = f.attached id) (seen : g.seen id = f.seen id)
    (sessions : ∀ session, Carries id (f.service.sessions session) (g.service.sessions session)) :
    Live g id a := by
  rcases live with ⟨call, called, failed⟩ | ⟨bound, bounds, watches⟩
  · exact .inl ⟨call, calls.trans called, failed⟩
  · refine .inr ⟨bound, ?_, fun session lowest some => ?_⟩
    · exact bounds.frame rfl calls attached (fun unread => seen.trans unread)
        fun session => (sessions session).published
    · have watched := watches session lowest some
      obtain ⟨listed, accepting, suspended, delivered⟩ := (sessions session).joined watched.listed
      exact watched.frame (fun _ => listed) accepting suspended delivered rfl rfl (by rw [seen])

theorem Invariant.setOwner (inv : Invariant f)
    (listed : owner.attachments = (f.service.sessions session).attachments)
    (accepting : owner.accepting = (f.service.sessions session).accepting)
    (suspended : owner.suspended = (f.service.sessions session).suspended)
    (delivered : owner.delivered = (f.service.sessions session).delivered)
    (published : (f.service.sessions session).published ≤ owner.published) :
    Invariant { f with service := f.service.setSession session owner } := by
  have sound := inv.owners session
  rw [← Service.revise_id]
  refine inv.revise listed accepting published ?_ (fun a active => ⟨active, rfl, rfl, fun _ _ => rfl⟩) ?_
  · refine ⟨?_, ?_, ?_⟩
    · rw [suspended]
      exact sound.distinct
    · rw [suspended, delivered]
      exact sound.handed
    · rw [delivered]
      exact Nat.le_trans sound.published published
  · intro id a bound lowest _ _ _ _ watched
    rw [suspended, delivered]
    exact ⟨watched.tracks, watched.above⟩

theorem Invariant.publish (inv : Invariant f) (session : String) :
    Invariant { f with service := (f.service.step (.publish session)).2 } :=
  inv.setOwner rfl rfl rfl rfl (Nat.le_succ _)

theorem Invariant.raiseLatest (inv : Invariant f) (session : String) (cursor : Nat) :
    Invariant { f with service := f.service.raiseLatest session cursor } :=
  inv.setOwner rfl rfl rfl rfl (Nat.le_refl _)

theorem Invariant.invalidateAttachments (inv : Invariant f) (session : String) :
    Invariant { f with service := f.service.invalidateAttachments session } := by
  rw [Service.invalidateAttachments_eq]
  refine inv.revise rfl rfl (Nat.le_refl _) (inv.owners session) ?_ ?_
  · intro a active
    rw [a.not_active_invalidate] at active
    cases active
  · intro id a _ _ _ active
    rw [a.not_active_invalidate] at active
    cases active

theorem Invariant.foreign (inv : Invariant f) {event : SessionEvent} (foreign : event.sessionId ≠ session)
    (handling : Handling) : Invariant { f with service := f.service.onEvent session event handling } := by
  unfold Service.onEvent
  dsimp only
  split
  · exact inv
  · exact inv.invalidateAttachments session

/-- A change of the attachments `changed`, of which no live one is left behind, keeps the invariant. -/
theorem Invariant.rework (inv : Invariant f) (changed : String → Prop)
    (attached : ∀ id, ¬changed id → g.attached id = f.attached id)
    (seen : ∀ id, ¬changed id → g.seen id = f.seen id)
    (calls : ∀ id, ¬changed id → g.service.calls id = f.service.calls id)
    (attachments : ∀ id, ¬changed id → g.service.attachments id = f.service.attachments id)
    (owners : ∀ session, OwnerSound (g.service.sessions session)) (sessions : ∀ id, ¬changed id → ∀ session,
      Carries id (f.service.sessions session) (g.service.sessions session)) (here : ∀ id, changed id →
      ((g.attached id).isSome → (g.service.attachments id).isSome) ∧
      ((g.service.calls id).isSome → g.attached id = none) ∧
      (g.attached id = none → g.seen id = []) ∧
      (∀ cursors session bound, g.attached id = some cursors → cursors.get? session = some bound →
        ∃ count, cursorsOf (g.seen id) session = List.range' (bound + 1) count) ∧
      ∀ a, g.service.attachments id = some a → a.active = true → Live g id a) : Invariant g := by
  refine ⟨owners, ?_, ?_, ?_, ?_, ?_⟩
  · intro id
    by_cases mine : changed id
    · exact (here id mine).1
    · rw [attached id mine, attachments id mine]
      exact inv.made id
  · intro id
    by_cases mine : changed id
    · exact (here id mine).2.1
    · rw [attached id mine, calls id mine]
      exact inv.pending id
  · intro id
    by_cases mine : changed id
    · exact (here id mine).2.2.1
    · rw [attached id mine, seen id mine]
      exact inv.unseen id
  · intro id
    by_cases mine : changed id
    · exact (here id mine).2.2.2.1
    · rw [attached id mine, seen id mine]
      exact inv.inOrder id
  · intro id a found active
    by_cases mine : changed id
    · exact (here id mine).2.2.2.2 a found active
    · rw [attachments id mine] at found
      exact (inv.live id a found active).frame (calls id mine) (attached id mine) (seen id mine)
        (sessions id mine)

variable {w : Service}

/-- The same where the clients are given nothing. -/
theorem Invariant.reworkService (inv : Invariant f) (changed : String → Prop)
    (calls : ∀ id, ¬changed id → w.calls id = f.service.calls id)
    (attachments : ∀ id, ¬changed id → w.attachments id = f.service.attachments id)
    (owners : ∀ session, OwnerSound (w.sessions session)) (sessions : ∀ id, ¬changed id → ∀ session,
      Carries id (f.service.sessions session) (w.sessions session))
    (made : ∀ id, changed id → (f.attached id).isSome → (w.attachments id).isSome)
    (pending : ∀ id, changed id → (w.calls id).isSome → f.attached id = none)
    (live : ∀ id, changed id → ∀ a, w.attachments id = some a → a.active = true →
      Live { f with service := w } id a) : Invariant { f with service := w } :=
  inv.rework changed (fun _ _ => rfl) (fun _ _ => rfl) calls attachments owners sessions
    fun id mine => ⟨made id mine, pending id mine, inv.unseen id,
      fun cursors session bound => inv.inOrder id cursors session bound, live id mine⟩

theorem Invariant.closeSession (inv : Invariant f) (session : String) :
    Invariant { f with service := f.service.closeSession session } := by
  unfold Service.closeSession
  dsimp only
  split
  · have sessions : ∀ other, ((f.service.invalidateAttachments session).setSession session
        { f.service.sessions session with accepting := false, attachments := [] }).sessions other =
        if other = session then { f.service.sessions session with accepting := false, attachments := [] }
        else f.service.sessions other := by
      intro other
      by_cases same : other = session
      · subst same
        simp [Service.setSession]
      · simp [Service.setSession, Service.invalidateAttachments, Service.mapAttachments, same]
    refine inv.reworkService (fun id => id ∈ (f.service.sessions session).attachments) (fun _ _ => rfl)
      (fun id other => if_neg other) ?_ ?_ ?_ (fun id _ => inv.pending id) ?_
    · intro other
      rw [sessions]
      split
      · exact ⟨(inv.owners session).distinct, (inv.owners session).handed, (inv.owners session).published⟩
      · exact inv.owners other
    · intro id absent other
      rw [sessions]
      split
      · rename_i same
        rw [same]
        exact ⟨fun member => absurd member absent, Nat.le_refl _⟩
      · exact Carries.refl _ _
    · intro id member shown
      have made := inv.made id shown
      change (if id ∈ _ then (f.service.attachments id).map _ else _).isSome = true
      rw [if_pos member, Option.isSome_map]
      exact made
    · intro id member a found active
      change (if id ∈ _ then (f.service.attachments id).map _ else _) = some a at found
      rw [if_pos member] at found
      obtain ⟨before, -, dead⟩ := Option.map_eq_some_iff.mp found
      rw [← dead, before.not_active_invalidate] at active
      cases active
  · exact inv

/-- `_settle_attachments` and the tables that forget the attachments. -/
theorem Invariant.settle (inv : Invariant f) {ids : List String} {members : List Member}
    (sessions : w.sessions = f.service.sessions) (attachments : w.attachments = f.service.attachments)
    (calls : w.calls = f.service.calls) :
    Invariant { f with service := w.settleAttachments ids members } := by
  have owner : ∀ session, (w.settleAttachments ids members).sessions session =
      if session ∈ members.map Member.sessionId then
        { f.service.sessions session with
          attachments := (f.service.sessions session).attachments.filter fun id => id ∉ ids }
      else f.service.sessions session := by
    intro session
    rw [← sessions]
    rfl
  have found : ∀ id, (w.settleAttachments ids members).attachments id =
      if id ∈ ids then (f.service.attachments id).map Attachment.settle else f.service.attachments id := by
    intro id
    rw [← attachments]
    rfl
  refine inv.reworkService (fun id => id ∈ ids) (fun id _ => congrFun calls id) ?_ ?_ ?_ ?_ ?_ ?_
  · intro id other
    rw [found, if_neg other]
  · intro session
    rw [owner]
    split
    · exact ⟨(inv.owners session).distinct, (inv.owners session).handed, (inv.owners session).published⟩
    · exact inv.owners session
  · intro id other session
    rw [owner]
    split
    · refine ⟨fun member => ⟨?_, rfl, rfl, rfl⟩, Nat.le_refl _⟩
      exact List.mem_filter.mpr ⟨member, by simpa using other⟩
    · exact Carries.refl _ _
  · intro id mine shown
    rw [found, if_pos mine, Option.isSome_map]
    exact inv.made id shown
  · intro id _ called
    exact inv.pending id (by rw [← calls]; exact called)
  · intro id mine a live active
    rw [found, if_pos mine] at live
    obtain ⟨before, -, settled⟩ := Option.map_eq_some_iff.mp live
    rw [← settled] at active
    simp [Attachment.active, Attachment.settle] at active

/-- One attach goes on, with everything else as it was. -/
theorem Invariant.setCall (inv : Invariant f) {id : String} {call : Option AttachCall}
    (was : (f.service.calls id).isSome) (live : ∀ a, f.service.attachments id = some a → a.active = true →
      Live { f with service := f.service.setCall id call } id a) :
    Invariant { f with service := f.service.setCall id call } := by
  refine inv.reworkService (fun other => other = id) ?_ (fun _ _ => rfl) inv.owners
    (fun _ _ _ => Carries.refl _ _) (fun other _ => inv.made other) ?_ ?_
  · intro other different
    simp [Service.setCall, different]
  · rintro other rfl _
    exact inv.pending other was
  · rintro other rfl
    exact live

theorem Service.calls_setCall (w : Service) (id : String) (call : Option AttachCall) :
    (w.setCall id call).calls id = call := by
  simp [setCall]

variable {call : AttachCall}

theorem Invariant.fail (inv : Invariant f) {id : String} {code : AppErrorCode}
    (was : f.service.calls id = some call) :
    Invariant { f with service := (f.service.fail id call code).2 } := by
  refine inv.setCall (by rw [was]; rfl) fun a _ _ => .inl ⟨{ call with failed := true }, ?_, rfl⟩
  exact f.service.calls_setCall id _

/-- A live attachment whose attach goes on has a bound for each member. -/
theorem Invariant.attaching (inv : Invariant f) {id : String} (was : f.service.calls id = some call)
    (going : call.failed = false) (found : f.service.attachments id = some a) (active : a.active = true) :
    ∃ bound : String → Option Nat, a.memberCursors = none ∧ f.seen id = [] ∧
      (∀ member ∈ call.members, (bound member.sessionId).isSome) ∧
      (∀ session lowest, bound session = some lowest →
        AwaitsFrom (call.progress session) (f.service.sessions session).published lowest) ∧
      ∀ session lowest, bound session = some lowest → Watches f id a session lowest := by
  rcases inv.live id a found active with ⟨failed, called, isFailed⟩ | ⟨bound, bounds, watches⟩
  · rw [was] at called
    cases called
    rw [going] at isFailed
    cases isFailed
  · cases bounds with
    | returned cursors activated attached same =>
      have none := inv.pending id (by rw [was]; rfl)
      rw [none] at attached
      cases attached
    | attaching other pending unread called _ members awaits =>
      rw [was] at called
      cases called
      exact ⟨bound, pending, unread, members, awaits, watches⟩

theorem Watches.sameService {id : String} (watches : Watches f id a session lowest)
    (sessions : w.sessions session = f.service.sessions session) :
    Watches { f with service := w } id a session lowest :=
  watches.frame (fun member => by rw [sessions]; exact member) (congrArg _ sessions) (congrArg _ sessions)
    (congrArg _ sessions) rfl rfl rfl

theorem Invariant.askMember (inv : Invariant f) (id session : String) :
    Invariant { f with service := (f.service.askMember id session).2 } := by
  unfold Service.askMember
  cases was : f.service.calls id with
  | none => exact inv
  | some call =>
    dsimp only
    split
    · exact inv
    · rename_i ready
      simp only [not_or, not_not] at ready
      obtain ⟨going, -, unasked⟩ := ready
      split
      · exact inv.fail was
      · refine inv.setCall (by rw [was]; rfl) fun a found active => ?_
        obtain ⟨bound, pending, unread, members, awaits, watches⟩ :=
          inv.attaching was (by simpa using going) found active
        refine .inr ⟨bound, ?_, fun other lowest some => (watches other lowest some).sameService rfl⟩
        refine .attaching _ pending unread (f.service.calls_setCall id _) (by simpa using going) members ?_
        intro other lowest some
        have awaited := awaits other lowest some
        by_cases same : other = session
        · subst same
          rw [unasked] at awaited
          simp only [Function.update_self]
          exact awaited
        · simp only [Function.update_of_ne same]
          exact awaited

theorem Invariant.answerMember (inv : Invariant f) (id session : String) (cursor : Option Nat) :
    Invariant { f with service := (f.service.answerMember id session cursor).2 } := by
  unfold Service.answerMember
  cases was : f.service.calls id with
  | none => exact inv
  | some call =>
    dsimp only
    split
    · exact inv.fail was
    · rename_i floor cursor progress
      split
      · rename_i fits
        have raised := inv.raiseLatest session cursor
        have called : (f.service.raiseLatest session cursor).calls id = some call := was
        refine raised.setCall (Option.isSome_of_mem called) fun a found active => ?_
        by_cases going : call.failed = true
        · exact .inl ⟨_, Service.calls_setCall _ id _, going⟩
        · have going : call.failed = false := by simpa using going
          obtain ⟨bound, pending, unread, members, awaits, watches⟩ :=
            raised.attaching called going found active
          obtain ⟨higher, here, elsewhere⟩ : ∃ higher : String → Option Nat,
              higher session = (bound session).map (fun _ => cursor) ∧
              ∀ other, other ≠ session → higher other = bound other :=
            ⟨fun other => if other = session then (bound session).map fun _ => cursor else bound other,
              if_pos rfl, fun _ different => if_neg different⟩
          refine .inr ⟨higher, ?_, ?_⟩
          · refine .attaching _ pending unread (Service.calls_setCall _ id _) going ?_ ?_
            · intro member listed
              have some := members member listed
              by_cases same : member.sessionId = session
              · rw [same] at some ⊢
                rw [here, Option.isSome_map]
                exact some
              · rw [elsewhere _ same]
                exact some
            · intro other lowest some
              by_cases same : other = session
              · subst same
                rw [here] at some
                obtain ⟨_, _, equal⟩ := Option.map_eq_some_iff.mp some
                simp only [Function.update_self]
                exact equal.symm
              · rw [elsewhere _ same] at some
                simp only [Function.update_of_ne same]
                exact awaits other lowest some
          · intro other lowest some
            by_cases same : other = session
            · subst same
              rw [here] at some
              obtain ⟨before, old, equal⟩ := Option.map_eq_some_iff.mp some
              subst equal
              have watched := watches other before old
              have awaited := awaits other before old
              rw [progress] at awaited
              obtain ⟨last, tracks⟩ := watched.tracks
              refine ⟨watched.listed, watched.accepting, watched.named,
                ⟨_, tracks.raise (Nat.le_trans awaited fits.1)⟩, ?_⟩
              rw [pending]
              intro activated
              cases activated
            · rw [elsewhere _ same] at some
              exact (watches other lowest some).sameService rfl
      · exact inv
    · exact inv

/-- A new attachment, the ids of the session it joins and everything else untouched. -/
structure Joins (id : String) (members : List Member) (before after : Service) : Prop where
  muxes : after.muxes = before.muxes
  registered : after.registered = before.registered
  calls : after.calls = before.calls
  others : ∀ other, other ≠ id → after.attachments other = before.attachments other
  sessions : ∀ session, ∃ ids, after.sessions session = { before.sessions session with attachments := ids } ∧
    ∀ other ∈ (before.sessions session).attachments, other ∈ ids

theorem addAttachments_spec {id : String} {members : List Member} {a : Attachment} {w : Service}
    (found : w.attachments id = some a) :
    Joins id members w (Service.addAttachments id members a w).2 ∧
      ∃ b, (Service.addAttachments id members a w).2.attachments id = some b ∧ b.queue = a.queue ∧
        b.memberCursors = a.memberCursors ∧
        (∀ session, (a.memberIds.get? session).isSome → (b.memberIds.get? session).isSome) ∧
        ((Service.addAttachments id members a w).1 = none → ∀ member ∈ members,
          id ∈ ((Service.addAttachments id members a w).2.sessions member.sessionId).attachments ∧
          (w.sessions member.sessionId).accepting = true ∧
          (b.memberIds.get? member.sessionId).isSome) := by
  induction members generalizing a w with
  | nil =>
    exact ⟨⟨rfl, rfl, rfl, fun _ _ => rfl, fun _ => ⟨_, rfl, fun _ member => member⟩⟩,
      a, found, rfl, rfl, fun _ named => named, fun _ _ member => by cases member⟩
  | cons member rest ih =>
    unfold Service.addAttachments
    split
    · exact ⟨⟨rfl, rfl, rfl, fun _ _ => rfl, fun _ => ⟨_, rfl, fun _ member => member⟩⟩,
        a, found, rfl, rfl, fun _ named => named, fun none => by cases none⟩
    · rename_i accepting
      have added : (w.addAttachment id a member).attachments id =
          some (a.bindMember member.sessionId member.memberId) := by
        simp [Service.addAttachment, Service.setAttachment]
      have sessions : ∀ session, ∃ ids, (w.addAttachment id a member).sessions session =
          { w.sessions session with attachments := ids } ∧
          (∀ other ∈ (w.sessions session).attachments, other ∈ ids) ∧
          (session = member.sessionId → id ∈ ids) := by
        intro session
        by_cases same : session = member.sessionId
        · subst same
          refine ⟨_, by simp [Service.addAttachment, Service.setAttachment, Service.setSession]; rfl, ?_, ?_⟩
          · intro other listed
            split
            · exact listed
            · exact List.mem_append_left _ listed
          · intro _
            split
            · assumption
            · simp
        · refine ⟨(w.sessions session).attachments, ?_, fun _ listed => listed, fun equal => absurd equal same⟩
          simp [Service.addAttachment, Service.setAttachment, Service.setSession, same]
      obtain ⟨joins, b, atId, queue, cursors, names, all⟩ := ih added
      refine ⟨⟨joins.muxes, joins.registered, joins.calls, ?_, ?_⟩, b, atId, queue, cursors, ?_, ?_⟩
      · intro other different
        rw [joins.others other different]
        simp [Service.addAttachment, Service.setAttachment, Service.setSession, different]
      · intro session
        obtain ⟨ids, first, kept, -⟩ := sessions session
        obtain ⟨more, second, kept'⟩ := joins.sessions session
        rw [first] at second kept'
        exact ⟨more, second, fun other listed => kept' other (kept other listed)⟩
      · intro session named
        refine names session ?_
        unfold Attachment.bindMember
        rw [Dict.get?_set]
        split
        · rfl
        · exact named
      · intro success other listed
        have inRest := all success
        have ownNames : (b.memberIds.get? member.sessionId).isSome := by
          refine names _ ?_
          unfold Attachment.bindMember
          rw [Dict.get?_set_self]
          rfl
        rcases List.mem_cons.mp listed with rfl | later
        · obtain ⟨ids, first, -, joined⟩ := sessions other.sessionId
          obtain ⟨more, second, kept⟩ := joins.sessions other.sessionId
          rw [first] at second kept
          refine ⟨?_, by simpa using accepting, ownNames⟩
          rw [second]
          exact kept id (joined rfl)
        · obtain ⟨joined, accepts, named⟩ := inRest other later
          obtain ⟨ids, first, -⟩ := sessions other.sessionId
          rw [first] at accepts
          exact ⟨joined, accepts, named⟩

theorem Invariant.attach (inv : Invariant f) (id mux : String) (capacity : Nat) :
    Invariant { f with service := (f.service.attach id mux capacity).2 } := by
  unfold Service.attach
  split
  · exact inv
  · rename_i fresh
    dsimp only
    split
    · exact inv
    · have unmade : f.service.attachments id = none := by simpa using fresh
      have unattached : f.attached id = none := by
        cases shown : f.attached id with
        | none => rfl
        | some _ =>
          have made := inv.made id (by rw [shown]; rfl)
          rw [unmade] at made
          cases made
      obtain ⟨a, isNew⟩ : ∃ a, a = (⟨id, mux, (f.service.muxes mux).nextGeneration + 1, capacity, [],
        Dict.empty, none, false, false⟩ : Attachment) := ⟨_, rfl⟩
      rw [← isNew]
      obtain ⟨w, isListed⟩ : ∃ w : Service, w = { ((f.service.setMux mux { f.service.muxes mux with
          nextGeneration := (f.service.muxes mux).nextGeneration + 1
          attachments := (f.service.muxes mux).attachments ++ [id] }).setAttachment id a) with
          registered := f.service.registered ++ [id] } := ⟨_, rfl⟩
      rw [← isListed]
      have atId : w.attachments id = some a := by simp [isListed, Service.setAttachment]
      have elsewhere : ∀ other, other ≠ id → w.attachments other = f.service.attachments other := by
        intro other different
        simp [isListed, Service.setAttachment, Service.setMux, different]
      have sameSessions : w.sessions = f.service.sessions := by
        rw [isListed]
        rfl
      have sameCalls : w.calls = f.service.calls := by
        rw [isListed]
        rfl
      obtain ⟨joins, b, found, queue, cursors, -, all⟩ :=
        @addAttachments_spec id (f.service.muxes mux).members a w atId
      have owner : ∀ session, ∃ ids,
          (Service.addAttachments id (f.service.muxes mux).members a w).2.sessions session =
            { f.service.sessions session with attachments := ids } ∧
          ∀ other ∈ (f.service.sessions session).attachments, other ∈ ids := by
        rw [← sameSessions]
        exact joins.sessions
      refine inv.reworkService (fun other => other = id) ?_ ?_ ?_ ?_ ?_ ?_ ?_
      · intro other different
        simp [Service.setCall, different, joins.calls, sameCalls]
      · intro other different
        exact (joins.others other different).trans (elsewhere other different)
      · intro session
        obtain ⟨ids, same, -⟩ := owner session
        have sound := inv.owners session
        change OwnerSound ((Service.addAttachments id _ a w).2.sessions session)
        rw [same]
        exact ⟨sound.distinct, sound.handed, sound.published⟩
      · intro other _ session
        obtain ⟨ids, same, kept⟩ := owner session
        change Carries other _ ((Service.addAttachments id _ a w).2.sessions session)
        rw [same]
        exact ⟨fun member => ⟨kept other member, rfl, rfl, rfl⟩, Nat.le_refl _⟩
      · rintro other rfl shown
        rw [unattached] at shown
        cases shown
      · rintro other rfl _
        exact unattached
      · rintro other rfl c isC _
        change (Service.addAttachments other _ a w).2.attachments other = some c at isC
        rw [found] at isC
        cases isC
        cases joined : (Service.addAttachments other (f.service.muxes mux).members a w).1 with
        | some code =>
          exact .inl ⟨_, Service.calls_setCall _ other _, rfl⟩
        | none =>
          have all := all joined
          refine .inr ⟨fun session =>
            if session ∈ (f.service.muxes mux).members.map Member.sessionId then
              some (f.service.sessions session).published else none, ?_, ?_⟩
          · refine .attaching _ (cursors.trans (by rw [isNew])) (inv.unseen other unattached)
              (Service.calls_setCall _ other _) rfl ?_ ?_
            · intro member listed
              rw [if_pos (List.mem_map_of_mem listed)]
              rfl
            · intro session lowest bounded
              obtain ⟨ids, same, -⟩ := owner session
              split at bounded
              · cases bounded
                change _ ≤ ((Service.addAttachments other _ a w).2.sessions session).published
                rw [same]
              · cases bounded
          · intro session lowest bounded
            obtain ⟨listed, bounded⟩ := Option.ite_none_right_eq_some.mp bounded
            cases bounded
            obtain ⟨member, belongs, named⟩ := List.mem_map.mp listed
            obtain ⟨joinedThere, accepts, hasName⟩ := all member belongs
            obtain ⟨ids, same, -⟩ := owner session
            have sound := inv.owners session
            rw [named] at joinedThere accepts hasName
            rw [sameSessions] at accepts
            have none : cursorsOf (f.seen other ++ b.queue) session = [] := by
              rw [inv.unseen other unattached, queue, isNew]
              rfl
            refine ⟨joinedThere, ?_, hasName, ⟨(f.service.sessions session).published, ?_⟩, ?_⟩
            · change ((Service.addAttachments other _ a w).2.sessions session).accepting = true
              rw [same]
              exact accepts
            · change Tracks _ _ _ ((Service.addAttachments other _ a w).2.sessions session).suspended
                ((Service.addAttachments other _ a w).2.sessions session).delivered
              rw [same, none]
              exact Tracks.start sound.published sound.handed
            · rw [cursors, isNew]
              intro activated
              cases activated

theorem Invariant.changeMembers (inv : Invariant f) (mux : String) (members : List Member) (closed : Bool) :
    Invariant { f with service := f.service.changeMembers mux members closed } := by
  unfold Service.changeMembers
  dsimp only
  split
  · exact inv
  · exact inv.settle rfl rfl rfl

theorem Invariant.detach (inv : Invariant f) (id : String) (generation : Nat) :
    Invariant { f with service := (f.service.detach id generation).2 } := by
  unfold Service.detach
  cases f.service.attachments id with
  | none => exact inv
  | some a =>
    dsimp only
    split
    · exact inv
    · exact inv.settle rfl rfl rfl

theorem Invariant.discardAttach (inv : Invariant f) (id : String) :
    Invariant { f with service := (f.service.discardAttach id).2 } := by
  unfold Service.discardAttach
  cases was : f.service.calls id with
  | none => exact inv
  | some call =>
    have settled : Invariant { f with service :=
        (f.service.forget call.mux id).settleAttachments [id] call.members } := inv.settle rfl rfl rfl
    refine settled.setCall (Option.isSome_of_mem was) fun a found active => ?_
    change (if id ∈ [id] then (f.service.attachments id).map Attachment.settle else _) = some a at found
    rw [if_pos (List.mem_singleton_self id)] at found
    obtain ⟨before, -, dead⟩ := Option.map_eq_some_iff.mp found
    rw [← dead] at active
    simp [Attachment.active, Attachment.settle] at active

theorem Attachment.foldl_put (items : List AttachmentEvent) (a : Attachment) :
    (items.foldl put a).lagged = true ∨ items.foldl put a = { a with queue := a.queue ++ items } := by
  have stays : ∀ (rest : List AttachmentEvent) (b : Attachment), b.lagged = true →
      (rest.foldl put b).lagged = true := by
    intro rest
    induction rest with
    | nil => exact fun b lagged => lagged
    | cons item rest ih =>
      intro b lagged
      refine ih (b.put item) ?_
      unfold put
      split
      · rfl
      · exact lagged
  induction items generalizing a with
  | nil => exact .inr (by simp)
  | cons item rest ih =>
    rw [List.foldl_cons]
    rcases a.put_cases item with lagged | queued
    · exact .inl (stays rest _ lagged)
    · rw [queued]
      rcases ih { a with queue := a.queue ++ [item] } with lagged | same
      · exact .inl lagged
      · exact .inr (by rw [same, List.append_assoc]; rfl)

variable {snapshots : List (String × Nat)}

theorem Attachment.activate_spec {u : Unit} (activated : a.activate snapshots = (.ok u, b)) :
    a.active = true ∧ b = { a with
      memberCursors := some (Dict.empty.update snapshots)
      queue := a.queue.filter fun item => above (Dict.empty.update snapshots) item.event } := by
  unfold activate at activated
  split at activated
  · cases activated
  · rename_i live
    dsimp only at activated
    split at activated
    · cases activated
    · rename_i fits
      cases activated
      refine ⟨by simpa [active] using live, ?_⟩
      rcases foldl_put (a.queue.filter fun item => above (Dict.empty.update snapshots) item.event)
        { a with memberCursors := some (Dict.empty.update snapshots), queue := [] } with lagged | same
      · exact absurd lagged fits
      · exact same

theorem exists_of_mem_mapM {A B : Type} {f : A → Option B} {items : List A} {out : List B}
    (mapped : items.mapM f = some out) {b : B} (member : b ∈ out) : ∃ a ∈ items, f a = some b := by
  induction items generalizing out with
  | nil =>
    rw [List.mapM_nil] at mapped
    cases mapped
    cases member
  | cons a rest ih =>
    rw [List.mapM_cons] at mapped
    obtain ⟨first, isFirst, mapped⟩ := Option.bind_eq_some_iff.mp mapped
    obtain ⟨more, isMore, mapped⟩ := Option.bind_eq_some_iff.mp mapped
    cases mapped
    rcases List.mem_cons.mp member with rfl | later
    · exact ⟨a, List.mem_cons_self, isFirst⟩
    · obtain ⟨c, listed, isIt⟩ := ih isMore later
      exact ⟨c, List.mem_cons_of_mem _ listed, isIt⟩

/-- The snapshot of a member is the one its session answered. -/
theorem AttachCall.answered_of_snapshots (ready : call.snapshots? = some snapshots)
    (found : (Dict.empty.update snapshots).get? session = some cursor) :
    (∃ member ∈ call.members, member.sessionId = session) ∧
      call.progress session = .answered cursor := by
  have listed : (session, cursor) ∈ snapshots := by
    rcases Dict.get?_update_cases found with none | listed
    · cases none
    · exact listed
  obtain ⟨member, belongs, answer⟩ := exists_of_mem_mapM ready listed
  obtain ⟨value, answered, pair⟩ := Option.map_eq_some_iff.mp answer
  cases pair
  refine ⟨⟨member, belongs, rfl⟩, ?_⟩
  cases progress : call.progress member.sessionId with
  | unasked => simp [progress, Progress.cursor?] at answered
  | asked floor => simp [progress, Progress.cursor?] at answered
  | answered value =>
    simp only [progress, Progress.cursor?, Option.some.injEq] at answered
    rw [answered]

variable {cursors : Dict String Nat}

theorem cursorsOf_filter_above (items : List AttachmentEvent) {bound : Nat}
    (found : cursors.get? session = some bound) :
    cursorsOf (items.filter fun item => Attachment.above cursors item.event) session =
      (cursorsOf items session).filter fun cursor => bound < cursor := by
  induction items with
  | nil => rfl
  | cons item rest ih =>
    rw [show item :: rest = [item] ++ rest from rfl, List.filter_append, cursorsOf_append, cursorsOf_append,
      List.filter_append, ih]
    congr 1
    by_cases same : item.event.sessionId = session
    · have one : cursorsOf [item] session = [item.event.cursor] := by
        rw [← same]
        exact cursorsOf_single_self item
      by_cases high : bound < item.event.cursor
      · simp [Attachment.above, same, found, high, one]
      · simp [Attachment.above, same, found, high, cursorsOf]
    · have none : cursorsOf [item] session = [] := cursorsOf_single_of_ne same
      rw [none]
      by_cases kept : Attachment.above cursors item.event
      · simp [kept, none]
      · simp [kept, cursorsOf]

theorem Invariant.finishAttach (inv : Invariant f) (id : String) :
    Invariant ({ f with service := (f.service.finishAttach id).2 }.observe (f.service.finishAttach id).1) := by
  unfold Service.finishAttach
  cases was : f.service.calls id with
  | none => exact inv
  | some call =>
    dsimp only
    split
    · exact inv
    · rename_i going
      have going : call.failed = false := by simpa using going
      split
      · rename_i snapshots a ready found
        split
        · exact inv.fail was
        · split
          · refine inv.reworkService (fun other => other = id) ?_ ?_ inv.owners
              (fun _ _ _ => Carries.refl _ _) ?_ ?_ ?_
            · intro other different
              simp [Service.fail, Service.setCall, Service.setAttachment, different]
            · intro other different
              simp [Service.fail, Service.setCall, Service.setAttachment, different]
            · rintro other rfl _
              simp [Service.fail, Service.setCall, Service.setAttachment]
            · rintro other rfl _
              exact inv.pending other (by rw [was]; rfl)
            · rintro other rfl c _ _
              exact .inl ⟨_, Service.calls_setCall _ other _, rfl⟩
          · rename_i u b activated
            obtain ⟨live, isB⟩ := Attachment.activate_spec activated
            obtain ⟨bound, pending, unread, members, awaits, watches⟩ := inv.attaching was going found live
            refine inv.rework (fun other => other = id) ?_ (fun _ _ => rfl) ?_ ?_ inv.owners
              (fun _ _ _ => Carries.refl _ _) ?_
            · intro other different
              simp [Feed.observe, different]
            · intro other different
              simp [Feed.observe, Service.setCall, Service.setAttachment, different]
            · intro other different
              simp [Feed.observe, Service.setCall, Service.setAttachment, different]
            · rintro other rfl
              have attached : (Feed.observe { f with service :=
                  (f.service.setAttachment other b).setCall other none } (.attached other snapshots)).attached
                  other = some (Dict.empty.update snapshots) := by simp [Feed.observe]
              refine ⟨?_, ?_, ?_, ?_, ?_⟩
              · intro _
                simp [Feed.observe, Service.setCall, Service.setAttachment]
              · intro called
                simp [Feed.observe, Service.setCall] at called
              · intro none
                rw [attached] at none
                cases none
              · intro cursors session lowest _ _
                refine ⟨0, ?_⟩
                change cursorsOf (f.seen other) session = []
                rw [unread]
                rfl
              · intro c isC _
                have isC : c = b := by
                  simpa [Feed.observe, Service.setCall, Service.setAttachment] using isC.symm
                subst isC
                refine .inr ⟨(Dict.empty.update snapshots).get?, ?_, ?_⟩
                · exact .returned _ (by rw [isB]) attached fun _ => rfl
                · intro session lowest some
                  obtain ⟨⟨member, belongs, named⟩, answered⟩ := AttachCall.answered_of_snapshots ready some
                  obtain ⟨before, hasBound⟩ := Option.isSome_iff_exists.mp (members member belongs)
                  rw [named] at hasBound
                  have awaited := awaits session before hasBound
                  rw [answered] at awaited
                  have watched := watches session before hasBound
                  rw [show before = lowest from awaited] at watched
                  have kept : cursorsOf (f.seen other ++ c.queue) session =
                      (cursorsOf (f.seen other ++ a.queue) session).filter fun cursor => lowest < cursor := by
                    rw [unread, isB]
                    exact cursorsOf_filter_above a.queue some
                  obtain ⟨last, tracks⟩ := watched.tracks
                  refine ⟨watched.listed, watched.accepting, ?_, ⟨last, ?_⟩, ?_⟩
                  · rw [isB]
                    exact watched.named
                  · change Tracks lowest last (cursorsOf (f.seen other ++ c.queue) session) _ _
                    refine { tracks with kept := ?_ }
                    rw [kept, List.filter_filter]
                    simp only [Bool.and_self]
                    exact tracks.kept
                  · intro _ cursor member
                    change cursor ∈ cursorsOf (f.seen other ++ c.queue) session at member
                    rw [kept] at member
                    simpa using (List.mem_filter.mp member).2
      · exact inv

/-- A read raises and changes nothing, or takes the front of a live attachment's queue. -/
theorem Service.read_cases (w : Service) (id : String) (generation limit : Nat) :
    (∃ code, w.read id generation limit = (.raised code, w)) ∨
      ∃ a, w.attachments id = some a ∧ a.active = true ∧ w.read id generation limit =
        (.events id (a.queue.take limit), w.setAttachment id { a with queue := a.queue.drop limit }) := by
  unfold Service.read
  split
  · exact .inl ⟨_, rfl⟩
  · cases found : w.attachments id with
    | none => exact .inl ⟨_, rfl⟩
    | some a =>
      dsimp only
      split
      · exact .inl ⟨_, rfl⟩
      · split
        · exact .inl ⟨_, rfl⟩
        · rename_i current
          have live : a.active = true := by
            simp only [not_or, Bool.not_eq_true, Bool.not_eq_false'] at current
            exact current.2
          obtain ⟨settled, lagged⟩ := (Attachment.active_iff a).mp live
          have answer : a.read limit = (.ok (a.queue.take limit), { a with queue := a.queue.drop limit }) := by
            simp [Attachment.read, settled, lagged]
          refine .inr ⟨a, rfl, live, ?_⟩
          rw [answer]

/-- A live attachment that was returned follows the sessions of its snapshots. -/
theorem Invariant.returned (inv : Invariant f) {id : String} (attached : f.attached id = some cursors)
    (found : f.service.attachments id = some a) (live : a.active = true) :
    a.memberCursors = some cursors ∧ ∀ session lowest, cursors.get? session = some lowest →
      Watches f id a session lowest := by
  have uncalled : f.service.calls id = none := by
    cases called : f.service.calls id with
    | none => rfl
    | some call =>
      rw [inv.pending id (by rw [called]; rfl)] at attached
      cases attached
  rcases inv.live id a found live with ⟨call, called, -⟩ | ⟨bound, bounds, watches⟩
  · rw [uncalled] at called
    cases called
  · cases bounds with
    | returned table activated shown same =>
      rw [attached] at shown
      cases shown
      exact ⟨activated, fun session lowest some => watches session lowest ((same session).trans some)⟩
    | attaching call pending unread called going members awaits =>
      rw [uncalled] at called
      cases called

theorem Invariant.read (inv : Invariant f) (id : String) (generation limit : Nat)
    (known : (f.attached id).isSome) :
    Invariant ({ f with service := (f.service.read id generation limit).2 }.observe
      (f.service.read id generation limit).1) := by
  rcases f.service.read_cases id generation limit with ⟨code, raised⟩ | ⟨a, found, live, answer⟩
  · rw [raised]
    exact inv
  · rw [answer]
    obtain ⟨cursors, attached⟩ := Option.isSome_iff_exists.mp known
    obtain ⟨activated, follows⟩ := inv.returned attached found live
    have whole : f.seen id ++ a.queue.take limit ++ a.queue.drop limit = f.seen id ++ a.queue := by
      rw [List.append_assoc, List.take_append_drop]
    refine inv.rework (fun other => other = id) (fun _ _ => rfl) ?_ (fun _ _ => rfl) ?_ inv.owners
      (fun _ _ _ => Carries.refl _ _) ?_
    · intro other different
      simp [Feed.observe, different]
    · intro other different
      simp [Feed.observe, Service.setAttachment, different]
    · rintro other rfl
      have seen : (Feed.observe { f with
          service := f.service.setAttachment other { a with queue := a.queue.drop limit } }
          (.events other (a.queue.take limit))).seen other = f.seen other ++ a.queue.take limit := by
        simp [Feed.observe]
      refine ⟨fun _ => by simp [Feed.observe, Service.setAttachment], inv.pending other, ?_, ?_, ?_⟩
      · intro missing
        rw [show f.attached other = none from missing] at known
        cases known
      · intro cursors' session lowest attached' some
        rw [show f.attached other = Option.some cursors' from attached'] at attached
        cases attached
        have watched := follows session lowest some
        obtain ⟨last, tracks⟩ := watched.tracks
        have all : cursorsOf (f.seen other ++ a.queue) session =
            List.range' (lowest + 1) (last - lowest) := by
          rw [← tracks.kept]
          exact (List.filter_eq_self.mpr fun cursor member =>
            decide_eq_true (watched.above (by rw [activated]; rfl) cursor member)).symm
        rw [← whole, cursorsOf_append] at all
        obtain ⟨count, -, front, -⟩ := List.range'_eq_append_iff.mp all.symm
        exact ⟨count, (congrArg (cursorsOf · session) seen).trans front⟩
      · intro b isB _
        have isB : b = { a with queue := a.queue.drop limit } := by
          simpa [Feed.observe, Service.setAttachment] using isB.symm
        subst isB
        refine .inr ⟨cursors.get?, .returned cursors activated attached fun _ => rfl, ?_⟩
        intro session lowest some
        refine (follows session lowest some).frame (fun member => member) rfl rfl rfl rfl rfl ?_
        rw [seen, whole]

/-- An answer that gives a client neither snapshots nor events. -/
def Answer.quiet : Answer → Bool
  | .attached _ _ | .events _ _ => false
  | _ => true

theorem Feed.observe_quiet (f : Feed) {answer : Answer} (quiet : answer.quiet = true) :
    f.observe answer = f := by
  cases answer with
  | attached id snapshots => cases quiet
  | events id items => cases quiet
  | done => rfl
  | ignored => rfl
  | raised code => rfl

def Input.informs : Input → Bool
  | .finishAttach _ | .read _ _ _ => true
  | _ => false

theorem Service.quiet_step (w : Service) {input : Input} (silent : input.informs = false) :
    (w.step input).1.quiet = true := by
  cases input with
  | finishAttach id => cases silent
  | read id generation limit => cases silent
  | publish session => rfl
  | closeSession session => rfl
  | changeMembers mux members closed => rfl
  | deliver session handling =>
    simp only [step, deliver]
    split <;> rfl
  | foreign session event =>
    simp only [step]
    split <;> rfl
  | resume session cursor raised =>
    simp only [step, resume]
    split <;> rfl
  | snapshot session cursor =>
    simp only [step]
    split <;> rfl
  | attach id mux capacity =>
    simp only [step, attach]
    split
    · rfl
    · split
      · rfl
      · cases (addAttachments id (w.muxes mux).members _ _).1 <;> rfl
  | askMember id session =>
    simp only [step, askMember]
    cases w.calls id with
    | none => rfl
    | some call =>
      dsimp only
      split
      · rfl
      · split <;> rfl
  | answerMember id session cursor =>
    simp only [step, answerMember]
    cases w.calls id with
    | none => rfl
    | some call =>
      dsimp only
      split
      · rfl
      · split <;> rfl
      · rfl
  | discardAttach id =>
    simp only [step, discardAttach]
    cases w.calls id <;> rfl
  | detach id generation =>
    simp only [step, detach]
    cases w.attachments id with
    | none => rfl
    | some a =>
      dsimp only
      split <;> rfl

theorem Invariant.service (inv : Invariant f) {input : Input} (fits : StepFits f input = true)
    (silent : input.informs = false) : Invariant { f with service := (f.service.step input).2 } := by
  cases input with
  | finishAttach id => cases silent
  | read id generation limit => cases silent
  | publish session => exact inv.publish session
  | deliver session handling => exact inv.deliver fits
  | foreign session event =>
    unfold Service.step
    dsimp only
    split
    · exact inv
    · rename_i foreign
      exact inv.foreign foreign .returns
  | resume session cursor raised => exact inv.resume fits
  | snapshot session cursor =>
    unfold Service.step
    dsimp only
    split
    · exact inv.raiseLatest session cursor
    · exact inv
  | attach id mux capacity => exact inv.attach id mux capacity
  | askMember id session => exact inv.askMember id session
  | answerMember id session cursor => exact inv.answerMember id session cursor
  | discardAttach id => exact inv.discardAttach id
  | detach id generation => exact inv.detach id generation
  | closeSession session => exact inv.closeSession session
  | changeMembers mux members closed => exact inv.changeMembers mux members closed

theorem Invariant.step {f : Feed} (inv : Invariant f) {input : Input} (fits : StepFits f input = true) :
    Invariant (f.step input).2 := by
  unfold Feed.step
  split
  · rename_i known
    cases informs : input.informs with
    | false =>
      dsimp only
      rw [Feed.observe_quiet _ (f.service.quiet_step informs)]
      exact inv.service fits informs
    | true =>
      cases input with
      | finishAttach id => exact inv.finishAttach id
      | read id generation limit => exact inv.read id generation limit known
      | _ => cases informs
  · exact inv

/-! ## Whole runs -/

theorem Invariant.start (hasHandler : String → Bool) (muxes : String → List Member) :
    Invariant (Feed.start hasHandler muxes) where
  owners session := ⟨List.nodup_nil, fun _ member => (by cases member), Nat.le_refl _⟩
  made id shown := by cases shown
  pending id called := by cases called
  unseen id _ := rfl
  inOrder id cursors session bound attached := by cases attached
  live id a found := by cases found

/-- What the clients of one moment have been given: the reads of every attachment are its
session's next events, and a live attachment lacks none that the session is done with. -/
structure NoGap (f : Feed) : Prop where
  inOrder : ∀ id cursors session bound, f.attached id = some cursors →
    cursors.get? session = some bound →
    ∃ count, cursorsOf (f.seen id) session = List.range' (bound + 1) count
  queued : ∀ id cursors session bound a, f.attached id = some cursors →
    cursors.get? session = some bound → f.service.attachments id = some a → a.active = true →
    ∀ cursor, bound < cursor → cursor ≤ (f.service.sessions session).delivered →
      cursor ∉ (f.service.sessions session).suspended →
      cursor ∈ cursorsOf (f.seen id ++ a.queue) session

theorem Invariant.noGap (inv : Invariant f) : NoGap f := by
  refine ⟨inv.inOrder, ?_⟩
  intro id cursors session lowest a attached some found active cursor low high done
  obtain ⟨-, follows⟩ := inv.returned attached found active
  obtain ⟨last, tracks⟩ := (follows session lowest some).tracks
  have reached : cursor ≤ last := by
    rcases tracks.reached cursor low high with waiting | done'
    · exact absurd waiting done
    · exact done'
  have member : cursor ∈ (cursorsOf (f.seen id ++ a.queue) session).filter fun other => lowest < other := by
    rw [tracks.kept]
    exact List.mem_range'_1.mpr (by omega)
  exact (List.mem_filter.mp member).1

/-! ## Attachments that have ended -/

/-- An attachment that lags or was settled. -/
def Service.Ended (w : Service) (id : String) : Prop :=
  ∃ a, w.attachments id = some a ∧ a.active = false

namespace Service

variable {w : Service} {change : Attachment → Attachment}

theorem Ended.map {id : String} (ended : w.Ended id) {ids : List String}
    (stays : ∀ a, (change a).active = true → a.active = true) : (w.mapAttachments ids change).Ended id := by
  obtain ⟨a, found, dead⟩ := ended
  by_cases member : id ∈ ids
  · refine ⟨change a, ?_, ?_⟩
    · simp [mapAttachments, member, found]
    · cases active : (change a).active with
      | false => rfl
      | true =>
        rw [stays a active] at dead
        cases dead
  · exact ⟨a, by simp [mapAttachments, member, found], dead⟩

theorem Ended.same {v : Service} {id : String} (ended : w.Ended id)
    (same : v.attachments id = w.attachments id) : v.Ended id := by
  obtain ⟨a, found, dead⟩ := ended
  exact ⟨a, same.trans found, dead⟩

variable {other : String} {a b : Attachment}

theorem Ended.setAttachment {id : String} (ended : w.Ended id) (was : w.attachments other = some a)
    (stays : b.active = true → a.active = true) : (w.setAttachment other b).Ended id := by
  by_cases mine : id = other
  · subst mine
    obtain ⟨c, found, dead⟩ := ended
    rw [was] at found
    cases found
    refine ⟨b, by simp [Service.setAttachment], ?_⟩
    cases active : b.active with
    | false => rfl
    | true =>
      rw [stays active] at dead
      cases dead
  · exact ended.same (by simp [Service.setAttachment, mine])

theorem active_of_invalidate (a : Attachment) (active : a.invalidate.active = true) : a.active = true := by
  rw [a.not_active_invalidate] at active
  cases active

theorem active_of_settle (a : Attachment) (active : a.settle.active = true) : a.active = true := by
  simp [Attachment.active, Attachment.settle] at active

theorem active_of_handed {session : String} {owner : SessionOwner} {raises : Bool} {cursor : Nat}
    {suspended : List Nat} (handed : Handed session owner raises cursor suspended change) (a : Attachment)
    (active : (change a).active = true) : a.active = true := by
  cases handed with
  | closed _ => exact active
  | dropped _ quiet _ => exact quiet a active ▸ active
  | waits _ quiet => exact quiet a active ▸ active
  | queued _ pushes =>
    rw [pushes a active] at active
    exact (Attachment.active_of_push active).1

theorem active_of_activate {snapshots : List (String × Nat)} {result : Except AppErrorCode Unit}
    (activated : a.activate snapshots = (result, b)) (active : b.active = true) : a.active = true := by
  unfold Attachment.activate at activated
  split at activated
  · cases activated
    exact active
  · rename_i live
    simpa [Attachment.active] using live

theorem addAttachments_others {id : String} (members : List Member) (a : Attachment) (w : Service)
    (different : other ≠ id) : (addAttachments id members a w).2.attachments other = w.attachments other := by
  induction members generalizing a w with
  | nil => rfl
  | cons member rest ih =>
    unfold addAttachments
    split
    · rfl
    · rw [ih]
      simp [addAttachment, Service.setAttachment, Service.setSession, different]

theorem Ended.step {w : Service} {id : String} (ended : w.Ended id) (input : Input) :
    (w.step input).2.Ended id := by
  cases input with
  | publish session => exact ended.same rfl
  | deliver session handling =>
    by_cases due : (w.sessions session).delivered < (w.sessions session).published
    · obtain ⟨latest, suspended, change, delivered, handed⟩ := w.deliver_spec session handling due
      change (w.deliver session handling).2.Ended id
      rw [delivered]
      exact ended.map (active_of_handed handed)
    · unfold Service.step deliver
      dsimp only
      rw [if_neg due]
      exact ended
  | foreign session event =>
    unfold Service.step
    dsimp only
    split
    · exact ended
    · unfold onEvent
      dsimp only
      split
      · exact ended
      · exact ended.map active_of_invalidate
  | resume session cursor raised =>
    by_cases waits : cursor ∈ (w.sessions session).suspended
    · obtain ⟨change, resumed, kind⟩ := w.resume_spec session cursor raised waits
      change (w.resume session cursor raised).2.Ended id
      rw [resumed]
      rcases kind with ⟨rfl, -⟩ | rfl
      · exact ended.map fun _ active => active
      · exact ended.map fun _ active => (Attachment.active_of_push active).1
    · unfold Service.step resume
      dsimp only
      rw [if_neg waits]
      exact ended
  | snapshot session cursor =>
    unfold Service.step
    dsimp only
    split
    · exact ended.same rfl
    · exact ended
  | attach other mux capacity =>
    change (w.attach other mux capacity).2.Ended id
    unfold attach
    split
    · exact ended
    · rename_i fresh
      dsimp only
      split
      · exact ended
      · obtain ⟨a, found, dead⟩ := ended
        have different : id ≠ other := by
          rintro rfl
          rw [found] at fresh
          exact fresh rfl
        refine ⟨a, (addAttachments_others _ _ _ different).trans ?_, dead⟩
        simp [Service.setAttachment, Service.setMux, different, found]
  | askMember other session =>
    change (w.askMember other session).2.Ended id
    unfold askMember
    cases w.calls other with
    | none => exact ended
    | some call =>
      dsimp only
      split
      · exact ended
      · split <;> exact ended.same rfl
  | answerMember other session cursor =>
    change (w.answerMember other session cursor).2.Ended id
    unfold answerMember
    cases w.calls other with
    | none => exact ended
    | some call =>
      dsimp only
      split
      · exact ended.same rfl
      · split <;> exact ended.same rfl
      · exact ended
  | finishAttach other =>
    change (w.finishAttach other).2.Ended id
    unfold finishAttach
    cases w.calls other with
    | none => exact ended
    | some call =>
      dsimp only
      split
      · exact ended
      · split
        · rename_i snapshots a _ found
          split
          · exact ended.same rfl
          · split
            · rename_i code b activated
              exact (ended.setAttachment found (active_of_activate activated)).same rfl
            · rename_i u b activated
              exact (ended.setAttachment found (active_of_activate activated)).same rfl
        · exact ended
  | discardAttach other =>
    change (w.discardAttach other).2.Ended id
    unfold discardAttach
    cases w.calls other with
    | none => exact ended
    | some call => exact Ended.same (ended.map active_of_settle) rfl
  | detach other generation =>
    change (w.detach other generation).2.Ended id
    unfold detach
    cases w.attachments other with
    | none => exact ended
    | some a =>
      dsimp only
      split
      · exact ended
      · exact Ended.same (ended.map active_of_settle) rfl
  | read other generation limit =>
    change (w.read other generation limit).2.Ended id
    rcases w.read_cases other generation limit with ⟨code, raised⟩ | ⟨a, found, live, answer⟩
    · rw [raised]
      exact ended
    · rw [answer]
      exact ended.setAttachment found fun _ => live
  | closeSession session =>
    change (w.closeSession session).Ended id
    unfold closeSession
    dsimp only
    split
    · exact Ended.same (ended.map active_of_invalidate) rfl
    · exact ended
  | changeMembers mux members closed =>
    change (w.changeMembers mux members closed).Ended id
    unfold changeMembers
    dsimp only
    split
    · exact ended
    · exact Ended.same (ended.map active_of_settle) rfl

end Service

/-- Nobody reads from an attachment that has ended. -/
theorem Feed.ended_step {id : String} (ended : f.service.Ended id) (input : Input) :
    (f.step input).2.service.Ended id ∧ (f.step input).2.seen id = f.seen id := by
  unfold Feed.step
  split
  · have after := ended.step input
    have observed : ∀ (g : Feed) (answer : Answer), (g.observe answer).service = g.service := by
      intro g answer
      cases answer <;> rfl
    refine ⟨by rw [observed]; exact after, ?_⟩
    cases informs : input.informs with
    | false =>
      dsimp only
      rw [Feed.observe_quiet _ (f.service.quiet_step informs)]
    | true =>
      cases input with
      | finishAttach other =>
        change (Feed.observe _ (f.service.finishAttach other).1).seen id = _
        unfold Service.finishAttach
        cases f.service.calls other with
        | none => rfl
        | some call =>
          dsimp only
          split
          · rfl
          · split
            · split
              · rfl
              · split <;> rfl
            · rfl
      | read other generation limit =>
        change (Feed.observe _ (f.service.read other generation limit).1).seen id = _
        rcases f.service.read_cases other generation limit with ⟨code, raised⟩ | ⟨a, found, live, answer⟩
        · rw [raised]
          rfl
        · rw [answer]
          have different : id ≠ other := by
            rintro rfl
            obtain ⟨b, isB, dead⟩ := ended
            rw [found] at isB
            cases isB
            rw [live] at dead
            cases dead
          simp [Feed.observe, different]
      | _ => cases informs
  · exact ⟨ended, rfl⟩

/-- Delivery without a gap. In a run whose steps all fit, what the reads of an attachment returned
for a session are the events after its snapshot, in order, and a live attachment has every one of
them that the session is done with. One that lags or was settled is never read from again. -/
theorem feed_without_gap (hasHandler : String → Bool) (muxes : String → List Member) (inputs : List Input)
    (fits : feed.AllSteps (fun f input => StepFits f input = true) (.start hasHandler muxes) inputs) :
    NoGap (feed.final (.start hasHandler muxes) inputs) ∧
      ∀ id, (feed.final (.start hasHandler muxes) inputs).service.Ended id → ∀ later,
        (feed.final (.start hasHandler muxes) (inputs ++ later)).seen id =
            (feed.final (.start hasHandler muxes) inputs).seen id ∧
          ∀ generation limit, ∃ code, ((feed.final (.start hasHandler muxes) (inputs ++ later)).service.read
            id generation limit).1 = .raised code := by
  obtain ⟨-, last⟩ := Machine.AllSteps.of_invariant
    (fun f input (inv : Invariant f) fits => ⟨trivial, inv.step fits⟩)
    (Invariant.start hasHandler muxes) fits
  refine ⟨last.noGap, fun id ended later => ?_⟩
  rw [Machine.final_append]
  obtain ⟨f, isF⟩ : ∃ f, f = feed.final (.start hasHandler muxes) inputs := ⟨_, rfl⟩
  rw [← isF] at ended ⊢
  have stays := @Machine.final_of_invariant _ _ _ feed
    (fun g => g.service.Ended id ∧ g.seen id = f.seen id)
    (fun g input inv => ⟨(g.ended_step inv.1 input).1, ((g.ended_step inv.1 input).2).trans inv.2⟩)
    _ ⟨ended, rfl⟩ later
  obtain ⟨⟨a, found, dead⟩, seen⟩ := stays
  refine ⟨seen, fun generation limit => ?_⟩
  rcases Service.read_cases _ id generation limit with ⟨code, raised⟩ | ⟨b, isB, live, -⟩
  · exact ⟨code, congrArg Prod.fst raised⟩
  · rw [found] at isB
    cases isB
    rw [dead] at live
    cases live

/-- The second of two events arrives when the handler is done with the first, and a snapshot in
between covers the first one only. -/
theorem two_events_read :
    let members := fun _ : String => [Member.mk "x" "s"]
    let inputs := [.attach "a" "m" 8, .askMember "a" "s", .answerMember "a" "s" (some 0), .finishAttach "a",
      .publish "s", .deliver "s" .suspends, .snapshot "s" 1, .resume "s" 1 false, .publish "s",
      .deliver "s" .returns, .read "a" 1 64]
    cursorsOf ((feed.final (.start (fun _ => true) members) inputs).seen "a") "s" = [1, 2] ∧
      NoGap (feed.final (.start (fun _ => true) members) inputs) :=
  ⟨by decide, (feed_without_gap _ _ _ (by decide)).1⟩

/-- A client attaches before the first event, whose handler is still waiting when the second one
is handed over. -/
def overtaken : Feed :=
  feed.final (.start (fun _ => true) fun _ => [⟨"x", "s"⟩])
    [.attach "a" "m" 8, .askMember "a" "s", .answerMember "a" "s" (some 0), .finishAttach "a",
      .publish "s", .publish "s", .deliver "s" .suspends, .deliver "s" .returns, .resume "s" 1 false,
      .read "a" 1 64]

/-- The attachment stays live and is given the second event alone. -/
theorem second_event_overtakes :
    (overtaken.attached "a").bind (·.get? "s") = some 0 ∧
      (overtaken.service.attachments "a").map Attachment.active = some true ∧
      ¬∃ count, cursorsOf (overtaken.seen "a") "s" = List.range' 1 count := by
  refine ⟨by decide +kernel, by decide +kernel, ?_⟩
  rintro ⟨count, reads⟩
  have second : cursorsOf (overtaken.seen "a") "s" = [2] := by decide
  rw [second] at reads
  cases count with
  | zero => cases reads
  | succ count =>
    rw [List.range'_succ] at reads
    cases reads

end Loushang.AppService.Attachments
