import Loushang.AppHost.EventLog
import Loushang.Lib.Folds
import Mathlib.Data.List.Induction

/-!
# The lifecycle log over all runs

The five segments hold, in ring order behind the newest one, the end of the list of all
records written, and a tail of 16 KiB shows more whole frames than a reader may ask for.
-/
namespace Loushang.AppHost
open Lib

/-- The records of all events written, numbered from one. -/
def numbered (written : List ManagedLifecycleEventV1) : List ManagedLifecycleRecordV1 :=
  written.mapIdx fun index event => ⟨index + 1, event⟩

/-- The records of a whole file. -/
def fileRecords (content : List UInt8) : Except StorageError (List ManagedLifecycleRecordV1) :=
  (closedBodies newline content).mapM fun frame => decodeFrame (frame ++ [newline])

/-- The slot `write` continues. -/
def newestSlot (segmentBytes : Nat) (segments : Segments) : Except StorageError (Fin 5) := do
  let sequences ← (← snapshots segmentBytes segments).mapM sequenceOfSlot
  return Fin.ofNat 5 (sequences.idxOf (sequences.foldl max 0))

/-- The records of all segments in segment order, which ends at the newest one. -/
def retained (segmentBytes : Nat) (segments : Segments) :
    Except StorageError (List ManagedLifecycleRecordV1) := do
  let newest ← newestSlot segmentBytes segments
  let parts ← slots.mapM fun offset => fileRecords ((segments (newest + 1 + offset)).getD [])
  return parts.flatten

/-- The sequence a write returned. -/
def returned : Except StorageError (Option Int) → Option Int
  | .ok sequence => sequence
  | .error _ => none

/-- The event of an input that was written. -/
def writtenEvent (input : LogInput) (answer : Except StorageError (Option Int)) :
    Option ManagedLifecycleEventV1 :=
  match input with
  | .write event _ => (returned answer).map fun _ => event
  | .reopen => none

/-- The events whose write returned a sequence. -/
def acceptedEvents (trace : List (Log × LogInput × Except StorageError (Option Int) × Log)) :
    List ManagedLifecycleEventV1 :=
  trace.filterMap fun entry => writtenEvent entry.2.1 entry.2.2.1

/-- The sequences returned, in order. -/
def acceptedSequences (trace : List (Log × LogInput × Except StorageError (Option Int) × Log)) :
    List Int :=
  trace.filterMap fun entry => returned entry.2.2.1

section

variable (log : Log) (input : LogInput) (answer : Except StorageError (Option Int)) (log' : Log)
  (trace : List (Log × LogInput × Except StorageError (Option Int) × Log))

theorem acceptedEvents_cons : acceptedEvents ((log, input, answer, log') :: trace) =
    (writtenEvent input answer).toList ++ acceptedEvents trace := by
  rw [acceptedEvents, List.filterMap_cons]
  cases writtenEvent input answer <;> rfl

theorem acceptedSequences_cons : acceptedSequences ((log, input, answer, log') :: trace) =
    (returned answer).toList ++ acceptedSequences trace := by
  rw [acceptedSequences, List.filterMap_cons]
  cases returned answer <;> rfl

end

/-! ## One segment -/

/-- A file, absent or not, holds these records. -/
def Holds (segmentBytes : Nat) (file : Option (List UInt8)) (part : List ManagedLifecycleRecordV1) :
    Prop :=
  (file.getD [] = framed newline (part.map fun record => rowBytes record.event record.sequence)) ∧
    (file.getD []).length ≤ segmentBytes

/-- A sequence the log can write. -/
def Writable (record : ManagedLifecycleRecordV1) : Prop :=
  1 ≤ record.sequence ∧ record.sequence ≤ maxSequence

def lastSequence (part : List ManagedLifecycleRecordV1) : Int :=
  (part.getLast?.map ManagedLifecycleRecordV1.sequence).getD 0

/-- The snapshot of a file that fits. -/
def snapshotOf (content : List UInt8) : Snapshot := ⟨content.length, tailOf content⟩

theorem snapshotOf_size (content : List UInt8) : (snapshotOf content).size = content.length := rfl

theorem snapshotOf_tail (content : List UInt8) : (snapshotOf content).tail = tailOf content := rfl

variable {segmentBytes : Nat}

theorem dataSnapshot_ok {file : Option (List UInt8)} (fits : (file.getD []).length ≤ segmentBytes) :
    dataSnapshot segmentBytes file = .ok (file.map snapshotOf) := by
  cases file with
  | none => rfl
  | some content => exact if_neg (Nat.not_lt.mpr fits)

variable {record : ManagedLifecycleRecordV1}

theorem sequenceOf_tail {snapshot : Snapshot} (nonempty : snapshot.size ≠ 0) {front body : List UInt8}
    (tail : snapshot.tail = front ++ body ++ [newline]) (clean : newline ∉ body)
    (closed : front = [] ∨ front.getLast? = some newline)
    (decoded : decodeFrame (body ++ [newline]) = .ok record)
    (whole : newline ∉ front ++ body → snapshot.size = (front ++ body).length + 1) :
    sequenceOf snapshot = .ok record.sequence := by
  have dropLast : snapshot.tail.dropLast = front ++ body := by rw [tail, List.dropLast_concat]
  unfold sequenceOf
  rw [if_neg nonempty, if_neg, if_neg, dropLast, lastOpen_append clean closed, decoded]
  · rintro ⟨absent, shorter⟩
    rw [dropLast] at absent
    apply shorter
    rw [whole absent, tail, @List.length_append _ (front ++ body), List.length_singleton]
  · rw [tail, List.getLast?_concat]
    exact not_not.mpr rfl

section

variable {part : List ManagedLifecycleRecordV1} (writable : ∀ record ∈ part, Writable record)
include writable

theorem clean_rows : ∀ body ∈ part.map (fun record => rowBytes record.event record.sequence),
    newline ∉ body ∧ body.length ≤ 133 := by
  intro body member
  obtain ⟨record, inside, rfl⟩ := List.mem_map.mp member
  obtain ⟨-, clean, short, -⟩ := encode_spec record.event (writable record inside)
  exact ⟨clean, short⟩

theorem decode_rows :
    (part.map fun record => rowBytes record.event record.sequence).mapM
      (fun frame => decodeFrame (frame ++ [newline])) = .ok part := by
  have read := mapM_map_ok (f := fun frame => decodeFrame (frame ++ [newline]))
    (h := fun record : ManagedLifecycleRecordV1 => rowBytes record.event record.sequence) (g := id)
    fun record inside => (encode_spec record.event (writable record inside)).2.2.2
  rwa [List.map_id] at read

theorem fileRecords_framed :
    fileRecords (framed newline (part.map fun record => rowBytes record.event record.sequence)) =
      .ok part := by
  rw [fileRecords, closedBodies_framed fun body member => (clean_rows writable body member).1]
  exact decode_rows writable

/-- The last frame is read off a tail. -/
theorem sequenceOf_framed :
    sequenceOf (snapshotOf (framed newline
      (part.map fun record => rowBytes record.event record.sequence))) = .ok (lastSequence part) := by
  rcases List.eq_nil_or_concat' part with rfl | ⟨front, last, rfl⟩
  · have empty : (snapshotOf (framed newline ([].map fun record : ManagedLifecycleRecordV1 =>
        rowBytes record.event record.sequence))).size = 0 := rfl
    rw [sequenceOf, if_pos empty]
    rfl
  · obtain ⟨-, clean, short, decoded⟩ :=
      encode_spec last.event (writable last (List.mem_append_right _ List.mem_cons_self))
    obtain ⟨before, before_eq⟩ : ∃ before, before = framed newline
      (front.map fun record => rowBytes record.event record.sequence) := ⟨_, rfl⟩
    obtain ⟨body, body_eq⟩ : ∃ body, body = rowBytes last.event last.sequence := ⟨_, rfl⟩
    have whole : framed newline ((front ++ [last]).map fun record =>
        rowBytes record.event record.sequence) = before ++ (body ++ [newline]) := by
      rw [List.map_append, framed_append, List.map_singleton, framed_cons, framed_nil, before_eq,
        body_eq]
    have length : (before ++ (body ++ [newline])).length = before.length + (body.length + 1) := by
      rw [List.length_append, List.length_append, List.length_singleton]
    rw [← body_eq] at clean short decoded
    -- the cut falls before the last frame
    have cut : (before ++ (body ++ [newline])).length - maxRecordBytes ≤ before.length := by
      unfold maxRecordBytes
      omega
    obtain ⟨rest, rest_eq⟩ : ∃ rest, rest =
      before.drop ((before ++ (body ++ [newline])).length - maxRecordBytes) := ⟨_, rfl⟩
    have tail : tailOf (before ++ (body ++ [newline])) = rest ++ body ++ [newline] := by
      rw [tailOf_eq, List.drop_append_of_le_length cut, rest_eq, List.append_assoc]
    have closed : rest = [] ∨ rest.getLast? = some newline := by
      rcases List.eq_nil_or_concat' rest with empty | ⟨more, mark, eq⟩
      · exact .inl empty
      · right
        have suffix : rest <:+ before := rest_eq ▸ List.drop_suffix _ _
        obtain ⟨lost, joined⟩ := suffix
        have nonempty : front.map (fun record => rowBytes record.event record.sequence) ≠ [] := by
          intro empty
          rw [before_eq, empty, framed_nil, eq] at joined
          simp at joined
        have last := framed_getLast? newline _ nonempty
        rw [← before_eq, ← joined, eq, ← List.append_assoc, List.getLast?_concat] at last
        rw [eq, List.getLast?_concat, last]
    rw [whole, lastSequence, List.getLast?_concat]
    apply sequenceOf_tail (by rw [snapshotOf_size, length]; omega)
      ((snapshotOf_tail _).trans tail) clean closed decoded
    intro absent
    rcases closed with empty | last
    · -- nothing in front of the frame was cut away
      rw [empty] at rest_eq ⊢
      have gone := congrArg List.length rest_eq
      rw [List.length_drop, List.length_nil] at gone
      rw [snapshotOf_size, List.nil_append, length]
      rw [length] at gone cut
      unfold maxRecordBytes at gone cut
      omega
    · exact absurd (List.mem_append_left _ (List.mem_of_getLast? last)) absent

/-- A reader sees the end of a segment: all of it, or more records than it may ask for. -/
theorem segmentRecords_framed (ordered : (part.map ManagedLifecycleRecordV1.sequence).Pairwise (· < ·)) :
    ∃ shown, shown <:+ part ∧ (shown = part ∨ 100 ≤ shown.length) ∧
      segmentRecords (some (snapshotOf (framed newline
        (part.map fun record => rowBytes record.event record.sequence)))) = .ok shown := by
  obtain ⟨rows, rows_eq⟩ : ∃ rows, rows =
    part.map fun record => rowBytes record.event record.sequence := ⟨_, rfl⟩
  have clean := clean_rows writable
  have known := sequenceOf_framed writable
  rw [← rows_eq] at clean known ⊢
  have visible : ∃ shown, shown <:+ part ∧ (shown = part ∨ 100 ≤ shown.length) ∧
      visibleFrames (snapshotOf (framed newline rows)) =
        shown.map fun record => rowBytes record.event record.sequence := by
    unfold visibleFrames snapshotOf
    rcases Nat.lt_or_ge maxRecordBytes (framed newline rows).length with long | fits
    · obtain ⟨front, body, behind, piece, split, suffix, cut⟩ :=
        @drop_framed _ _ newline rows ((framed newline rows).length - maxRecordBytes)
          (by unfold maxRecordBytes at *; omega)
      rw [rows_eq] at split
      obtain ⟨lost, shown, parts, -, shownRows⟩ := List.map_eq_append_iff.mp split
      obtain ⟨first, shown, rfl, -, shownRows⟩ := List.map_eq_cons_iff.mp shownRows
      have inside : ∀ other ∈ body :: behind, newline ∉ other ∧ other.length ≤ 133 := by
        intro other member
        exact clean other (by rw [rows_eq, split]; exact List.mem_append_right _ member)
      have pieceClean : newline ∉ piece ∧ piece.length ≤ 133 := by
        obtain ⟨bodyClean, bodyShort⟩ := inside body List.mem_cons_self
        exact ⟨fun member => bodyClean (suffix.subset member),
          Nat.le_trans suffix.length_le bodyShort⟩
      have tailClean : ∀ other ∈ piece :: behind, newline ∉ other ∧ other.length ≤ 133 := by
        exact List.forall_mem_cons.mpr
          ⟨pieceClean, fun other later => inside other (List.mem_cons_of_mem _ later)⟩
      have tail : tailOf (framed newline rows) = framed newline (piece :: behind) := by
        rw [tailOf_eq, cut]
      have size : (framed newline (piece :: behind)).length = maxRecordBytes := by
        rw [← cut, List.length_drop]
        omega
      have many : (framed newline (piece :: behind)).length ≤ 134 * (piece :: behind).length :=
        length_framed_le 134 fun other member =>
          Nat.lt_succ_of_le (tailClean other member).2
      rw [size, List.length_cons] at many
      have count : behind.length = shown.length := by rw [← shownRows, List.length_map]
      refine ⟨shown, ?_, .inr (by unfold maxRecordBytes at many; omega), ?_⟩
      · rw [parts]
        exact (List.suffix_cons first shown).trans (List.suffix_append _ _)
      · simp only [tail]
        rw [if_pos (by rw [size]; exact long),
          closedBodies_framed fun other member => (tailClean other member).1, shownRows]
        rfl
    · refine ⟨part, List.suffix_refl _, .inl rfl, ?_⟩
      have tail : tailOf (framed newline rows) = framed newline rows := by
        rw [tailOf_eq, Nat.sub_eq_zero_of_le fits, List.drop_zero]
      simp only [tail]
      rw [if_neg (Nat.lt_irrefl _), closedBodies_framed fun body member => (clean body member).1, rows_eq]
  obtain ⟨shown, suffix, enough, frames⟩ := visible
  refine ⟨shown, suffix, enough, ?_⟩
  have shownWritable : ∀ record ∈ shown, Writable record :=
    fun record member => writable record (suffix.subset member)
  have increasing : (0 :: shown.map ManagedLifecycleRecordV1.sequence).Pairwise (· < ·) := by
    refine List.pairwise_cons.mpr ⟨?_, ordered.sublist (suffix.sublist.map _)⟩
    intro sequence member
    obtain ⟨record, inside, rfl⟩ := List.mem_map.mp member
    have positive := (shownWritable record inside).1
    omega
  simp only [segmentRecords]
  by_cases empty : (snapshotOf (framed newline rows)).size = 0
  · rw [if_pos empty]
    have none : rows = [] := (framed_eq_nil newline).mp (List.eq_nil_of_length_eq_zero empty)
    rw [rows_eq, List.map_eq_nil_iff] at none
    rw [none] at suffix
    rw [List.suffix_nil.mp suffix]
  · rw [if_neg empty, known, frames]
    change ((shown.map fun record => rowBytes record.event record.sequence).mapM
      (fun frame => decodeFrame (frame ++ [newline])) >>= fun records =>
        if ¬(0 :: records.map ManagedLifecycleRecordV1.sequence).Pairwise (· < ·) then
          throw .invalidRecord else pure records) = _
    rw [decode_rows shownWritable]
    exact if_neg (not_not.mpr increasing)

end

/-! ## Numbering -/

theorem numbered_append (written : List ManagedLifecycleEventV1) (event : ManagedLifecycleEventV1) :
    numbered (written ++ [event]) = numbered written ++ [⟨written.length + 1, event⟩] := by
  rw [numbered, List.mapIdx_concat]
  rfl

theorem length_numbered (written : List ManagedLifecycleEventV1) :
    (numbered written).length = written.length := List.length_mapIdx

variable {written : List ManagedLifecycleEventV1}

theorem numbered_bounds (member : record ∈ numbered written) :
    1 ≤ record.sequence ∧ record.sequence ≤ written.length := by
  obtain ⟨index, inside, rfl⟩ := List.mem_mapIdx.mp member
  dsimp only
  omega

theorem numbered_increasing (written : List ManagedLifecycleEventV1) :
    ((numbered written).map ManagedLifecycleRecordV1.sequence).Pairwise (· < ·) := by
  induction written using List.reverseRecOn with
  | nil => exact List.Pairwise.nil
  | append_singleton written event ih =>
    rw [numbered_append, List.map_append]
    refine List.pairwise_append.mpr ⟨ih, List.pairwise_singleton _ _, ?_⟩
    intro sequence member other last
    obtain ⟨record, inside, rfl⟩ := List.mem_map.mp member
    rw [List.map_singleton, List.mem_singleton] at last
    have bound := (numbered_bounds inside).2
    rw [last]
    dsimp only
    omega

variable {part : List ManagedLifecycleRecordV1}

theorem lastSequence_append (front : List ManagedLifecycleRecordV1) (nonempty : part ≠ []) :
    lastSequence (front ++ part) = lastSequence part := by
  rw [lastSequence, List.getLast?_append_of_ne_nil _ nonempty, ← lastSequence]

theorem lastSequence_numbered {lost : Nat} (kept : (numbered written).drop lost ≠ []) :
    lastSequence ((numbered written).drop lost) = written.length := by
  rw [← lastSequence_append ((numbered written).take lost) kept, List.take_append_drop]
  rcases List.eq_nil_or_concat' written with rfl | ⟨front, last, rfl⟩
  · rfl
  · rw [numbered_append, lastSequence, List.getLast?_concat, List.length_append]
    push_cast
    rfl

theorem lastSequence_mem (nonempty : part ≠ []) : ∃ record ∈ part, lastSequence part = record.sequence := by
  rcases List.eq_nil_or_concat' part with rfl | ⟨front, last, rfl⟩
  · exact absurd rfl nonempty
  · refine ⟨last, List.mem_append_right _ List.mem_cons_self, ?_⟩
    rw [lastSequence, List.getLast?_concat]
    rfl

/-! ## The ring -/

/-- The files hold the parts in ring order behind the newest slot; together the parts are
the end of everything written. -/
structure Ring (segmentBytes : Nat) (segments : Segments) (written : List ManagedLifecycleEventV1)
    (newest : Fin 5) (parts : Fin 5 → List ManagedLifecycleRecordV1) (lost : Nat) : Prop where
  whole : slots.flatMap parts = (numbered written).drop lost
  lost_le : lost ≤ written.length
  holds : ∀ offset, Holds segmentBytes (segments (newest + 1 + offset)) (parts offset)
  last : written ≠ [] → parts 4 ≠ []
  bounded : (written.length : Int) ≤ maxSequence

/-- Where a slot stands in ring order. -/
def ringOffset (newest slot : Fin 5) : Fin 5 := slot - newest - 1

theorem ringOffset_slot (newest slot : Fin 5) : newest + 1 + ringOffset newest slot = slot := by
  unfold ringOffset
  omega

theorem ringOffset_newest (newest : Fin 5) : ringOffset newest newest = 4 := by
  unfold ringOffset
  omega

theorem ringOffset_injective (newest : Fin 5) : Function.Injective (ringOffset newest) := by
  intro one other same
  rw [← ringOffset_slot newest one, same, ringOffset_slot]

theorem mem_slots (slot : Fin 5) : slot ∈ slots := List.mem_finRange slot

theorem ringOffset_perm (newest : Fin 5) : (slots.map (ringOffset newest)).Perm slots := by
  revert newest
  decide

namespace Ring

variable {segmentBytes : Nat} {segments : Segments} {written : List ManagedLifecycleEventV1}
  {newest : Fin 5} {parts : Fin 5 → List ManagedLifecycleRecordV1} {lost : Nat}

variable {offset : Fin 5}

theorem mem_numbered (ring : Ring segmentBytes segments written newest parts lost)
    {record : ManagedLifecycleRecordV1} (member : record ∈ parts offset) : record ∈ numbered written := by
  have inside : record ∈ slots.flatMap parts := List.mem_flatMap.mpr ⟨offset, mem_slots offset, member⟩
  rw [ring.whole] at inside
  exact List.mem_of_mem_drop inside

theorem writable (ring : Ring segmentBytes segments written newest parts lost) (offset : Fin 5) :
    ∀ record ∈ parts offset, Writable record := by
  intro record member
  have bounds := numbered_bounds (ring.mem_numbered member)
  have bounded := ring.bounded
  exact ⟨bounds.1, by omega⟩

theorem increasing (ring : Ring segmentBytes segments written newest parts lost) :
    (∀ offset, ((parts offset).map ManagedLifecycleRecordV1.sequence).Pairwise (· < ·)) ∧
      ∀ i j : Fin 5, i < j → ∀ one ∈ parts i, ∀ other ∈ parts j, one.sequence < other.sequence := by
  have all := (numbered_increasing written).sublist ((List.drop_sublist lost _).map _)
  rw [← ring.whole, List.map_flatMap, List.pairwise_flatMap] at all
  obtain ⟨inner, outer⟩ := all
  refine ⟨fun offset => inner offset (mem_slots offset), ?_⟩
  intro i j before one first other second
  have length : slots.length = 5 := List.length_finRange
  have entry : ∀ (slot : Fin 5) (inside : slot.val < slots.length),
      slots.get ⟨slot.val, inside⟩ = slot := fun slot _ => List.getElem_finRange _
  have apart := List.pairwise_iff_get.mp outer ⟨i.val, by rw [length]; exact i.isLt⟩
    ⟨j.val, by rw [length]; exact j.isLt⟩ before
  rw [entry, entry] at apart
  exact apart _ (List.mem_map_of_mem first) _ (List.mem_map_of_mem second)

theorem lastSequence_newest (ring : Ring segmentBytes segments written newest parts lost)
    (some : written ≠ []) : lastSequence (parts 4) = written.length := by
  have split : slots.flatMap parts = (parts 0 ++ parts 1 ++ parts 2 ++ parts 3) ++ parts 4 := by
    simp [slots, List.finRange, List.ofFn, Fin.foldr, Fin.foldr.loop]
  have nonempty := ring.last some
  have kept : (numbered written).drop lost ≠ [] := by
    rw [← ring.whole, split]
    exact List.append_ne_nil_of_right_ne_nil _ nonempty
  rw [← lastSequence_append (parts 0 ++ parts 1 ++ parts 2 ++ parts 3) nonempty, ← split, ring.whole,
    lastSequence_numbered kept]

/-- Every other segment ends before the newest one does. -/
theorem lastSequence_other (ring : Ring segmentBytes segments written newest parts lost) (some : written ≠ [])
    (other : offset ≠ 4) : lastSequence (parts offset) < written.length := by
  have positive : 0 < written.length := List.length_pos_of_ne_nil some
  by_cases empty : parts offset = []
  · rw [empty]
    exact Int.natCast_pos.mpr positive
  · obtain ⟨record, member, eq⟩ := lastSequence_mem empty
    obtain ⟨final, inside, final_eq⟩ := lastSequence_mem (ring.last some)
    have before := ring.increasing.2 offset 4 (by omega) record member final inside
    rw [← final_eq, ring.lastSequence_newest some] at before
    rw [eq]
    exact before

theorem parts_empty (ring : Ring segmentBytes segments [] newest parts lost) (offset : Fin 5) :
    parts offset = [] := by
  have none : slots.flatMap parts = [] := by
    rw [ring.whole]
    exact List.drop_nil
  exact List.flatMap_eq_nil_iff.mp none offset (mem_slots offset)

/-- Segments that hold no record may be read from any slot on. -/
theorem restart (ring : Ring segmentBytes segments [] newest parts lost) (start : Fin 5) :
    Ring segmentBytes segments [] start parts lost := by
  refine ⟨ring.whole, ring.lost_le, ?_, fun nonempty => absurd rfl nonempty, ring.bounded⟩
  intro offset
  have held := ring.holds (ringOffset newest (start + 1 + offset))
  rw [ringOffset_slot, ring.parts_empty] at held
  rw [ring.parts_empty]
  exact held

theorem holdsSlot (ring : Ring segmentBytes segments written newest parts lost) (slot : Fin 5) :
    Holds segmentBytes (segments slot) (parts (ringOffset newest slot)) := by
  have held := ring.holds (ringOffset newest slot)
  rwa [ringOffset_slot] at held

theorem snapshots_ok (ring : Ring segmentBytes segments written newest parts lost) :
    snapshots segmentBytes segments =
      .ok (slots.map fun slot => (segments slot).map snapshotOf) :=
  mapM_ok fun slot _ => dataSnapshot_ok (ring.holdsSlot slot).2

theorem sequences_ok (ring : Ring segmentBytes segments written newest parts lost) :
    (slots.map fun slot => (segments slot).map snapshotOf).mapM sequenceOfSlot =
      .ok (slots.map fun slot => lastSequence (parts (ringOffset newest slot))) := by
  have each : ∀ slot ∈ slots, sequenceOfSlot ((segments slot).map snapshotOf) =
      .ok (lastSequence (parts (ringOffset newest slot))) := by
    intro slot _
    obtain ⟨content_eq, -⟩ := ring.holdsSlot slot
    cases file : segments slot with
    | none =>
      rw [file] at content_eq
      have none := (framed_eq_nil newline).mp content_eq.symm
      rw [List.map_eq_nil_iff.mp none]
      rfl
    | some content =>
      rw [file, Option.getD_some] at content_eq
      rw [content_eq]
      exact sequenceOf_framed (ring.writable _)
  exact mapM_map_ok each

/-- No two segments end alike. -/
theorem sequences_nodup (ring : Ring segmentBytes segments written newest parts lost) :
    ((slots.map fun slot => lastSequence (parts (ringOffset newest slot))).filter (· ≠ 0)).Nodup := by
  rw [List.filter_map]
  apply List.Nodup.map_on _ ((List.nodup_finRange 5).filter _)
  intro one first other second same
  have nonempty : ∀ slot ∈ slots.filter ((fun sequence : Int => decide (sequence ≠ 0)) ∘
      fun slot => lastSequence (parts (ringOffset newest slot))),
      parts (ringOffset newest slot) ≠ [] := by
    intro slot member empty
    have nonzero := (List.mem_filter.mp member).2
    rw [Function.comp, empty, decide_eq_true_eq] at nonzero
    exact nonzero rfl
  obtain ⟨record, inside, eq⟩ := lastSequence_mem (nonempty one first)
  obtain ⟨record', inside', eq'⟩ := lastSequence_mem (nonempty other second)
  rw [eq, eq'] at same
  apply ringOffset_injective newest
  rcases lt_trichotomy (ringOffset newest one) (ringOffset newest other) with before | here | behind
  · have apart := ring.increasing.2 _ _ before record inside record' inside'
    omega
  · exact here
  · have apart := ring.increasing.2 _ _ behind record' inside' record inside
    omega

theorem foldl_max {values : List Int} {bound : Int} (below : ∀ value ∈ values, value ≤ bound)
    (reached : bound ∈ values) {start : Int} (low : start ≤ bound) :
    values.foldl max start = bound := by
  induction values generalizing start with
  | nil => cases reached
  | cons value values ih =>
    rw [List.foldl_cons]
    have here := below value List.mem_cons_self
    have later : ∀ other ∈ values, other ≤ bound :=
      fun other member => below other (List.mem_cons_of_mem _ member)
    by_cases inside : bound ∈ values
    · exact ih later inside (max_le low here)
    · have same : bound = value := (List.mem_cons.mp reached).resolve_right inside
      have stays : ∀ rest : List Int, (∀ other ∈ rest, other ≤ bound) → rest.foldl max bound = bound := by
        intro rest
        induction rest with
        | nil => exact fun _ => rfl
        | cons other rest ih =>
          intro small
          rw [List.foldl_cons, max_eq_left (small other List.mem_cons_self)]
          exact ih fun one member => small one (List.mem_cons_of_mem _ member)
      rw [← same, max_eq_right low]
      exact stays values later

/-- The slot `write` continues: the newest one, or the first one of an empty log. -/
def continues (written : List ManagedLifecycleEventV1) (newest : Fin 5) : Fin 5 :=
  if written = [] then 0 else newest

theorem latest_eq (ring : Ring segmentBytes segments written newest parts lost) :
    (slots.map fun slot => lastSequence (parts (ringOffset newest slot))).foldl max 0 =
        written.length ∧
      Fin.ofNat 5 ((slots.map fun slot => lastSequence (parts (ringOffset newest slot))).idxOf
        (written.length : Int)) = continues written newest := by
  by_cases empty : written = []
  · subst empty
    have zero : (slots.map fun slot => lastSequence (parts (ringOffset newest slot))) =
        slots.map fun _ => 0 :=
      List.map_congr_left fun slot _ => by rw [ring.parts_empty]; rfl
    rw [zero]
    exact ⟨by decide, by rw [continues, if_pos rfl]; decide⟩
  · have other : ∀ slot, slot ≠ newest →
        lastSequence (parts (ringOffset newest slot)) < written.length := by
      intro slot different
      apply ring.lastSequence_other empty
      intro same
      exact different (ringOffset_injective newest (same.trans (ringOffset_newest newest).symm))
    have here : lastSequence (parts (ringOffset newest newest)) = written.length := by
      rw [ringOffset_newest, ring.lastSequence_newest empty]
    have index : (slots.map fun slot => lastSequence (parts (ringOffset newest slot))).idxOf
        (written.length : Int) = newest.val := by
      have inside := List.idxOf_lt_length_of_mem (l := slots.map fun slot =>
        lastSequence (parts (ringOffset newest slot)))
        (List.mem_map.mpr ⟨newest, mem_slots newest, here⟩)
      have found := List.idxOf_get inside
      rw [List.get_eq_getElem, List.getElem_map] at found
      have slot : slots.get ⟨_, by rwa [List.length_map] at inside⟩ = newest := by
        by_contra different
        exact absurd found (ne_of_lt (other _ different))
      rw [List.get_eq_getElem] at slot
      exact congrArg Fin.val ((List.getElem_finRange _).symm.trans slot)
    refine ⟨foldl_max ?_ ?_ (by omega), ?_⟩
    · intro value member
      obtain ⟨slot, -, rfl⟩ := List.mem_map.mp member
      by_cases same : slot = newest
      · rw [same, here]
      · exact le_of_lt (other slot same)
    · exact List.mem_map.mpr ⟨newest, mem_slots newest, here⟩
    · rw [index, continues, if_neg empty]
      exact Fin.ofNat_val_eq_self newest

theorem newestSlot_ok (ring : Ring segmentBytes segments written newest parts lost) :
    newestSlot segmentBytes segments = .ok (continues written newest) := by
  obtain ⟨latest, slot⟩ := ring.latest_eq
  rw [newestSlot, ring.snapshots_ok, ok_bind, ring.sequences_ok, ok_bind, latest, slot]
  rfl

/-- A ring that begins where `write` continues. -/
theorem aligned (ring : Ring segmentBytes segments written newest parts lost) :
    Ring segmentBytes segments written (continues written newest) parts lost := by
  unfold continues
  split
  · next empty =>
    subst empty
    exact ring.restart 0
  · exact ring

/-- Everything retained is the end of everything written. -/
theorem retained_ok (ring : Ring segmentBytes segments written newest parts lost) :
    retained segmentBytes segments = .ok ((numbered written).drop lost) := by
  have held := ring.aligned.holds
  have each : ∀ offset ∈ slots, fileRecords
      ((segments (continues written newest + 1 + offset)).getD []) = .ok (parts offset) := by
    intro offset _
    rw [(held offset).1]
    exact fileRecords_framed (ring.writable offset)
  rw [retained, ring.newestSlot_ok, ok_bind, mapM_ok each, ok_bind, ← ring.whole, List.flatMap]
  rfl

end Ring

/-! ## One write -/

section

variable {segmentBytes : Nat} {segments : Segments} {written : List ManagedLifecycleEventV1}
  {newest : Fin 5} {parts : Fin 5 → List ManagedLifecycleRecordV1} {lost : Nat}

theorem Holds.append {file : Option (List UInt8)} {part : List ManagedLifecycleRecordV1}
    (held : Holds segmentBytes file part) (record : ManagedLifecycleRecordV1)
    (fits : (file.getD []).length + (rowBytes record.event record.sequence ++ [newline]).length ≤
      segmentBytes) :
    Holds segmentBytes
      (some (file.getD [] ++ (rowBytes record.event record.sequence ++ [newline])))
      (part ++ [record]) := by
  refine ⟨?_, by rw [Option.getD_some, List.length_append]; exact fits⟩
  rw [Option.getD_some, held.1, List.map_append, framed_append, List.map_singleton, framed_cons,
    framed_nil]

theorem createFile_getD (segments : Segments) (slot : Fin 5) :
    (createFile segments slot slot).getD [] = (segments slot).getD [] := by
  unfold createFile
  split
  · next absent =>
    rw [Function.update_self, Option.isNone_iff_eq_none.mp absent]
    rfl
  · rfl

theorem update_createFile (segments : Segments) (slot : Fin 5) (content : Option (List UInt8)) :
    Function.update (createFile segments slot) slot content =
      Function.update segments slot content := by
  unfold createFile
  split
  · exact Function.update_idem _ _ _
  · rfl

variable {slot : Fin 5} {content : List UInt8}

theorem appendData_ok (truncate : Bool) (short : content.length ≤ maxRecordBytes)
    (fits : (if truncate then [] else (segments slot).getD []).length + content.length ≤ segmentBytes) :
    appendData segmentBytes (createFile segments slot) slot content truncate =
      .ok (Function.update segments slot
        (some ((if truncate then [] else (segments slot).getD []) ++ content))) := by
  simp only [appendData, createFile_getD, update_createFile]
  rw [if_neg (Nat.not_lt.mpr short), if_neg (Nat.not_lt.mpr fits)]

theorem appendFrame_stays (short : content.length ≤ maxRecordBytes)
    (fits : ((segments slot).getD []).length + content.length ≤ segmentBytes) :
    appendFrame segmentBytes segments slot content =
      .ok (Function.update segments slot (some ((segments slot).getD [] ++ content))) := by
  have stays : ((segments slot).any fun file => decide (segmentBytes < file.length + content.length)) =
      false := by
    cases file : segments slot with
    | none => rfl
    | some old =>
      rw [file, Option.getD_some] at fits
      exact decide_eq_false (by omega)
  simp only [appendFrame, stays]
  exact appendData_ok false short fits

theorem appendFrame_rotates (short : content.length ≤ maxRecordBytes) (alone : content.length ≤ segmentBytes)
    (full : segmentBytes < ((segments slot).getD []).length + content.length) :
    appendFrame segmentBytes segments slot content =
      .ok (Function.update segments (slot + 1) (some content)) := by
  have rotates : ((segments slot).any fun file => decide (segmentBytes < file.length + content.length)) =
      true := by
    cases file : segments slot with
    | none =>
      rw [file, Option.getD_none, List.length_nil, Nat.zero_add] at full
      omega
    | some old =>
      rw [file, Option.getD_some] at full
      exact decide_eq_true full
  simp only [appendFrame, rotates, if_true]
  exact appendData_ok true short (by simpa using alone)

/-- The ring after a record went to the end of the newest segment. -/
theorem Ring.extend (ring : Ring segmentBytes segments written newest parts lost)
    (event : ManagedLifecycleEventV1) (room : (written.length : Int) + 1 ≤ maxSequence)
    (fits : ((segments newest).getD []).length +
      (rowBytes event (written.length + 1) ++ [newline]).length ≤ segmentBytes) :
    Ring segmentBytes
      (Function.update segments newest
        (some ((segments newest).getD [] ++ (rowBytes event (written.length + 1) ++ [newline]))))
      (written ++ [event]) newest
      (Function.update parts 4 (parts 4 ++ [⟨written.length + 1, event⟩])) lost := by
  have newestSlot : newest + 1 + 4 = newest := by omega
  refine ⟨?_, ?_, ?_, ?_, ?_⟩
  · have drop : (numbered (written ++ [event])).drop lost =
        (numbered written).drop lost ++ [⟨written.length + 1, event⟩] := by
      rw [numbered_append, List.drop_append_of_le_length]
      rw [length_numbered]
      exact ring.lost_le
    rw [drop, ← ring.whole]
    simp [slots, List.finRange, List.ofFn, Fin.foldr, Fin.foldr.loop, Function.update]
  · rw [List.length_append]
    have lost_le := ring.lost_le
    omega
  · intro offset
    have held := ring.holds offset
    by_cases last : offset = 4
    · subst last
      rw [newestSlot] at held ⊢
      rw [Function.update_self, Function.update_self]
      exact held.append ⟨written.length + 1, event⟩ fits
    · have other : newest + 1 + offset ≠ newest := by omega
      rw [Function.update_of_ne other, Function.update_of_ne last]
      exact held
  · intro _
    rw [Function.update_self]
    exact List.append_ne_nil_of_right_ne_nil _ (List.cons_ne_nil _ _)
  · rw [List.length_append, List.length_singleton]
    push_cast
    exact room

/-- The parts when the oldest one is given up for a record. -/
def rotated (parts : Fin 5 → List ManagedLifecycleRecordV1) (record : ManagedLifecycleRecordV1)
    (offset : Fin 5) : List ManagedLifecycleRecordV1 :=
  if offset = 4 then [record] else parts (offset + 1)

theorem rotated_last (parts : Fin 5 → List ManagedLifecycleRecordV1)
    (record : ManagedLifecycleRecordV1) : rotated parts record 4 = [record] := if_pos rfl

theorem rotated_other (parts : Fin 5 → List ManagedLifecycleRecordV1)
    (record : ManagedLifecycleRecordV1) {offset : Fin 5} (other : offset ≠ 4) :
    rotated parts record offset = parts (offset + 1) := if_neg other

theorem flatMap_rotated (parts : Fin 5 → List ManagedLifecycleRecordV1)
    (record : ManagedLifecycleRecordV1) :
    slots.flatMap (rotated parts record) = parts 1 ++ parts 2 ++ parts 3 ++ parts 4 ++ [record] := by
  simp [slots, List.finRange, List.ofFn, Fin.foldr, Fin.foldr.loop, rotated]

/-- The ring after the oldest segment was emptied for a record. -/
theorem Ring.rotate (ring : Ring segmentBytes segments written newest parts lost)
    (event : ManagedLifecycleEventV1) (room : (written.length : Int) + 1 ≤ maxSequence)
    (fits : (rowBytes event (written.length + 1) ++ [newline]).length ≤ segmentBytes) :
    Ring segmentBytes
      (Function.update segments (newest + 1) (some (rowBytes event (written.length + 1) ++ [newline])))
      (written ++ [event]) (newest + 1)
      (rotated parts ⟨written.length + 1, event⟩) (lost + (parts 0).length) := by
  have front : slots.flatMap parts = parts 0 ++ (parts 1 ++ parts 2 ++ parts 3 ++ parts 4) := by
    simp [slots, List.finRange, List.ofFn, Fin.foldr, Fin.foldr.loop]
  have behind : (numbered written).drop (lost + (parts 0).length) =
      parts 1 ++ parts 2 ++ parts 3 ++ parts 4 := by
    rw [← List.drop_drop, ← ring.whole, front, List.drop_left]
  have lost_le : lost + (parts 0).length ≤ written.length := by
    have length := congrArg List.length (ring.whole.symm.trans front)
    rw [List.length_drop, length_numbered, List.length_append] at length
    have before := ring.lost_le
    omega
  refine ⟨?_, ?_, ?_, ?_, ?_⟩
  · rw [numbered_append, List.drop_append_of_le_length (by rw [length_numbered]; exact lost_le), behind]
    exact flatMap_rotated parts _
  · rw [List.length_append]
    omega
  · intro offset
    by_cases last : offset = 4
    · subst last
      have here : newest + 1 + 1 + 4 = newest + 1 := by omega
      rw [here, Function.update_self, rotated_last]
      have none : Holds segmentBytes (some []) [] := ⟨rfl, Nat.zero_le _⟩
      have held := none.append ⟨written.length + 1, event⟩
        (by rw [Option.getD_some, List.length_nil, Nat.zero_add]; exact fits)
      rw [Option.getD_some, List.nil_append, List.nil_append] at held
      exact held
    · have other : newest + 1 + 1 + offset ≠ newest + 1 := by omega
      have shifted : newest + 1 + 1 + offset = newest + 1 + (offset + 1) := by omega
      rw [Function.update_of_ne other, rotated_other _ _ last, shifted]
      exact ring.holds (offset + 1)
  · intro _
    rw [rotated_last]
    exact List.cons_ne_nil _ _
  · rw [List.length_append, List.length_singleton]
    push_cast
    exact room

theorem Ring.writeEvent_eq (ring : Ring segmentBytes segments written newest parts lost)
    (event : ManagedLifecycleEventV1) :
    writeEvent segmentBytes segments event =
      (encode event (written.length + 1) >>= fun content =>
        appendFrame segmentBytes segments (continues written newest) content >>= fun segments =>
          pure (segments, (written.length : Int) + 1)) := by
  obtain ⟨latest, slot⟩ := ring.latest_eq
  rw [writeEvent, ring.snapshots_ok, ok_bind, ring.sequences_ok, ok_bind, writeBehind, if_neg (not_not.mpr ring.sequences_nodup)]
  simp only [latest, slot]

/-- A write behind the lock numbers its event next and keeps the ring. -/
theorem Ring.writeEvent_ok (ring : Ring segmentBytes segments written newest parts lost)
    (accepted : acceptsSegment segmentBytes) (event : ManagedLifecycleEventV1)
    (room : (written.length : Int) + 1 ≤ maxSequence) :
    ∃ segments' newest' parts' lost',
      writeEvent segmentBytes segments event = .ok (segments', written.length + 1) ∧
        Ring segmentBytes segments' (written ++ [event]) newest' parts' lost' := by
  have placed := ring.aligned
  rw [ring.writeEvent_eq]
  obtain ⟨encoded, -, short, -⟩ := @encode_spec event (written.length + 1) ⟨by omega, room⟩
  have length : (rowBytes event (written.length + 1) ++ [newline]).length ≤ 134 := by
    rw [List.length_append, List.length_singleton]
    omega
  have record : (rowBytes event (written.length + 1) ++ [newline]).length ≤ maxRecordBytes := by
    unfold maxRecordBytes
    omega
  have alone : (rowBytes event (written.length + 1) ++ [newline]).length ≤ segmentBytes := by
    have least := accepted.1
    unfold frameBytes at least
    omega
  rw [encoded, ok_bind]
  rcases Nat.lt_or_ge segmentBytes (((segments (continues written newest)).getD []).length +
    (rowBytes event (written.length + 1) ++ [newline]).length) with full | fits
  · have next := placed.rotate event room alone
    refine ⟨_, _, _, _, ?_, next⟩
    rw [appendFrame_rotates record alone full]
    rfl
  · have next := placed.extend event room fits
    refine ⟨_, _, _, _, ?_, next⟩
    rw [appendFrame_stays record fits]
    rfl

/-- It fails only when the numbers run out. -/
theorem Ring.writeEvent_full (ring : Ring segmentBytes segments written newest parts lost)
    (event : ManagedLifecycleEventV1) (crowded : ¬(written.length : Int) + 1 ≤ maxSequence) :
    writeEvent segmentBytes segments event = .error .capacity := by
  rw [ring.writeEvent_eq, encode, if_pos fun inside => crowded inside.2]
  rfl

/-! ## Reading the tail -/

/-- The last `limit` items of a list of parts are told by ends of the parts that are whole
or long enough. -/
theorem drop_flatMap_suffix {ι α : Type} (items : List ι) (shown parts : ι → List α) (limit : Nat)
    (suffix : ∀ i ∈ items, shown i <:+ parts i)
    (enough : ∀ i ∈ items, shown i = parts i ∨ limit ≤ (shown i).length) :
    (items.flatMap shown).drop ((items.flatMap shown).length - limit) =
      (items.flatMap parts).drop ((items.flatMap parts).length - limit) := by
  induction items using List.reverseRecOn generalizing limit with
  | nil => rfl
  | append_singleton items item ih =>
    have earlier : ∀ i ∈ items, i ∈ items ++ [item] := fun i => List.mem_append_left _
    have here : item ∈ items ++ [item] := List.mem_append_right _ List.mem_cons_self
    obtain ⟨lost, joined⟩ := suffix item here
    simp only [List.flatMap_append, List.flatMap_singleton]
    have longer := congrArg List.length joined
    rw [List.length_append] at longer
    rcases Nat.lt_or_ge (shown item).length limit with short | long
    · have whole := (enough item here).resolve_right (Nat.not_le.mpr short)
      have rest := @ih (limit - (shown item).length)
        (fun i member => suffix i (earlier i member))
        (fun i member => (enough i (earlier i member)).imp_right fun long => by omega)
      have cut : ∀ front : List α, (front ++ shown item).drop
          ((front ++ shown item).length - limit) =
          front.drop (front.length - (limit - (shown item).length)) ++ shown item := by
        intro front
        rw [List.drop_append_of_le_length (by rw [List.length_append]; omega), List.length_append]
        congr 2
        omega
      rw [← whole, cut, cut, rest]
    · have cut : ∀ (front back : List α), limit ≤ back.length →
          (front ++ back).drop ((front ++ back).length - limit) = back.drop (back.length - limit) := by
        intro front back fits
        have index : (front ++ back).length - limit = front.length + (back.length - limit) := by
          rw [List.length_append]
          omega
        rw [index, List.drop_length_add_append]
      rw [cut _ _ long, cut _ _ (by omega), ← joined, cut _ _ long]

theorem Ring.readTail_ok (ring : Ring segmentBytes segments written newest parts lost) {limit : Nat}
    (allowed : limit ≤ 100) :
    readTail segmentBytes segments limit =
      .ok ((numbered written).drop (written.length - min limit (written.length - lost))) := by
  have visible : ∀ offset, ∃ shown, shown <:+ parts offset ∧
      (shown = parts offset ∨ 100 ≤ shown.length) ∧
      segmentRecords ((segments (newest + 1 + offset)).map snapshotOf) = .ok shown := by
    intro offset
    obtain ⟨content_eq, -⟩ := ring.holds offset
    cases file : segments (newest + 1 + offset) with
    | none =>
      rw [file] at content_eq
      have none := (framed_eq_nil newline).mp content_eq.symm
      rw [List.map_eq_nil_iff.mp none]
      exact ⟨[], List.suffix_refl _, .inl rfl, rfl⟩
    | some content =>
      rw [file, Option.getD_some] at content_eq
      rw [content_eq]
      exact segmentRecords_framed (ring.writable offset) (ring.increasing.1 offset)
  choose shown suffix enough read using visible
  have parts_ok : (slots.map fun slot => (segments slot).map snapshotOf).mapM segmentRecords =
      .ok (slots.map fun slot => shown (ringOffset newest slot)) := by
    have each : ∀ slot ∈ slots, segmentRecords ((segments slot).map snapshotOf) =
        .ok (shown (ringOffset newest slot)) := by
      intro slot _
      have found := read (ringOffset newest slot)
      rwa [ringOffset_slot] at found
    exact mapM_map_ok each
  -- the reader meets the segments by slot, the ring orders them by age
  have perm : ((slots.map fun slot => shown (ringOffset newest slot)).flatten).Perm
      (slots.flatMap shown) := by
    have moved := (ringOffset_perm newest).flatMap_right shown
    rw [List.flatMap, List.map_map] at moved
    exact moved
  have inside : (slots.flatMap shown).Sublist (slots.flatMap parts) := by
    have each : ∀ items : List (Fin 5), (items.flatMap shown).Sublist (items.flatMap parts) := by
      intro items
      induction items with
      | nil => exact List.Sublist.refl _
      | cons item items ih =>
        rw [List.flatMap_cons, List.flatMap_cons]
        exact (suffix item).sublist.append ih
    exact each slots
  have increasing : ((slots.flatMap shown).map ManagedLifecycleRecordV1.sequence).Pairwise (· < ·) := by
    have all := numbered_increasing written
    refine all.sublist (List.Sublist.map _ (inside.trans ?_))
    rw [ring.whole]
    exact List.drop_sublist _ _
  have nodup : ((slots.flatMap shown).map ManagedLifecycleRecordV1.sequence).Nodup :=
    increasing.imp fun before => ne_of_lt before
  have sorted : sortedOn ManagedLifecycleRecordV1.sequence
      ((slots.map fun slot => shown (ringOffset newest slot)).flatten) = slots.flatMap shown := by
    rw [sortedOn_eq_of_perm perm]
    · apply sortedOn_eq_self
      exact (List.pairwise_map.mp increasing).imp fun before => le_of_lt before
    · intro one first other second same
      exact List.inj_on_of_nodup_map nodup (perm.mem_iff.mp first) (perm.mem_iff.mp second) same
  have last := drop_flatMap_suffix slots shown parts limit (fun i _ => suffix i)
    (fun i _ => (enough i).imp_right fun long => Nat.le_trans allowed long)
  rw [readTail, ring.snapshots_ok, ok_bind, parts_ok, ok_bind]
  dsimp only
  rw [if_neg (not_not.mpr ((perm.map _).nodup_iff.mpr nodup)), sorted, last, ring.whole,
    List.length_drop, length_numbered, List.drop_drop]
  congr 2
  have lost_le := ring.lost_le
  omega

end

/-! ## Runs -/

/-- What holds between a log and the events written to it. -/
def Kept (segmentBytes : Nat) (log : Log) (written : List ManagedLifecycleEventV1) : Prop :=
  (∃ newest parts lost, Ring segmentBytes log.segments written newest parts lost) ∧
    (written ≠ [] → log.lockFile = true)

theorem kept_fresh (segmentBytes : Nat) : Kept segmentBytes .fresh [] := by
  refine ⟨⟨0, fun _ => [], 0, ?_⟩, fun some => absurd rfl some⟩
  refine ⟨rfl, Nat.le_refl _, fun _ => ⟨rfl, Nat.zero_le _⟩, fun some => absurd rfl some, ?_⟩
  unfold maxSequence
  decide

variable {log : Log}

theorem Kept.of_segments {log' : Log} (kept : Kept segmentBytes log written)
    (same : log'.segments = log.segments) (stays : log.lockFile = true → log'.lockFile = true) :
    Kept segmentBytes log' written := by
  obtain ⟨ring, lock⟩ := kept
  refine ⟨?_, fun some => stays (lock some)⟩
  rw [same]
  exact ring

/-- One input keeps the log, and what it wrote got the next number. -/
theorem kept_step (accepted : acceptsSegment segmentBytes) (kept : Kept segmentBytes log written)
    (input : LogInput) {answer : Except StorageError (Option Int)} {log' : Log}
    (stepped : (logMachine segmentBytes).step log input = (answer, log')) :
    (∃ event, writtenEvent input answer = some event ∧
        returned answer = some ((written.length : Int) + 1) ∧ Kept segmentBytes log' (written ++ [event])) ∨
      (writtenEvent input answer = none ∧ returned answer = none ∧ Kept segmentBytes log' written) := by
  cases input with
  | reopen =>
    obtain ⟨rfl, rfl⟩ := Prod.mk.inj stepped
    exact .inr ⟨rfl, rfl, kept.of_segments rfl id⟩
  | write event attempt =>
    simp only [logMachine, Log.write] at stepped
    by_cases sealed : log.failed = true
    · have same : (Except.error .closed, log) = (answer, log') := by
        cases attempt <;> simpa only [if_pos sealed] using stepped
      obtain ⟨rfl, rfl⟩ := Prod.mk.inj same
      exact .inr ⟨rfl, rfl, kept⟩
    · cases attempt with
      | dropped =>
        simp only [if_neg sealed] at stepped
        obtain ⟨rfl, rfl⟩ := Prod.mk.inj stepped
        exact .inr ⟨rfl, rfl, kept.of_segments rfl fun _ => rfl⟩
      | fails leavesLockFile =>
        simp only [if_neg sealed] at stepped
        obtain ⟨rfl, rfl⟩ := Prod.mk.inj stepped
        refine .inr ⟨rfl, rfl, kept.of_segments rfl fun lock => ?_⟩
        rw [lock]
        rfl
      | admitted =>
        obtain ⟨⟨newest, parts, lost, ring⟩, lock⟩ := kept
        simp only [if_neg sealed] at stepped
        by_cases room : (written.length : Int) + 1 ≤ maxSequence
        · obtain ⟨segments', newest', parts', lost', wrote, next⟩ :=
            ring.writeEvent_ok accepted event room
          rw [wrote] at stepped
          obtain ⟨rfl, rfl⟩ := Prod.mk.inj stepped
          exact .inl ⟨event, rfl, rfl, ⟨newest', parts', lost', next⟩, fun _ => rfl⟩
        · rw [ring.writeEvent_full event room] at stepped
          obtain ⟨rfl, rfl⟩ := Prod.mk.inj stepped
          exact .inr ⟨rfl, rfl, ⟨newest, parts, lost, ring⟩, fun _ => rfl⟩

theorem kept_run (accepted : acceptsSegment segmentBytes) (inputs : List LogInput)
    (kept : Kept segmentBytes log written) :
    Kept segmentBytes ((logMachine segmentBytes).final log inputs)
        (written ++ acceptedEvents ((logMachine segmentBytes).trace log inputs)) ∧
      acceptedSequences ((logMachine segmentBytes).trace log inputs) =
        (List.range' (written.length + 1)
          (acceptedEvents ((logMachine segmentBytes).trace log inputs)).length).map Int.ofNat := by
  induction inputs generalizing log written with
  | nil =>
    refine ⟨?_, rfl⟩
    rw [Machine.trace, acceptedEvents, List.filterMap_nil, List.append_nil]
    exact kept
  | cons input inputs ih =>
    obtain ⟨answer, log', stepped⟩ :
        ∃ answer log', (logMachine segmentBytes).step log input = (answer, log') := ⟨_, _, rfl⟩
    have known := kept_step accepted kept input stepped
    rw [Machine.trace, Machine.final, stepped, acceptedEvents_cons, acceptedSequences_cons]
    rcases known with ⟨event, wrote, number, next⟩ | ⟨wrote, number, next⟩
    · obtain ⟨later, sequences⟩ := ih next
      rw [wrote, number, ← List.append_assoc, sequences, Option.toList_some, Option.toList_some,
        List.length_append, List.length_append, List.length_singleton, Nat.add_comm 1,
        List.range'_succ]
      exact ⟨later, rfl⟩
    · obtain ⟨later, sequences⟩ := ih next
      rw [wrote, number]
      exact ⟨later, sequences⟩

/-- In every run of a log, the retained segments hold the end of everything written, numbered
without gap, and a reader is given the last of these records, as many as it asks for. Only
before the lock file exists is it told that there is none. -/
theorem retained_is_end_of_written {segmentBytes : Nat} (accepted : acceptsSegment segmentBytes)
    (inputs : List LogInput) :
    let log := (logMachine segmentBytes).final .fresh inputs
    let written := acceptedEvents ((logMachine segmentBytes).trace .fresh inputs)
    acceptedSequences ((logMachine segmentBytes).trace .fresh inputs) =
        (List.range' 1 written.length).map Int.ofNat ∧
      (written ≠ [] → log.lockFile = true) ∧
      ∃ kept ≤ written.length, (written ≠ [] → 0 < kept) ∧
        retained segmentBytes log.segments =
          .ok ((numbered written).drop (written.length - kept)) ∧
        ∀ limit, 1 ≤ limit → limit ≤ 100 → log.readTail segmentBytes limit =
          if log.lockFile then .ok ((numbered written).drop (written.length - min limit kept))
          else .error (.storage .notFound) := by
  obtain ⟨⟨⟨newest, parts, lost, ring⟩, lock⟩, sequences⟩ :=
    kept_run accepted inputs (kept_fresh segmentBytes)
  rw [List.nil_append] at ring lock
  have lost_le := ring.lost_le
  refine ⟨sequences, lock, _, Nat.sub_le _ lost, ?_, ?_, ?_⟩
  · intro some
    have nonempty : slots.flatMap parts ≠ [] := by
      intro empty
      exact ring.last some (List.flatMap_eq_nil_iff.mp empty 4 (mem_slots 4))
    rw [ring.whole, Ne, List.drop_eq_nil_iff, length_numbered] at nonempty
    omega
  · rw [ring.retained_ok, Nat.sub_sub_self lost_le]
  · intro limit least allowed
    rw [Log.readTail, if_neg (not_not.mpr ⟨least, allowed⟩)]
    by_cases locked : ((logMachine segmentBytes).final .fresh inputs).lockFile = true
    · rw [if_neg (by rw [locked]; decide), if_pos locked, ring.readTail_ok allowed]
      rfl
    · rw [if_pos (Bool.eq_false_iff.mpr locked), if_neg locked]

/-- An event and a run that writes it twice, with a dropped attempt between. -/
def readyEvent : ManagedLifecycleEventV1 :=
  ⟨.ready, PyStr.ofString "0123456789abcdef0123456789abcdef", none, by decide⟩

def twoWrites : List LogInput :=
  [.write readyEvent .admitted, .write readyEvent .dropped, .write readyEvent .admitted]

theorem retained_is_end_of_two_written :
    acceptsSegment 256 ∧
      acceptedSequences ((logMachine 256).trace .fresh twoWrites) = [1, 2] := by
  have accepted : acceptsSegment 256 := by decide
  have run := (retained_is_end_of_written accepted twoWrites).1
  have count : (acceptedEvents ((logMachine 256).trace .fresh twoWrites)).length = 2 := by
    decide +kernel
  rw [count] at run
  exact ⟨accepted, run⟩

/-- A log nobody has written to has no lock file, and its reader is told so. -/
theorem fresh_log_not_read :
    ¬∀ (segmentBytes : Nat) (inputs : List LogInput) (limit : Nat), acceptsSegment segmentBytes →
      1 ≤ limit → limit ≤ 100 → ∀ records,
        retained segmentBytes ((logMachine segmentBytes).final .fresh inputs).segments = .ok records →
          ((logMachine segmentBytes).final .fresh inputs).readTail segmentBytes limit =
            .ok (records.drop (records.length - limit)) := by
  intro claimed
  have read := claimed 256 [] 1 (by decide) (by decide) (by decide) [] (by decide)
  have refused : Log.fresh.readTail 256 1 = .error (.storage .notFound) := rfl
  rw [Machine.final, refused] at read
  cases read

end Loushang.AppHost
