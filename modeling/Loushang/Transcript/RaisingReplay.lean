import Loushang.Lib.Folds
import Loushang.Transcript.Planner

/-!
# Replaying through ports that raise

`conversation/replay.py` again, with ports whose functions may raise, as those of a transcript
profile do. A replayed path grows by records that are no checkpoints: the projection then grows by
what those records reduce and show.
-/
namespace Loushang.Transcript
open Loushang.Lib

/-- What the folder raises itself, and what a port raises. -/
inductive ReplayFault (E : Type) where
  | blankRecordId
  | duplicateRecordId (recordId : String)
  | missingRecord (recordId : String)
  | port (error : E)

structure RaisingPorts (E R I T : Type) where
  recordId : R → String
  projectVisibleItem : R → Except E (Option I)
  initializeState : T
  reduceState : T → R → Except E T
  resolveCheckpoint : R → Except E (Option (Checkpoint I))

section

variable {E R I T : Type} (ports : RaisingPorts E R I T)

def lifted {A : Type} : Except E A → Except (ReplayFault E) A
  | .error error => .error (.port error)
  | .ok value => .ok value

/-- The loop of `replay` over all records: the ids read so far and the state. -/
def readRecords : List R → List String → T → Except (ReplayFault E) (List String × T)
  | [], ids, state => .ok (ids, state)
  | record :: rest, ids, state =>
    let id := ports.recordId record
    if isBlankText id then .error .blankRecordId
    else if id ∈ ids then .error (.duplicateRecordId id)
    else
      match ports.reduceState state record with
      | .error error => .error (.port error)
      | .ok reduced => readRecords rest (ids ++ [id]) reduced

/-- The loop of `_latest_checkpoint`, over the records from the last one on. -/
def firstResolved : List (R × Nat) → Except E (Option (Nat × Checkpoint I))
  | [] => .ok none
  | (record, index) :: rest =>
    match ports.resolveCheckpoint record with
    | .error error => .error error
    | .ok (some checkpoint) => .ok (some (index, checkpoint))
    | .ok none => firstResolved rest

/-- `_latest_checkpoint`. -/
def latestCheckpoint (records : List R) : Except E (Option (Nat × Checkpoint I)) :=
  firstResolved ports records.zipIdx.reverse

/-- `_project_items`. -/
def projectAll : List R → Except E (List (I × String))
  | [] => .ok []
  | record :: rest =>
    match ports.projectVisibleItem record with
    | .error error => .error error
    | .ok item => (projectAll rest).map fun items => (item.map fun item => (item, ports.recordId record)).toList ++ items

/-- The kept records before a checkpoint; a boundary that is not before it is an error. -/
def keptBefore (records : List R) (ids : List String) (index : Nat) (checkpoint : Checkpoint I) :
    Except (ReplayFault E) (List R) :=
  match ids.idxOf? checkpoint.firstKeptRecordId with
  | none => .error (.missingRecord checkpoint.firstKeptRecordId)
  | some boundary =>
    if boundary < index then .ok ((records.take index).drop boundary)
    else .error (.missingRecord checkpoint.firstKeptRecordId)

/-- `replay`, where a missing boundary is an error. -/
def raisingReplay (records : List R) : Except (ReplayFault E) (ReplayProjection I T) :=
  do
    let (ids, state) ← readRecords ports records [] ports.initializeState
    match ← lifted (latestCheckpoint ports records) with
    | none =>
      let items ← lifted (projectAll ports records)
      .ok ⟨items.map Prod.fst, state, items.map Prod.snd⟩
    | some (index, checkpoint) =>
      let kept ← keptBefore records ids index checkpoint
      let before ← lifted (projectAll ports kept)
      let after ← lifted (projectAll ports (records.drop (index + 1)))
      .ok ⟨checkpoint.summaryItem :: (before ++ after).map Prod.fst, state,
        ids.getD index "" :: (before ++ after).map Prod.snd⟩

/-- Going on from a projection, one record after the other. -/
def extendProjection : ReplayProjection I T → List R → Except E (ReplayProjection I T)
  | projection, [] => .ok projection
  | projection, record :: rest =>
    match ports.reduceState projection.state record with
    | .error error => .error error
    | .ok state =>
      match ports.projectVisibleItem record with
      | .error error => .error error
      | .ok none => extendProjection ⟨projection.items, state, projection.itemRecordIds⟩ rest
      | .ok (some item) =>
        extendProjection
          ⟨projection.items ++ [item], state, projection.itemRecordIds ++ [ports.recordId record]⟩ rest

/-- `any(resolve_checkpoint(record) is not None for record in records)`. -/
def anyCheckpoint : List R → Except E Bool
  | [] => .ok false
  | record :: rest =>
    match ports.resolveCheckpoint record with
    | .error error => .error error
    | .ok (some _) => .ok true
    | .ok none => anyCheckpoint rest

/-! ## A path that grows -/

variable {records : List R} {ids : List String}

theorem readRecords_eq_ok {ids' : List String} {state state' : T} :
    readRecords ports records ids state = .ok (ids', state') ↔
      (∀ record ∈ records, isBlankText (ports.recordId record) = false) ∧
      (records.map ports.recordId).Nodup ∧ (∀ record ∈ records, ports.recordId record ∉ ids) ∧
      records.foldlM ports.reduceState state = .ok state' ∧ ids' = ids ++ records.map ports.recordId := by
  induction records generalizing ids state with
  | nil =>
    simp only [readRecords, List.foldlM_nil, List.map_nil, List.append_nil, List.nodup_nil,
      List.not_mem_nil, false_implies, implies_true, true_and, pure, Except.pure, Except.ok.injEq, Prod.mk.injEq]
    exact ⟨fun ⟨one, two⟩ => ⟨two, one.symm⟩, fun ⟨two, one⟩ => ⟨one.symm, two⟩⟩
  | cons record rest ih =>
    simp only [readRecords]
    by_cases blank : isBlankText (ports.recordId record) = true
    · simp [blank]
    · rw [if_neg blank]
      by_cases known : ports.recordId record ∈ ids
      · simp [known]
      · rw [if_neg known]
        cases reduced : ports.reduceState state record with
        | error error => simp [List.foldlM_cons, reduced, bind, Except.bind]
        | ok after =>
          simp only [ih, List.foldlM_cons, reduced, bind, Except.bind, List.mem_cons, forall_eq_or_imp,
            List.map_cons, List.nodup_cons, List.append_assoc, List.singleton_append, List.mem_append,
            List.mem_map, not_or, not_exists, not_and]
          constructor
          · rintro ⟨text, distinct, apart, folded, same⟩
            exact ⟨⟨by simpa using blank, text⟩, ⟨fun other member equal => (apart other member).2.1 equal, distinct⟩,
              ⟨known, fun other member => (apart other member).1⟩, folded, same⟩
          · rintro ⟨⟨_, text⟩, ⟨new, distinct⟩, ⟨_, apart⟩, folded, same⟩
            exact ⟨text, distinct, fun other member => ⟨apart other member, new other member, by simp⟩,
              folded, same⟩

theorem firstResolved_append {front back : List (R × Nat)}
    (plain : ∀ entry ∈ front, ports.resolveCheckpoint entry.1 = .ok none) :
    firstResolved ports (front ++ back) = firstResolved ports back := by
  induction front with
  | nil => rfl
  | cons entry rest ih =>
    obtain ⟨record, index⟩ := entry
    rw [List.cons_append, firstResolved, plain (record, index) List.mem_cons_self]
    exact ih fun other member => plain other (List.mem_cons_of_mem _ member)

variable {checkpoint : Checkpoint I}

/-- A checkpoint is found at the place of a record that resolves to it. -/
theorem firstResolved_mem {entries : List (R × Nat)} {index : Nat}
    (found : firstResolved ports entries = .ok (some (index, checkpoint))) :
    ∃ record, (record, index) ∈ entries ∧ ports.resolveCheckpoint record = .ok (some checkpoint) := by
  induction entries with
  | nil => cases found
  | cons entry rest ih =>
    obtain ⟨record, place⟩ := entry
    rw [firstResolved] at found
    cases resolved : ports.resolveCheckpoint record with
    | error error =>
      rw [resolved] at found
      cases found
    | ok answer =>
      rw [resolved] at found
      cases answer with
      | none =>
        obtain ⟨other, member, here⟩ := ih found
        exact ⟨other, List.mem_cons_of_mem _ member, here⟩
      | some first =>
        obtain ⟨rfl, rfl⟩ : place = index ∧ first = checkpoint := by simpa using found
        exact ⟨record, List.mem_cons_self, resolved⟩

variable {front back : List R}

theorem latestCheckpoint_append (plain : ∀ record ∈ back, ports.resolveCheckpoint record = .ok none) :
    latestCheckpoint ports (front ++ back) = latestCheckpoint ports front := by
  unfold latestCheckpoint
  rw [List.zipIdx_append, List.reverse_append]
  refine firstResolved_append ports fun entry member => plain entry.1 ?_
  exact List.fst_mem_of_mem_zipIdx (List.mem_reverse.mp member)

theorem latestCheckpoint_lt {index : Nat}
    (found : latestCheckpoint ports records = .ok (some (index, checkpoint))) : index < records.length := by
  obtain ⟨record, member, _⟩ := firstResolved_mem ports found
  simpa using (List.mem_zipIdx (List.mem_reverse.mp member)).2.1

variable {items : List (I × String)}

theorem projectAll_append :
    projectAll ports (front ++ back) = .ok items ↔
      ∃ before after, projectAll ports front = .ok before ∧ projectAll ports back = .ok after ∧
        items = before ++ after := by
  induction front generalizing items with
  | nil => simp [projectAll]
  | cons record rest ih =>
    simp only [List.cons_append, projectAll]
    cases shown : ports.projectVisibleItem record with
    | error error => simp
    | ok item =>
      simp only [Except.map_ok_iff, ih]
      constructor
      · rintro ⟨_, ⟨before, after, one, two, rfl⟩, rfl⟩
        exact ⟨_, after, ⟨before, one, rfl⟩, two, (List.append_assoc _ _ _).symm⟩
      · rintro ⟨_, after, ⟨before, one, rfl⟩, two, rfl⟩
        exact ⟨_, ⟨before, after, one, two, rfl⟩, (List.append_assoc _ _ _).symm⟩

variable {projection extended : ReplayProjection I T}

theorem extendProjection_eq_ok :
    extendProjection ports projection records = .ok extended ↔
      ∃ state items, records.foldlM ports.reduceState projection.state = .ok state ∧
        projectAll ports records = .ok items ∧
        extended = ⟨projection.items ++ items.map Prod.fst, state,
          projection.itemRecordIds ++ items.map Prod.snd⟩ := by
  induction records generalizing projection with
  | nil => simp [extendProjection, projectAll, pure, Except.pure, eq_comm]
  | cons record rest ih =>
    simp only [extendProjection, List.foldlM_cons, projectAll, bind, Except.bind]
    cases ports.reduceState projection.state record with
    | error error => simp
    | ok state =>
      cases ports.projectVisibleItem record with
      | error error => simp
      | ok item =>
        simp only [Except.map_ok_iff]
        cases item with
        | none => simp [ih]
        | some item => simp [ih]

theorem lifted_eq_ok {A : Type} {outcome : Except E A} {value : A} :
    lifted outcome = .ok value ↔ outcome = .ok value := by
  cases outcome <;> simp [lifted]

/-- What a replay of the whole path answers from its parts. -/
def projectionOf (ids : List String) (state : T) : Option (Nat × Checkpoint I) → List (I × String) →
    ReplayProjection I T
  | none, items => ⟨items.map Prod.fst, state, items.map Prod.snd⟩
  | some (index, checkpoint), items =>
    ⟨checkpoint.summaryItem :: items.map Prod.fst, state, ids.getD index "" :: items.map Prod.snd⟩

theorem projectionOf_state (ids : List String) (state : T) (found : Option (Nat × Checkpoint I))
    (items : List (I × String)) : (projectionOf ids state found items).state = state := by
  cases found <;> rfl

variable {found : Option (Nat × Checkpoint I)}

theorem projectionOf_append {more : List String} {state state' : T} {later : List (I × String)}
    (fits : ∀ index checkpoint, found = some (index, checkpoint) → index < ids.length) :
    projectionOf (ids ++ more) state' found (items ++ later) =
      ⟨(projectionOf ids state found items).items ++ later.map Prod.fst, state',
        (projectionOf ids state found items).itemRecordIds ++ later.map Prod.snd⟩ := by
  cases found with
  | none => simp [projectionOf]
  | some entry =>
    obtain ⟨index, checkpoint⟩ := entry
    have before := fits index checkpoint rfl
    simp [projectionOf, List.getElem?_append_left before]

/-- The records of a path that are shown after its latest checkpoint, if any. -/
def shownRecords (records : List R) (ids : List String) :
    Option (Nat × Checkpoint I) → Except (ReplayFault E) (List R)
  | none => .ok records
  | some (index, checkpoint) =>
    (keptBefore records ids index checkpoint).map fun kept => kept ++ records.drop (index + 1)

theorem raisingReplay_eq_ok :
    raisingReplay ports records = .ok projection ↔
      ∃ ids state found shown items,
        readRecords ports records [] ports.initializeState = .ok (ids, state) ∧
        latestCheckpoint ports records = .ok found ∧
        shownRecords (E := E) records ids found = .ok shown ∧ projectAll ports shown = .ok items ∧
        projection = projectionOf ids state found items := by
  unfold raisingReplay
  simp only [Except.bind_ok_iff, lifted_eq_ok]
  constructor
  · rintro ⟨⟨ids, state⟩, read, found, latest, rest⟩
    cases found with
    | none =>
      simp only [Except.bind_ok_iff, lifted_eq_ok] at rest
      obtain ⟨items, projected, done⟩ := rest
      cases done
      exact ⟨ids, state, none, records, items, read, latest, rfl, projected, rfl⟩
    | some entry =>
      obtain ⟨index, checkpoint⟩ := entry
      simp only [Except.bind_ok_iff, lifted_eq_ok] at rest
      obtain ⟨kept, keeps, before, one, after, two, done⟩ := rest
      cases done
      exact ⟨ids, state, some (index, checkpoint), kept ++ records.drop (index + 1), before ++ after, read,
        latest, by simp [shownRecords, keeps, Except.map],
        (projectAll_append ports).mpr ⟨before, after, one, two, rfl⟩, rfl⟩
  · rintro ⟨ids, state, found, shown, items, read, latest, shows, projected, rfl⟩
    refine ⟨(ids, state), read, found, latest, ?_⟩
    cases found with
    | none =>
      cases shows
      simp only [Except.bind_ok_iff, lifted_eq_ok]
      exact ⟨items, projected, rfl⟩
    | some entry =>
      obtain ⟨index, checkpoint⟩ := entry
      obtain ⟨kept, keeps, rfl⟩ := Except.map_ok_iff.mp shows
      obtain ⟨before, after, one, two, rfl⟩ := (projectAll_append ports).mp projected
      simp only [Except.bind_ok_iff, lifted_eq_ok]
      exact ⟨kept, keeps, before, one, after, two, rfl⟩

variable {shown : List R}

/-- Later records do not move a boundary that lies before its checkpoint. -/
theorem shownRecords_append (back : List R) (more : List String)
    (inside : ∀ index checkpoint, found = some (index, checkpoint) → index < front.length)
    (shows : shownRecords (E := E) front ids found = .ok shown) :
    shownRecords (E := E) (front ++ back) (ids ++ more) found = .ok (shown ++ back) := by
  cases found with
  | none =>
    cases shows
    rfl
  | some entry =>
    obtain ⟨index, checkpoint⟩ := entry
    have before := inside index checkpoint rfl
    obtain ⟨kept, keeps, rfl⟩ := Except.map_ok_iff.mp shows
    have dropped : (front ++ back).drop (index + 1) = front.drop (index + 1) ++ back :=
      List.drop_append_of_le_length (by omega)
    have taken : (front ++ back).take index = front.take index :=
      List.take_append_of_le_length (by omega)
    have same : keptBefore (E := E) (front ++ back) (ids ++ more) index checkpoint = .ok kept := by
      unfold keptBefore at keeps ⊢
      cases place : ids.idxOf? checkpoint.firstKeptRecordId with
      | none =>
        rw [place] at keeps
        cases keeps
      | some boundary =>
        have later : (ids ++ more).idxOf? checkpoint.firstKeptRecordId = some boundary := by
          rw [List.idxOf?, List.findIdx?_append]
          rw [List.idxOf?] at place
          simp [place]
        rw [place] at keeps
        rw [later, taken]
        exact keeps
    simp [shownRecords, same, Except.map, dropped]

/-- A replayed path that grows by records that are no checkpoints. -/
theorem raisingReplay_append (old : raisingReplay ports front = .ok projection)
    (text : ∀ record ∈ back, isBlankText (ports.recordId record) = false)
    (distinct : ((front ++ back).map ports.recordId).Nodup)
    (plain : ∀ record ∈ back, ports.resolveCheckpoint record = .ok none) :
    raisingReplay ports (front ++ back) = .ok extended ↔ extendProjection ports projection back = .ok extended := by
  obtain ⟨ids, state, found, shown, items, read, latest, shows, projected, rfl⟩ :=
    (raisingReplay_eq_ok ports).mp old
  have inside : ∀ index checkpoint, found = some (index, checkpoint) → index < front.length := by
    rintro index checkpoint rfl
    exact latestCheckpoint_lt ports latest
  obtain ⟨clean, _, _, folded, rfl⟩ := (readRecords_eq_ok ports).mp read
  have grown : latestCheckpoint ports (front ++ back) = .ok found :=
    (latestCheckpoint_append ports plain).trans latest
  have showsAll := shownRecords_append back (back.map ports.recordId) inside shows
  have fits : ∀ index checkpoint, found = some (index, checkpoint) →
      index < ([] ++ front.map ports.recordId).length := by simpa using inside
  rw [raisingReplay_eq_ok, extendProjection_eq_ok, projectionOf_state]
  constructor
  · rintro ⟨ids', state', found', shown', items', read', latest', shows', projected', rfl⟩
    obtain rfl : found = found' := by simpa using grown.symm.trans latest'
    obtain ⟨_, _, _, folded', rfl⟩ := (readRecords_eq_ok ports).mp read'
    rw [List.foldlM_append, folded] at folded'
    rw [List.nil_append, List.map_append] at shows'
    obtain rfl : shown ++ back = shown' := by simpa using showsAll.symm.trans shows'
    obtain ⟨first, later, one, two, rfl⟩ := (projectAll_append ports).mp projected'
    obtain rfl : items = first := by simpa using projected.symm.trans one
    refine ⟨state', later, folded', two, ?_⟩
    rw [List.nil_append, List.nil_append, List.map_append]
    exact projectionOf_append fits
  · rintro ⟨state', later, folded', two, rfl⟩
    refine ⟨_, state', found, shown ++ back, items ++ later, ?_, grown, showsAll,
      (projectAll_append ports).mpr ⟨items, later, projected, two, rfl⟩, (projectionOf_append fits).symm⟩
    rw [readRecords_eq_ok]
    refine ⟨?_, distinct, fun _ _ => List.not_mem_nil, ?_, by simp⟩
    · exact List.forall_mem_append.mpr ⟨clean, text⟩
    · rw [List.foldlM_append, folded]
      exact folded'

theorem anyCheckpoint_eq_false :
    anyCheckpoint ports records = .ok false ↔
      ∀ record ∈ records, ports.resolveCheckpoint record = .ok none := by
  induction records with
  | nil => simp [anyCheckpoint]
  | cons record rest ih =>
    rw [anyCheckpoint, List.forall_mem_cons, ← ih]
    cases ports.resolveCheckpoint record with
    | error error => simp
    | ok answer => cases answer <;> simp

/-- The search raises at the first record that does not resolve to nothing. -/
theorem anyCheckpoint_eq_error {error : E} :
    anyCheckpoint ports records = .error error ↔
      ∃ before record after, records = before ++ record :: after ∧
        (∀ other ∈ before, ports.resolveCheckpoint other = .ok none) ∧
        ports.resolveCheckpoint record = .error error := by
  induction records with
  | nil => simp [anyCheckpoint]
  | cons head rest ih =>
    rw [anyCheckpoint]
    constructor
    · intro raised
      cases resolved : ports.resolveCheckpoint head with
      | error other =>
        rw [resolved] at raised
        cases raised
        exact ⟨[], head, rest, rfl, by simp, resolved⟩
      | ok answer =>
        rw [resolved] at raised
        cases answer with
        | some checkpoint => cases raised
        | none =>
          obtain ⟨before, record, after, rfl, plain, here⟩ := ih.mp raised
          exact ⟨head :: before, record, after, rfl, List.forall_mem_cons.mpr ⟨resolved, plain⟩, here⟩
    · rintro ⟨before, record, after, same, plain, here⟩
      cases before with
      | nil =>
        obtain ⟨rfl, rfl⟩ : head = record ∧ rest = after := by simpa using same
        rw [here]
      | cons first before =>
        obtain ⟨rfl, rfl⟩ : head = first ∧ rest = before ++ record :: after := by simpa using same
        obtain ⟨resolved, plain⟩ := List.forall_mem_cons.mp plain
        rw [resolved]
        exact ih.mpr ⟨before, record, after, rfl, plain, here⟩

theorem projectAll_ids (projected : projectAll ports records = .ok items) :
    items.map Prod.snd ⊆ records.map ports.recordId := by
  induction records generalizing items with
  | nil =>
    cases projected
    exact List.nil_subset _
  | cons record rest ih =>
    rw [projectAll] at projected
    cases shown : ports.projectVisibleItem record with
    | error error =>
      rw [shown] at projected
      cases projected
    | ok item =>
      rw [shown] at projected
      obtain ⟨later, done, rfl⟩ := Except.map_ok_iff.mp projected
      have behind := List.subset_cons_of_subset (ports.recordId record) (ih done)
      cases item with
      | none => exact behind
      | some item => exact List.cons_subset.mpr ⟨List.mem_cons_self, behind⟩

theorem shownRecords_subset (shows : shownRecords (E := E) records ids found = .ok shown) :
    shown ⊆ records := by
  cases found with
  | none =>
    cases shows
    exact List.Subset.refl _
  | some entry =>
    obtain ⟨index, checkpoint⟩ := entry
    obtain ⟨kept, keeps, rfl⟩ := Except.map_ok_iff.mp shows
    refine List.append_subset.mpr ⟨?_, List.drop_subset _ _⟩
    unfold keptBefore at keeps
    split at keeps
    · cases keeps
    · split at keeps
      · cases keeps
        exact List.Subset.trans (List.drop_subset _ _) (List.take_subset _ _)
      · cases keeps

/-- The ids of a projection are ids of its path. -/
theorem itemRecordIds_subset (replayed : raisingReplay ports records = .ok projection) :
    projection.itemRecordIds ⊆ records.map ports.recordId := by
  obtain ⟨ids, state, found, shown, items, read, latest, shows, projected, rfl⟩ :=
    (raisingReplay_eq_ok ports).mp replayed
  have behind := List.Subset.trans (projectAll_ids ports projected)
    (List.map_subset ports.recordId (shownRecords_subset shows))
  cases found with
  | none => exact behind
  | some entry =>
    obtain ⟨index, checkpoint⟩ := entry
    obtain ⟨_, _, _, _, rfl⟩ := (readRecords_eq_ok ports).mp read
    have inside := latestCheckpoint_lt ports latest
    refine List.cons_subset.mpr ⟨?_, behind⟩
    have place : (records.map ports.recordId)[index]? = some (ports.recordId records[index]) := by
      rw [List.getElem?_map, List.getElem?_eq_getElem inside]
      rfl
    rw [List.nil_append, List.getD_eq_getElem?_getD, place]
    exact List.mem_map_of_mem (List.getElem_mem inside)

/-- A path that is replayed has been reduced record by record. -/
theorem reduced_of_raisingReplay (replayed : raisingReplay ports records = .ok projection) :
    ∃ state, records.foldlM ports.reduceState ports.initializeState = .ok state := by
  obtain ⟨ids, state, _, _, _, read, _⟩ := (raisingReplay_eq_ok ports).mp replayed
  exact ⟨state, ((readRecords_eq_ok ports).mp read).2.2.2.1⟩

end

end Loushang.Transcript
