import Loushang.UnitOfWork.DefaultReplay
import Loushang.UnitOfWork.Growth

/-!
# The replay cache

A cached projection is the one the profile gives for the cached records, for as long as the profile is
at the cached revision. A replay that extends it answers as a replay of the whole path does, but for
one thing: the search for checkpoints in the new records raises at the first of them whose creation
time cannot be read, where the whole replay only looks at the last.
-/
namespace Loushang.UnitOfWork
open Loushang.Lib Loushang.Branch Loushang.Transcript Loushang.Conversation

/-- Records that are the same objects one by one are the front of the longer list. -/
theorem ObjectIdentity.front {R : Type} (identity : ObjectIdentity R) {old new : List R}
    (shorter : old.length ≤ new.length)
    (same : (old.zip new).all (fun pair => identity.same pair.1 pair.2) = true) :
    new = old ++ new.drop old.length := by
  induction old generalizing new with
  | nil => rfl
  | cons record rest ih =>
    cases new with
    | nil => cases shorter
    | cons head tail =>
      simp only [List.zip_cons_cons, List.all_cons, Bool.and_eq_true] at same
      have later := ih (by simpa using shorter) same.2
      rw [identity.reads record head same.1, List.length_cons, List.drop_succ_cons, List.cons_append, ← later]

namespace TranscriptUnitOfWork

variable {W H B τ S : Type} (around : Surroundings H B τ S)

/-- The call answers as the profile does for the active path of the moment. -/
def AnswersAsProfile (u : TranscriptUnitOfWork W H B τ S) : UnitInput W B τ → Prop
  | .replayProjection moment => ∃ path, u.activePath.1 = .ok path ∧
      ∀ projection, (u.replayProjection around moment).1 = .ok projection ↔
        u.profile.replayProjection around.timestampFromIso moment path = .ok projection
  | .replayContext moment => ∃ path, u.activePath.1 = .ok path ∧
      ∀ context, (u.replayContext around moment).1 = .ok context ↔
        u.profile.replay around.timestampFromIso moment path = .ok context
  | _ => True

/-- The first checkpoint among these records has a creation time that cannot be read. -/
def FirstCheckpointUnreadable (records : List (TranscriptRecord B)) : Prop :=
  ∃ before record after, records = before ++ record :: after ∧
    (∀ other ∈ before, isCompactionCheckpoint other = false) ∧ isCompactionCheckpoint record = true ∧
    ∃ message, around.timestampFromIso record.createdAt = .error message

/-- The path replays, but the cached projection is to be extended over records whose first checkpoint
cannot be read. -/
def Stumbles (u : TranscriptUnitOfWork W H B τ S) (moment : W) : Prop :=
  u.profile.hasDefaultReplaySemantics = true ∧ u.cachedProjection = none ∧
  ∃ path, u.activePath.1 = .ok path ∧
    (∃ projection, u.profile.replayProjection around.timestampFromIso moment path = .ok projection) ∧
    ∃ cache suffix, u.uncachedSuffix around path = some (cache, suffix) ∧
      u.profile.supportsIncrementalReplay around.timestampFromIso suffix = .ok true ∧
      FirstCheckpointUnreadable around suffix

/-- The condition of a step: a replay call does not stumble. -/
def Readable (u : TranscriptUnitOfWork W H B τ S) : UnitInput W B τ → Prop
  | .replayProjection moment | .replayContext moment => ¬ u.Stumbles around moment
  | _ => True

/-! ## What the cache holds -/

/-- A cached replay is right for its records, and these are the path it was made for. -/
structure CacheFits (u : TranscriptUnitOfWork W H B τ S) (cache : CachedReplay B τ) : Prop where
  object : cache.repository < u.nextObject
  path : cache.repository = u.repository.object →
    PathTo TranscriptRecord.recordId TranscriptRecord.parentId u.repository.records cache.leafId cache.records
  revision : cache.profileRevision ≤ u.profile.replayRevision
  projection : cache.profileRevision = u.profile.replayRevision →
    u.profile.hasDefaultReplaySemantics = true ∧ ∀ moment,
      u.profile.replayProjection around.timestampFromIso moment cache.records = .ok cache.projection

structure ReplayFits (u : TranscriptUnitOfWork W H B τ S) : Prop where
  kept : u.Kept
  cache : ∀ cache, u.replayCache = some cache → u.CacheFits around cache

variable {around}

variable {u : TranscriptUnitOfWork W H B τ S}

/-- Commits leave the cache right. -/
theorem ReplayFits.advance {u' : TranscriptUnitOfWork W H B τ S} {done : List (TranscriptRecord B)}
    (fits : u.ReplayFits around) (advanced : Advanced u u' done) : u'.ReplayFits around where
  kept := advanced.kept
  cache cache held := by
    rw [advanced.replayCache] at held
    obtain ⟨object, path, revision, projection⟩ := fits.cache cache held
    refine ⟨object.trans_le advanced.next, fun same => ?_, ?_, ?_⟩
    · rcases advanced.object with kept | new
      · rw [advanced.records]
        exact (path (same.trans kept)).append fits.kept.fits.sound done
      · omega
    · rw [advanced.profile]
      exact revision
    · rw [advanced.profile]
      exact projection

variable {selected : List (TranscriptRecord B)} {projection : Projection B τ}

/-- What a replay caches: the path of the leaf with the projection of every moment. -/
theorem ReplayFits.remember (fits : u.ReplayFits around)
    (selects : u.repository.Selects TranscriptRecord.recordId TranscriptRecord.parentId selected)
    (default_ : u.profile.hasDefaultReplaySemantics = true) {moment : W}
    (right : u.profile.replayProjection around.timestampFromIso moment selected = .ok projection) :
    (u.remember selected projection).ReplayFits around where
  kept := ⟨fits.kept.fits, fits.kept.fresh⟩
  cache cache held := by
    cases held
    have always : ∀ other, u.profile.replayProjection around.timestampFromIso other selected = .ok projection := by
      intro other
      unfold Profile.replayProjection at right ⊢
      rw [replayPorts_moment around.timestampFromIso default_ other moment]
      exact right
    exact ⟨fits.kept.fresh, fun _ => selects, le_rfl, fun _ => ⟨default_, always⟩⟩

theorem ReplayFits.forget (fits : u.ReplayFits around) : ReplayFits around { u with replayCache := none } :=
  ⟨⟨fits.kept.fits, fits.kept.fresh⟩, nofun⟩

/-! ## One replay -/

/-- A replay of the whole path answers as the profile does, and what it caches is right. -/
theorem replayWhole_spec (fits : u.ReplayFits around) (moment : W)
    (selects : u.repository.Selects TranscriptRecord.recordId TranscriptRecord.parentId selected) :
    (∀ projection, (u.replayWhole around moment selected).1 = .ok projection ↔
      u.profile.replayProjection around.timestampFromIso moment selected = .ok projection) ∧
    (u.replayWhole around moment selected).2.ReplayFits around ∧
    (u.replayWhole around moment selected).2.repository = u.repository := by
  unfold replayWhole
  cases whole : u.profile.replayProjection around.timestampFromIso moment selected with
  | error fault => exact ⟨fun projection => by simp, fits, rfl⟩
  | ok projection =>
    obtain ⟨answer, supported⟩ := supportsIncrementalReplay_answers around.timestampFromIso
      (semanticsFor_of_replayed around.timestampFromIso whole)
    rw [supported]
    refine ⟨fun other => by simp, ?_, ?_⟩
    · cases answer with
      | false => exact fits.forget
      | true =>
        have default_ : u.profile.hasDefaultReplaySemantics = true := by
          by_contra other
          simp [Profile.supportsIncrementalReplay, other] at supported
        exact fits.remember selects default_ whole
    · cases answer <;> rfl

variable {suffix : List (TranscriptRecord B)} {cache : CachedReplay B τ}

/-- The cached records begin the path a suffix is cut from. -/
theorem uncachedSuffix_spec (found : u.uncachedSuffix around selected = some (cache, suffix)) :
    u.replayCache = some cache ∧ cache.profileRevision = u.profile.replayRevision ∧
      selected = cache.records ++ suffix := by
  unfold uncachedSuffix at found
  obtain ⟨held, cached, found⟩ := Option.bind_eq_some_iff.mp found
  split at found
  · next usable =>
    cases found
    exact ⟨cached, usable.1, around.identity.front usable.2.1 usable.2.2⟩
  · cases found

variable {record : TranscriptRecord B}

variable (around) in
/-- The built-in resolution of a checkpoint raises where its creation time cannot be read. -/
theorem resolveCompactionCheckpoint_cases (checkpoint : isCompactionCheckpoint record = true) :
    match around.timestampFromIso record.createdAt with
    | .error message =>
      resolveCompactionCheckpoint around.timestampFromIso record = .error (.raised message)
    | .ok _ => ∃ found, resolveCompactionCheckpoint around.timestampFromIso record = .ok (some found) := by
  simp only [isCompactionCheckpoint, Bool.and_eq_true] at checkpoint
  have window := checkpoint.2
  unfold DecodedPayload.checkpointWindow? at window
  unfold resolveCompactionCheckpoint userMessage
  cases content : record.payload.content with
  | compactionCheckpoint summary firstKept ids window =>
    cases around.timestampFromIso record.createdAt with
    | error message => rfl
    | ok timestamp => exact ⟨_, rfl⟩
  | _ =>
    rw [content] at window
    cases window

/-- Over supported records the search for checkpoints raises at an unreadable first one. -/
theorem anyCheckpoint_raises_iff (moment : W) (default_ : u.profile.hasDefaultReplaySemantics = true)
    (supported : u.profile.supportsIncrementalReplay around.timestampFromIso suffix = .ok true) :
    (∃ fault, anyCheckpoint (u.profile.replayPorts around.timestampFromIso moment) suffix = .error fault) ↔
      FirstCheckpointUnreadable around suffix := by
  rw [Profile.supportsIncrementalReplay, if_pos default_] at supported
  have known := semanticsFor_of_supported around.timestampFromIso supported
  have resolves : ∀ record ∈ suffix, (u.profile.replayPorts around.timestampFromIso moment).resolveCheckpoint record =
      if isCompactionCheckpoint record then resolveCompactionCheckpoint around.timestampFromIso record else .ok none := by
    intro record member
    obtain ⟨semantics, found⟩ := known record member
    exact resolveCheckpoint_of_default around.timestampFromIso default_ moment found
  constructor
  · rintro ⟨fault, raised⟩
    obtain ⟨before, record, after, rfl, plain, here⟩ := (anyCheckpoint_eq_error _).mp raised
    refine ⟨before, record, after, rfl, fun other member => ?_, ?_⟩
    · by_contra checkpoint
      rw [Bool.not_eq_false] at checkpoint
      have resolved := plain other member
      rw [resolves other (by simp [member]), if_pos checkpoint] at resolved
      have cases_ := resolveCompactionCheckpoint_cases around checkpoint
      split at cases_
      · cases resolved.symm.trans cases_
      · obtain ⟨found, same⟩ := cases_
        cases resolved.symm.trans same
    · rw [resolves record (by simp)] at here
      by_cases checkpoint : isCompactionCheckpoint record = true
      · rw [if_pos checkpoint] at here
        have cases_ := resolveCompactionCheckpoint_cases around checkpoint
        split at cases_
        · next message unread => exact ⟨checkpoint, message, unread⟩
        · obtain ⟨found, same⟩ := cases_
          cases here.symm.trans same
      · rw [if_neg checkpoint] at here
        cases here
  · rintro ⟨before, record, after, rfl, plain, checkpoint, message, unread⟩
    refine ⟨.raised message, (anyCheckpoint_eq_error _).mpr ⟨before, record, after, rfl, fun other member => ?_, ?_⟩⟩
    · rw [resolves other (by simp [member]), if_neg (by simp [plain other member])]
    · have cases_ := resolveCompactionCheckpoint_cases around checkpoint
      rw [unread] at cases_
      rw [resolves record (by simp), if_pos checkpoint]
      exact cases_

/-- What extending the cached projection gives, against a replay of the whole path. -/
theorem incrementalProjection_spec (fits : u.ReplayFits around) (moment : W)
    (selects : u.repository.Selects TranscriptRecord.recordId TranscriptRecord.parentId selected)
    (default_ : u.profile.hasDefaultReplaySemantics = true)
    (found : u.uncachedSuffix around selected = some (cache, suffix)) :
    match u.incrementalProjection around moment cache suffix with
    | .ok none => ¬ (u.profile.supportsIncrementalReplay around.timestampFromIso suffix = .ok true ∧
        FirstCheckpointUnreadable around suffix)
    | .ok (some projection) =>
      u.profile.replayProjection around.timestampFromIso moment selected = .ok projection ∧
      ¬ FirstCheckpointUnreadable around suffix
    | .error _ =>
      (∀ projection, u.profile.replayProjection around.timestampFromIso moment selected ≠ .ok projection) ∨
      (u.profile.supportsIncrementalReplay around.timestampFromIso suffix = .ok true ∧
        FirstCheckpointUnreadable around suffix) := by
  obtain ⟨held, current, rfl⟩ := uncachedSuffix_spec found
  obtain ⟨_, _, _, right⟩ := fits.cache cache held
  have old := (right current).2 moment
  have distinct := selects.nodup fits.kept.fits.sound
  unfold incrementalProjection
  cases supports : u.profile.supportsIncrementalReplay around.timestampFromIso suffix with
  | error fault =>
    refine Or.inl fun projection whole => ?_
    have known := semanticsFor_of_replayed around.timestampFromIso whole
    obtain ⟨answer, supported⟩ := supportsIncrementalReplay_answers around.timestampFromIso
      fun record member => known record (List.mem_append_right _ member)
    cases supports.symm.trans supported
  | ok supported =>
    cases supported with
    | false => exact fun ⟨same, _⟩ => by cases same
    | true =>
      have raises := anyCheckpoint_raises_iff moment default_ supports
      dsimp only
      cases any_ : anyCheckpoint (u.profile.replayPorts around.timestampFromIso moment) suffix with
      | error fault => exact Or.inr ⟨rfl, raises.mp ⟨fault, any_⟩⟩
      | ok met =>
        have readable : ¬ FirstCheckpointUnreadable around suffix := by
          intro unreadable
          obtain ⟨fault, raised⟩ := raises.mpr unreadable
          cases any_.symm.trans raised
        cases met with
        | true => exact fun ⟨_, unreadable⟩ => readable unreadable
        | false =>
          have plain := (anyCheckpoint_eq_false _).mp any_
          have extends_ : ∀ extended, u.profile.replayProjection around.timestampFromIso moment
              (cache.records ++ suffix) = .ok extended ↔ extendProjection
                (u.profile.replayPorts around.timestampFromIso moment) cache.projection suffix = .ok extended :=
            fun extended => raisingReplay_append _ old (fun record _ => record.recordIdText) distinct plain
          cases extended : extendProjection (u.profile.replayPorts around.timestampFromIso moment)
              cache.projection suffix with
          | error fault =>
            refine Or.inl fun projection whole => ?_
            cases extended.symm.trans ((extends_ projection).mp whole)
          | ok projection => exact ⟨(extends_ projection).mpr extended, readable⟩

variable {path : List (TranscriptRecord B)}

/-- A projection cached for this leaf of this repository is the one of its path. -/
theorem cachedProjection_spec (fits : u.ReplayFits around) (cached : u.cachedProjection = some projection)
    (moment : W) (selects : u.repository.Selects TranscriptRecord.recordId TranscriptRecord.parentId path) :
    u.profile.replayProjection around.timestampFromIso moment path = .ok projection := by
  unfold cachedProjection at cached
  obtain ⟨cache, held, found⟩ := Option.bind_eq_some_iff.mp cached
  split at found
  · next current =>
    cases found
    obtain ⟨_, made, _, right⟩ := fits.cache cache held
    have own := made current.2.1
    rw [current.2.2] at own
    obtain rfl := own.unique selects
    exact (right current.1).2 moment
  · cases found

/-- A replay answers as the profile does unless it stumbles, and leaves the cache right. -/
theorem replayProjection_spec (fits : u.ReplayFits around) (moment : W) :
    ∃ path, u.activePath.1 = .ok path ∧
      u.repository.Selects TranscriptRecord.recordId TranscriptRecord.parentId path ∧
      ((∀ projection, (u.replayProjection around moment).1 = .ok projection ↔
        u.profile.replayProjection around.timestampFromIso moment path = .ok projection) ↔
        ¬ u.Stumbles around moment) ∧
      (∀ projection, (u.replayProjection around moment).1 = .ok projection →
        u.profile.replayProjection around.timestampFromIso moment path = .ok projection) ∧
      (u.replayProjection around moment).2.ReplayFits around ∧
      (u.replayProjection around moment).2.repository.records = u.repository.records := by
  obtain ⟨path, graph, active, selects, kept⟩ := fits.kept.activePath
  refine ⟨path, congrArg Prod.fst active, ?_⟩
  have reading : ReplayFits around { u with repository := { u.repository with graph } } :=
    fits.advance kept.remembered
  have stumbles_path : u.Stumbles around moment → u.profile.hasDefaultReplaySemantics = true ∧
      u.cachedProjection = none ∧
      (∃ projection, u.profile.replayProjection around.timestampFromIso moment path = .ok projection) ∧
      ∃ cache suffix, u.uncachedSuffix around path = some (cache, suffix) ∧
        u.profile.supportsIncrementalReplay around.timestampFromIso suffix = .ok true ∧
        FirstCheckpointUnreadable around suffix := by
    rintro ⟨default_, uncached, other, here, rest⟩
    obtain rfl : path = other := by simpa [active] using here
    exact ⟨default_, uncached, rest⟩
  unfold TranscriptUnitOfWork.replayProjection
  by_cases default_ : u.profile.hasDefaultReplaySemantics = true
  · rw [if_pos default_]
    cases cached : u.cachedProjection with
    | some projection =>
      refine ⟨selects, ?_, ?_, fits, rfl⟩
      · have whole := cachedProjection_spec fits cached moment selects
        refine iff_of_true (fun other => ?_) fun stumbles => ?_
        · simp [whole]
        · cases cached.symm.trans (stumbles_path stumbles).2.1
      · rintro _ ⟨⟩
        exact cachedProjection_spec fits cached moment selects
    | none =>
      rw [active]
      dsimp only
      have same : TranscriptUnitOfWork.uncachedSuffix around
          { u with repository := { u.repository with graph } } path = u.uncachedSuffix around path := rfl
      rw [same]
      obtain ⟨answers, after, kept_⟩ := replayWhole_spec reading moment selects
      have records : (replayWhole around { u with repository := { u.repository with graph } } moment
          path).2.repository.records = u.repository.records := by rw [kept_]
      cases found : u.uncachedSuffix around path with
      | none =>
        refine ⟨selects, iff_of_true answers fun stumbles => ?_, fun projection => (answers projection).mp, after,
          records⟩
        obtain ⟨_, _, _, cache, suffix, here, _⟩ := stumbles_path stumbles
        cases found.symm.trans here
      | some entry =>
        obtain ⟨cache, suffix⟩ := entry
        have extended := incrementalProjection_spec reading moment selects default_ found
        have stumbles_suffix : u.Stumbles around moment →
            u.profile.supportsIncrementalReplay around.timestampFromIso suffix = .ok true ∧
              FirstCheckpointUnreadable around suffix := by
          intro stumbles
          obtain ⟨_, _, _, cache', suffix', here, supported, unreadable⟩ := stumbles_path stumbles
          obtain ⟨rfl, rfl⟩ : cache = cache' ∧ suffix = suffix' := by simpa using found.symm.trans here
          exact ⟨supported, unreadable⟩
        dsimp only
        cases result : incrementalProjection around { u with repository := { u.repository with graph } }
            moment cache suffix with
        | error fault =>
          rw [result] at extended
          refine ⟨selects, ⟨fun answers stumbles => ?_, fun steady projection => ?_⟩, nofun, reading, rfl⟩
          · obtain ⟨_, _, ⟨projection, whole⟩, _⟩ := stumbles_path stumbles
            cases (answers projection).mpr whole
          · refine ⟨nofun, fun whole => ?_⟩
            rcases extended with never | ⟨supported, unreadable⟩
            · exact absurd whole (never projection)
            · exact absurd ⟨default_, cached, path, congrArg Prod.fst active, ⟨projection, whole⟩, cache, suffix,
                found, supported, unreadable⟩ steady
        | ok answer =>
          rw [result] at extended
          cases answer with
          | none =>
            exact ⟨selects, iff_of_true answers fun stumbles => extended (stumbles_suffix stumbles),
              fun projection => (answers projection).mp, after, records⟩
          | some projection =>
            obtain ⟨whole, readable⟩ := extended
            have whole' : u.profile.replayProjection around.timestampFromIso moment path = .ok projection := whole
            refine ⟨selects, iff_of_true (fun other => ?_) fun stumbles => ?_, ?_, ?_, rfl⟩
            · simp [whole']
            · exact readable (stumbles_suffix stumbles).2
            · rintro _ ⟨⟩
              exact whole
            · exact reading.remember selects default_ whole
  · rw [if_neg default_]
    obtain ⟨graph', active', kept'⟩ : ∃ graph', activePath { u with replayCache := none } =
        (.ok path, { u with replayCache := none, repository := { u.repository with graph := graph' } }) ∧
        Kept { u with replayCache := none, repository := { u.repository with graph := graph' } } := by
      refine ⟨graph, ?_, kept.fits, kept.fresh⟩
      have answer := congrArg Prod.fst active
      have after := congrArg (fun result => result.2.repository) active
      dsimp only [TranscriptUnitOfWork.activePath] at answer after ⊢
      rw [answer, after]
    rw [active']
    refine ⟨selects, iff_of_true (fun projection => ?_) fun stumbles => default_ stumbles.1, ?_, ?_, rfl⟩
    · cases whole : u.profile.replayProjection around.timestampFromIso moment path <;> simp [replayed, whole]
    · intro projection
      cases whole : u.profile.replayProjection around.timestampFromIso moment path <;> simp [replayed, whole]
    · exact ⟨kept', nofun⟩

/-! ## Contexts -/

/-- The only record with an id decides what a search for the id finds. -/
theorem findSome?_of_nodup {A : Type} (distinct : (path.map TranscriptRecord.recordId).Nodup)
    (member : record ∈ path) (f : TranscriptRecord B → Option A) :
    (path.findSome? fun other => if other.recordId = record.recordId then f other else none) = f record := by
  induction path with
  | nil => cases member
  | cons head rest ih =>
    obtain ⟨new, later⟩ := List.nodup_cons.mp distinct
    rw [List.findSome?_cons]
    rcases List.mem_cons.mp member with rfl | behind
    · have absent : (rest.findSome? fun other =>
          if other.recordId = record.recordId then f other else none) = none := by
        refine List.findSome?_eq_none_iff.mpr fun other here => ?_
        rw [if_neg fun same => new (List.mem_map.mpr ⟨other, here, same⟩)]
      rw [if_pos rfl, absent]
      cases f record <;> rfl
    · rw [if_neg fun same => new (List.mem_map.mpr ⟨record, behind, same.symm⟩)]
      exact ih later behind

variable {leafId : Option String}

/-- The repository and the path know one record by an id of the path. -/
theorem window_of_path (kept : u.Kept)
    (pathTo : PathTo TranscriptRecord.recordId TranscriptRecord.parentId u.repository.records leafId path)
    {id : String} (member : id ∈ path.map TranscriptRecord.recordId) :
    ((u.repository.get id).bind fun record => record.payload.checkpointWindow?) =
      path.findSome? fun record => if record.recordId = id then record.payload.checkpointWindow? else none := by
  obtain ⟨record, here, rfl⟩ := List.mem_map.mp member
  rw [kept.fits.get, find_of_mem TranscriptRecord.recordId kept.fits.sound.nodup (pathTo.subset here),
    findSome?_of_nodup (pathTo.nodup kept.fits.sound) here]
  rfl

/-- A replayed context is right whenever its projection is. -/
theorem replayContext_spec (fits : u.ReplayFits around) (moment : W) :
    ∃ path, u.activePath.1 = .ok path ∧
      ((∀ context, (u.replayContext around moment).1 = .ok context ↔
        u.profile.replay around.timestampFromIso moment path = .ok context) ↔ ¬ u.Stumbles around moment) ∧
      (u.replayContext around moment).2.ReplayFits around := by
  obtain ⟨path, here, selects, steady, right, after, records⟩ := replayProjection_spec fits moment
  refine ⟨path, here, ?_⟩
  unfold replayContext
  by_cases default_ : u.profile.hasDefaultReplaySemantics = true
  · rw [if_pos default_, ← steady]
    cases result : u.replayProjection around moment with
    | mk answer u' =>
      rw [result] at right after records
      cases answer with
      | error fault =>
        refine ⟨⟨fun answers projection => ⟨nofun, fun whole => ?_⟩, fun answers context => ⟨nofun, fun whole => ?_⟩⟩,
          after⟩
        · have mapped : ∃ context, u.profile.replay around.timestampFromIso moment path = .ok context := by
            rw [Profile.replay, whole]
            exact ⟨_, rfl⟩
          obtain ⟨context, mapped⟩ := mapped
          cases (answers context).mpr mapped
        · obtain ⟨projection, projected, _⟩ := Except.map_ok_iff.mp whole
          cases (answers projection).mpr projected
      | ok projection =>
        have whole := right projection rfl
        refine ⟨iff_of_true (fun context => ?_) fun other => ?_, after⟩
        · have window : (projection.itemRecordIds.head?.bind fun firstId =>
              ((u'.repository.get firstId).bind fun record => record.payload.checkpointWindow?).join) =
              projection.itemRecordIds.head?.bind fun firstId =>
                (path.findSome? fun record =>
                  if record.recordId = firstId then record.payload.checkpointWindow? else none).join := by
            cases first : projection.itemRecordIds.head? with
            | none => rfl
            | some firstId =>
              have member := itemRecordIds_subset _ whole (List.mem_of_head? first)
              have pathTo : PathTo TranscriptRecord.recordId TranscriptRecord.parentId u'.repository.records
                  u.repository.leafId path := by
                rw [records]
                exact selects
              exact congrArg Option.join (window_of_path after.kept pathTo member)
          dsimp only
          rw [Profile.replay, whole, window]
          simp [Except.map]
        · simp [whole]
  · rw [if_neg default_]
    obtain ⟨path', graph, active, _, kept⟩ := fits.kept.activePath
    obtain rfl : path' = path := by simpa [active] using here
    rw [active]
    refine ⟨iff_of_true (fun context => ?_) fun stumbles => default_ stumbles.1, fits.advance kept.remembered⟩
    cases whole : u.profile.replay around.timestampFromIso moment path' <;> simp [replayed, whole]

/-! ## Runs -/

/-- Selecting another leaf leaves the cache right. -/
theorem ReplayFits.select (fits : u.ReplayFits around) {repository : Repository (TranscriptRecord B)}
    (selected : repository.Fits TranscriptRecord.recordId TranscriptRecord.parentId u.heap)
    (records : repository.records = u.repository.records) (object : repository.object = u.repository.object) :
    ReplayFits around { u with repository } where
  kept := ⟨selected, object ▸ fits.kept.fresh⟩
  cache cache held := by
    obtain ⟨old, path, revision, projection⟩ := fits.cache cache held
    refine ⟨old, fun same => ?_, revision, projection⟩
    rw [records]
    exact path (same.trans object)

/-- A registration makes every cached projection one of an older policy. -/
theorem ReplayFits.register (fits : u.ReplayFits around) {profile : Profile W B τ}
    (newer : u.profile.replayRevision < profile.replayRevision) : ReplayFits around { u with profile } where
  kept := ⟨fits.kept.fits, fits.kept.fresh⟩
  cache cache held := by
    obtain ⟨old, path, revision, _⟩ := fits.cache cache held
    refine ⟨old, path, revision.trans newer.le, fun same => ?_⟩
    have current : cache.profileRevision = profile.replayRevision := same
    omega

theorem ReplayFits.start (header : H) (profile : Profile W B τ) (materialized : Bool) (store : S)
    {heap : Heap} {object : Nat} {records : List (TranscriptRecord B)}
    {made : Heap × Repository (TranscriptRecord B)}
    (created : Repository.create TranscriptRecord.recordId TranscriptRecord.parentId heap object records leafId =
      .ok made) : ReplayFits around (TranscriptUnitOfWork.start header profile materialized store made) :=
  ⟨⟨(Repository.create_fits created).1, Nat.lt_succ_self _⟩, nofun⟩

variable [DecidableEq H] [DecidableEq B]

/-- One call keeps the cache right, and a replay answers as the profile unless it stumbles. -/
theorem ReplayFits.step {u : TranscriptUnitOfWork W H B τ S} (fits : u.ReplayFits around)
    (input : UnitInput W B τ) :
    (u.AnswersAsProfile around input ↔ u.Readable around input) ∧ (u.step around input).2.ReplayFits around := by
  cases input with
  | commit call cancelled =>
    obtain ⟨done, advanced⟩ := runCommit_advances around fits.kept call cancelled
    exact ⟨Iff.rfl, fits.advance advanced⟩
  | branch recordId =>
    refine ⟨Iff.rfl, ?_⟩
    unfold TranscriptUnitOfWork.step
    cases branched : u.repository.branch recordId with
    | error fault =>
      dsimp only
      rw [branched]
      exact fits
    | ok repository =>
      obtain ⟨selected, records, object⟩ := fits.kept.fits.branch branched
      dsimp only
      rw [branched]
      exact fits.select selected records object
  | resetBranch => exact ⟨Iff.rfl, fits.select fits.kept.fits.resetBranch rfl rfl⟩
  | registerRecordProfile kind semantics replace =>
    refine ⟨Iff.rfl, ?_⟩
    unfold TranscriptUnitOfWork.step
    cases registered : u.profile.registerRecordProfile kind semantics replace with
    | error message =>
      dsimp only
      rw [registered]
      exact fits
    | ok profile =>
      have newer : profile.replayRevision = u.profile.replayRevision + 1 := by
        unfold Profile.registerRecordProfile at registered
        split at registered
        · cases registered
        · split at registered
          · cases registered
          · cases registered
            rfl
      dsimp only
      rw [registered]
      exact fits.register (by omega)
  | replayProjection moment =>
    obtain ⟨path, here, _, steady, _, after, _⟩ := replayProjection_spec fits moment
    refine ⟨?_, after⟩
    rw [TranscriptUnitOfWork.Readable, ← steady]
    constructor
    · rintro ⟨other, there, answers⟩
      obtain rfl := Except.ok.inj (here.symm.trans there)
      exact answers
    · exact fun answers => ⟨path, here, answers⟩
  | replayContext moment =>
    obtain ⟨path, here, steady, after⟩ := replayContext_spec fits moment
    refine ⟨?_, after⟩
    rw [TranscriptUnitOfWork.Readable, ← steady]
    constructor
    · rintro ⟨other, there, answers⟩
      obtain rfl := Except.ok.inj (here.symm.trans there)
      exact answers
    · exact fun answers => ⟨path, here, answers⟩

end TranscriptUnitOfWork

/-- In every run a replay call answers as the profile does for the active path of the moment, if and
only if it does not stumble over a new checkpoint whose creation time cannot be read. -/
theorem replay_cache_invisible_iff {W H B τ S : Type} [DecidableEq H] [DecidableEq B]
    (around : Surroundings H B τ S) (header : H) (profile : Profile W B τ) (materialized : Bool) (store : S)
    (heap : Heap) (object : Nat) (records : List (TranscriptRecord B)) (leafId : Option String)
    (made : Heap × Repository (TranscriptRecord B))
    (created : Repository.create TranscriptRecord.recordId TranscriptRecord.parentId heap object records leafId =
      .ok made) (inputs : List (UnitInput W B τ)) :
    (unitMachine around).AllSteps (fun u input => u.AnswersAsProfile around input ↔ u.Readable around input)
      (.start header profile materialized store made) inputs := by
  have step : ∀ (u : TranscriptUnitOfWork W H B τ S) (input : UnitInput W B τ), u.ReplayFits around → True →
      (u.AnswersAsProfile around input ↔ u.Readable around input) ∧
        ((unitMachine around).step u input).2.ReplayFits around :=
    fun _ input fits _ => fits.step input
  have start : TranscriptUnitOfWork.ReplayFits around (.start header profile materialized store made) :=
    .start header profile materialized store created
  exact (Machine.AllSteps.of_invariant step start (Machine.AllSteps.true _ _ inputs)).1

/-! ## An unreadable creation time -/

/-- A store that takes every record, and a clock text that only reads one moment. -/
def steadyStore : Surroundings Unit Unit Nat Unit where
  backend :=
    { create := fun store header records _ => (.ok ⟨header, records⟩, store)
      load := fun store => (.error (.failed "conversation not found"), store)
      append := fun store _ revision operationId => (.ok ⟨revision + 1, some operationId⟩, store)
      appendBatch := none }
  identity := ⟨fun a b => a = b, fun _ _ same => of_decide_eq_true same⟩
  timestampFromIso text := if text = "2026-01-01T00:00:00Z" then .ok 1767225600 else .error "Invalid isoformat string"
  materializationPolicy _ := true
  createOperationId := "create:agent:1"
  encodedSize _ := .ok 100
  rebuiltPurpose _ _ _ := .error "unknown snapshot"

def greetingRecord : TranscriptRecord Unit :=
  ⟨"r1", none, agentMessageKind, "2026-01-01T00:00:00Z", ⟨.userMessage (), []⟩, by decide⟩

def undatedCheckpoint : TranscriptRecord Unit :=
  ⟨"c1", some "r1", contextCompactionCheckpointKind, "yesterday",
    ⟨.compactionCheckpoint "greeted" "r1" [] none, []⟩, by decide⟩

def datedCheckpoint : TranscriptRecord Unit :=
  ⟨"c2", some "c1", contextCompactionCheckpointKind, "2026-01-01T00:00:00Z",
    ⟨.compactionCheckpoint "greeted" "r1" [] none, []⟩, by decide⟩

/-- The repository of an empty transcript. -/
def emptyRepository : Heap × Repository (TranscriptRecord Unit) :=
  ([], ⟨0, [], ⟨.strict, [], [], .empty, [], .empty, .empty, none⟩, none⟩)

def emptyUnit : TranscriptUnitOfWork Unit Unit Unit Nat Unit :=
  .start () (.create true) true () emptyRepository

theorem replay_cache_invisible_iff_empty :
    (unitMachine steadyStore).AllSteps
      (fun u input => u.AnswersAsProfile steadyStore input ↔ u.Readable steadyStore input)
      (.start () (.create true) true () emptyRepository)
      [.commit (.commit greetingRecord) false, .replayProjection ()] :=
  replay_cache_invisible_iff steadyStore () (.create true) true () [] 0 [] none emptyRepository rfl _

/-- A projection is cached, a checkpoint without a readable time follows it, and one with a readable time
follows that: the path replays, and the call raises. -/
def stumblingInputs : List (UnitInput Unit Unit Nat) :=
  [.commit (.commit greetingRecord) false, .replayProjection (), .commit (.commit undatedCheckpoint) false,
    .commit (.commit datedCheckpoint) false, .replayProjection ()]

/-- The unit before the last of these calls. -/
def twiceCompacted : TranscriptUnitOfWork Unit Unit Unit Nat Unit :=
  (unitMachine steadyStore).final emptyUnit (stumblingInputs.take 4)

theorem replay_cache_visible :
    ¬ (unitMachine steadyStore).AllSteps (fun u input => u.AnswersAsProfile steadyStore input) emptyUnit
      stumblingInputs := by
  intro invisible
  have last : twiceCompacted.AnswersAsProfile steadyStore (.replayProjection ()) := invisible.2.2.2.2.1
  obtain ⟨path, here, answers⟩ := last
  have raises : (twiceCompacted.replayProjection steadyStore ()).1.toOption.isNone = true := by
    decide
  have replays : (twiceCompacted.activePath.1.toOption.any fun path =>
      (twiceCompacted.profile.replayProjection steadyStore.timestampFromIso () path).toOption.isSome) = true := by
    decide
  rw [here] at replays
  cases whole : twiceCompacted.profile.replayProjection steadyStore.timestampFromIso () path with
  | error fault =>
    simp [Except.toOption, whole] at replays
  | ok projection =>
    rw [(answers projection).mpr whole] at raises
    cases raises

end Loushang.UnitOfWork
