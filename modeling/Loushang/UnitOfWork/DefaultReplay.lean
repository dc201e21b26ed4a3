import Loushang.UnitOfWork.Profile
import Mathlib.Data.List.Perm.Subperm

/-!
# Replay under the built-in semantics

A profile that says it has the default replay semantics holds built-in objects only, so its ports do
not depend on the moment. A path that replays is one whose records all have the payload their kind
asks for.
-/
namespace Loushang.UnitOfWork
open Loushang.Lib Loushang.Transcript

section

variable {W B τ : Type} {profile : Profile W B τ}

theorem holds_eq_true {semantics : BuiltinSemantics} :
    profile.holds semantics = true ↔ profile.semantics.get? semantics.kind = some (.builtin semantics) := by
  unfold Profile.holds
  split
  · next own found => simp [found, SemanticsObject.builtin.injEq]
  · next other =>
    refine ⟨by simp, fun found => ?_⟩
    exact absurd found (other semantics)

theorem builtin_kinds_nodup : (BuiltinSemantics.all.map BuiltinSemantics.kind).Nodup := by decide

/-- As many entries as there are built-in objects, and each of these under its kind: nothing else. -/
theorem builtin_of_default (default_ : profile.hasDefaultReplaySemantics = true) {kind : String}
    {object : SemanticsObject W B τ} (found : profile.semantics.get? kind = some object) :
    ∃ semantics, semantics.kind = kind ∧ object = .builtin semantics := by
  simp only [Profile.hasDefaultReplaySemantics, Bool.and_eq_true, List.all_eq_true, decide_eq_true_eq] at default_
  obtain ⟨⟨_, count⟩, each⟩ := default_
  have inside : BuiltinSemantics.all.map BuiltinSemantics.kind ⊆ profile.semantics.keys := by
    intro key member
    obtain ⟨semantics, here, rfl⟩ := List.mem_map.mp member
    exact Dict.get?_isSome.mp (by rw [holds_eq_true.mp (each semantics here)]; rfl)
  have all_ := (List.subperm_of_subset builtin_kinds_nodup inside).perm_of_length_le
    (by rw [Dict.keys, List.length_map, List.length_map, count])
  have known : kind ∈ profile.semantics.keys := Dict.get?_isSome.mp (by rw [found]; rfl)
  obtain ⟨semantics, here, rfl⟩ := List.mem_map.mp (all_.mem_iff.mpr known)
  refine ⟨semantics, rfl, ?_⟩
  have own := holds_eq_true.mp (each semantics here)
  rw [found] at own
  exact Option.some.inj own

theorem held_by_default (default_ : profile.hasDefaultReplaySemantics = true) (semantics : BuiltinSemantics) :
    profile.semantics.get? semantics.kind = some (.builtin semantics) := by
  simp only [Profile.hasDefaultReplaySemantics, Bool.and_eq_true, List.all_eq_true] at default_
  have member : semantics ∈ BuiltinSemantics.all := by cases semantics <;> decide
  exact holds_eq_true.mp (default_.2 semantics member)

variable (timestampFromIso : String → Except String τ)

variable {record : TranscriptRecord B}

/-- What a record means under the built-in semantics, if anything. -/
theorem semanticsFor_of_default (default_ : profile.hasDefaultReplaySemantics = true)
    {semantics : RecordSemantics W B τ}
    (found : profile.semanticsFor timestampFromIso record = .ok (some semantics)) :
    ∃ builtin : BuiltinSemantics, builtin.kind = record.kind ∧ semantics = builtin.fields timestampFromIso ∧
      record.payload.isInstance semantics.payloadTypes = true := by
  unfold Profile.semanticsFor at found
  split at found
  · cases found
  · split at found
    · cases found
    · next object held =>
      obtain ⟨builtin, kind, rfl⟩ := builtin_of_default default_ held
      dsimp only at found
      split at found
      · next instance_ =>
        cases found
        exact ⟨builtin, kind, rfl, instance_⟩
      · cases found

theorem recordToContextItem_moment (default_ : profile.hasDefaultReplaySemantics = true) (moment moment' : W)
    (record : TranscriptRecord B) :
    profile.recordToContextItem timestampFromIso moment record =
      profile.recordToContextItem timestampFromIso moment' record := by
  unfold Profile.recordToContextItem
  cases found : profile.semanticsFor timestampFromIso record with
  | error fault => rfl
  | ok semantics =>
    cases semantics with
    | none => rfl
    | some semantics =>
      obtain ⟨builtin, _, rfl, _⟩ := semanticsFor_of_default timestampFromIso default_ found
      cases builtin <;> rfl

theorem reduceState_moment (default_ : profile.hasDefaultReplaySemantics = true) (moment moment' : W)
    (state : TranscriptState) (record : TranscriptRecord B) :
    profile.reduceState timestampFromIso moment state record =
      profile.reduceState timestampFromIso moment' state record := by
  unfold Profile.reduceState
  cases found : profile.semanticsFor timestampFromIso record with
  | error fault => rfl
  | ok semantics =>
    cases semantics with
    | none => rfl
    | some semantics =>
      obtain ⟨builtin, _, rfl, _⟩ := semanticsFor_of_default timestampFromIso default_ found
      cases builtin <;> rfl

/-- A checkpoint record of the built-in kind. -/
def isCompactionCheckpoint (record : TranscriptRecord B) : Bool :=
  record.kind = contextCompactionCheckpointKind && record.payload.checkpointWindow?.isSome

theorem resolveCompactionCheckpoint_eq_none (plain : record.payload.checkpointWindow? = none) :
    resolveCompactionCheckpoint timestampFromIso record = .ok none := by
  unfold DecodedPayload.checkpointWindow? at plain
  unfold resolveCompactionCheckpoint
  cases content : record.payload.content with
  | compactionCheckpoint summary firstKept ids window =>
    rw [content] at plain
    cases plain
  | _ => rfl

/-- The built-in semantics resolve checkpoint records, and nothing else. -/
theorem resolveCheckpoint_of_default (default_ : profile.hasDefaultReplaySemantics = true) (moment : W)
    {semantics : Option (RecordSemantics W B τ)}
    (found : profile.semanticsFor timestampFromIso record = .ok semantics) :
    profile.resolveCheckpoint timestampFromIso moment record =
      if isCompactionCheckpoint record then resolveCompactionCheckpoint timestampFromIso record else .ok none := by
  unfold Profile.resolveCheckpoint
  rw [found]
  cases semantics with
  | none =>
    have other : isCompactionCheckpoint record = false := by
      by_contra checkpoint
      simp only [Bool.not_eq_false, isCompactionCheckpoint, Bool.and_eq_true, decide_eq_true_eq] at checkpoint
      obtain ⟨same, window⟩ := checkpoint
      have clear : record.payload.isOpaque = false := by
        unfold DecodedPayload.checkpointWindow? at window
        unfold DecodedPayload.isOpaque
        split at window
        · next content => rw [content]
        · cases window
      have held := held_by_default default_ .contextCompactionCheckpoint
      rw [BuiltinSemantics.kind, ← same] at held
      unfold Profile.semanticsFor at found
      rw [clear, held] at found
      rw [if_neg Bool.false_ne_true] at found
      dsimp only at found
      split at found <;> cases found
    rw [other]
    rfl
  | some semantics =>
    obtain ⟨builtin, kind, rfl, _⟩ := semanticsFor_of_default timestampFromIso default_ found
    by_cases own : builtin = .contextCompactionCheckpoint
    · subst own
      have same : record.kind = contextCompactionCheckpointKind := kind.symm
      cases window : record.payload.checkpointWindow? with
      | none =>
        simp only [isCompactionCheckpoint, window, Option.isSome_none, Bool.and_false, Bool.false_eq_true, if_false]
        exact resolveCompactionCheckpoint_eq_none timestampFromIso window
      | some window' =>
        have here : isCompactionCheckpoint record = true := by simp [isCompactionCheckpoint, same, window]
        rw [here]
        rfl
    · have other : isCompactionCheckpoint record = false := by
        have apart : builtin.kind ≠ contextCompactionCheckpointKind := by
          revert own
          cases builtin <;> decide
        simp [isCompactionCheckpoint, ← kind, apart]
      rw [other]
      revert own
      cases builtin <;> intro own <;> first | rfl | exact absurd rfl own

theorem resolveCheckpoint_moment (default_ : profile.hasDefaultReplaySemantics = true) (moment moment' : W)
    (record : TranscriptRecord B) :
    profile.resolveCheckpoint timestampFromIso moment record =
      profile.resolveCheckpoint timestampFromIso moment' record := by
  cases found : profile.semanticsFor timestampFromIso record with
  | error fault => simp [Profile.resolveCheckpoint, found]
  | ok semantics =>
    rw [resolveCheckpoint_of_default timestampFromIso default_ moment found,
      resolveCheckpoint_of_default timestampFromIso default_ moment' found]

/-- What a replay reads is the same at every moment. -/
theorem replayPorts_moment (default_ : profile.hasDefaultReplaySemantics = true) (moment moment' : W) :
    profile.replayPorts timestampFromIso moment = profile.replayPorts timestampFromIso moment' := by
  have project := funext (recordToContextItem_moment timestampFromIso default_ moment moment')
  have reduce := funext fun state => funext (reduceState_moment timestampFromIso default_ moment moment' state)
  have resolve := funext (resolveCheckpoint_moment timestampFromIso default_ moment moment')
  unfold Profile.replayPorts
  rw [project, reduce, resolve]

/-! ## Paths that replay -/

variable {records : List (TranscriptRecord B)}

/-- A replayed record has the payload its kind asks for. -/
theorem semanticsFor_of_reduced {state state' : TranscriptState} {moment : W}
    (reduced : records.foldlM (profile.reduceState timestampFromIso moment) state = .ok state') :
    ∀ record ∈ records, ∃ semantics, profile.semanticsFor timestampFromIso record = .ok semantics := by
  induction records generalizing state with
  | nil => simp
  | cons record rest ih =>
    rw [List.foldlM_cons] at reduced
    obtain ⟨next, here, later⟩ := Except.bind_ok_iff.mp reduced
    refine List.forall_mem_cons.mpr ⟨?_, ih later⟩
    unfold Profile.reduceState at here
    cases found : profile.semanticsFor timestampFromIso record with
    | error fault =>
      rw [found] at here
      cases here
    | ok semantics => exact ⟨semantics, rfl⟩

theorem semanticsFor_of_replayed {moment : W}
    {projection : ReplayProjection (ContextItem B τ) TranscriptState}
    (replayed : profile.replayProjection timestampFromIso moment records = .ok projection) :
    ∀ record ∈ records, ∃ semantics, profile.semanticsFor timestampFromIso record = .ok semantics := by
  obtain ⟨state, reduced⟩ := reduced_of_raisingReplay _ replayed
  exact semanticsFor_of_reduced timestampFromIso reduced

/-- Where every record has its payload, the support check does not raise. -/
theorem supportsAll_answers
    (each : ∀ record ∈ records, ∃ semantics, profile.semanticsFor timestampFromIso record = .ok semantics) :
    ∃ answer, profile.supportsAll timestampFromIso records = .ok answer := by
  induction records with
  | nil => exact ⟨true, rfl⟩
  | cons record rest ih =>
    obtain ⟨⟨semantics, found⟩, later⟩ := List.forall_mem_cons.mp each
    rw [Profile.supportsAll, found]
    dsimp only
    split
    · exact ⟨false, rfl⟩
    · split
      · exact ⟨false, rfl⟩
      · exact ih later

theorem supportsIncrementalReplay_answers
    (each : ∀ record ∈ records, ∃ semantics, profile.semanticsFor timestampFromIso record = .ok semantics) :
    ∃ answer, profile.supportsIncrementalReplay timestampFromIso records = .ok answer := by
  unfold Profile.supportsIncrementalReplay
  split
  · exact supportsAll_answers timestampFromIso each
  · exact ⟨false, rfl⟩

/-- Records whose support is confirmed have been looked up. -/
theorem semanticsFor_of_supported (supported : profile.supportsAll timestampFromIso records = .ok true) :
    ∀ record ∈ records, ∃ semantics, profile.semanticsFor timestampFromIso record = .ok semantics := by
  induction records with
  | nil => simp
  | cons record rest ih =>
    rw [Profile.supportsAll] at supported
    cases found : profile.semanticsFor timestampFromIso record with
    | error fault =>
      rw [found] at supported
      cases supported
    | ok semantics =>
      rw [found] at supported
      dsimp only at supported
      split at supported
      · cases supported
      · split at supported
        · cases supported
        · exact List.forall_mem_cons.mpr ⟨⟨semantics, found⟩, ih supported⟩

end

end Loushang.UnitOfWork
