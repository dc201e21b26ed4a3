import Loushang.Lib.Utf8

/-!
# Text chunks of a pipe

From `_IncrementalTextChunks` in `harness/workspace/exec/service.py`: reads of a pipe become texts
that end at a line feed or at a number of characters, whatever the pipe put into one read.
-/
namespace Loushang.Exec
open Loushang.Lib Loushang.Lib.Utf8

/-- `self._pending.find("\n")`. -/
def findNewline (pending : Text) : Option Nat := pending.findIdx? (· = .scalar '\n')

/-- Where the first chunk ends, if it can be taken yet. -/
def boundary? (maxChunkChars : Nat) (final : Bool) (pending : Text) : Option Nat :=
  match (findNewline pending).filter (· < maxChunkChars) with
  | some index => some (index + 1)
  | none =>
    if maxChunkChars ≤ pending.length then some maxChunkChars
    else if final then some pending.length
    else none

def takeChunksWithin (maxChunkChars : Nat) (final : Bool) : Nat → Text → List Text × Text
  | 0, pending => ([], pending)
  | rounds + 1, pending =>
    if pending = [] then ([], [])
    else
      match boundary? maxChunkChars final pending with
      | none => ([], pending)
      | some boundary =>
        let later := takeChunksWithin maxChunkChars final rounds (pending.drop boundary)
        (pending.take boundary :: later.1, later.2)

/-- `_take_chunks`, at most one round for each character: the chunks, and what stays pending. -/
def takeChunks (maxChunkChars : Nat) (final : Bool) (pending : Text) : List Text × Text :=
  takeChunksWithin maxChunkChars final pending.length pending

/-- `_IncrementalTextChunks`: the bytes its decoder keeps, and the pending text. -/
structure IncrementalTextChunks where
  kept : List UInt8 := []
  pending : Text := []

namespace IncrementalTextChunks

def feed (maxChunkChars : Nat) (s : IncrementalTextChunks) (content : List UInt8) :
    List Text × IncrementalTextChunks :=
  let (text, kept) := decodePart (s.kept ++ content)
  let (chunks, pending) := takeChunks maxChunkChars false (s.pending ++ text)
  (chunks, ⟨kept, pending⟩)

def finish (maxChunkChars : Nat) (s : IncrementalTextChunks) : List Text :=
  (takeChunks maxChunkChars true (s.pending ++ decode s.kept)).1

/-- The chunks of all reads, the last call included. -/
def chunksFrom (maxChunkChars : Nat) : IncrementalTextChunks → List (List UInt8) → List Text
  | s, [] => s.finish maxChunkChars
  | s, content :: rest =>
    (s.feed maxChunkChars content).1 ++ chunksFrom maxChunkChars (s.feed maxChunkChars content).2 rest

end IncrementalTextChunks

/-- The chunks a pipe's reads become. -/
def chunksOf (maxChunkChars : Nat) (reads : List (List UInt8)) : List Text :=
  IncrementalTextChunks.chunksFrom maxChunkChars {} reads

/-! ## One chunk -/

variable {maxChunkChars : Nat}

variable {final : Bool} {pending : Text} {boundary : Nat}

theorem boundary?_bounds (positive : 1 ≤ maxChunkChars) (nonempty : pending ≠ [])
    (found : boundary? maxChunkChars final pending = some boundary) :
    1 ≤ boundary ∧ boundary ≤ maxChunkChars ∧ boundary ≤ pending.length := by
  have length := List.length_pos_iff.mpr nonempty
  unfold boundary? at found
  split at found
  · next index located =>
    obtain ⟨there, below⟩ := Option.filter_eq_some_iff.mp located
    obtain ⟨inside, _⟩ := List.findIdx?_eq_some_iff_getElem.mp there
    rw [Option.some.injEq] at found
    have below : index < maxChunkChars := by simpa using below
    omega
  · split at found
    · rw [Option.some.injEq] at found
      omega
    · next short =>
      split at found
      · rw [Option.some.injEq] at found
        omega
      · cases found

/-- A chunk that can be taken is taken whatever follows. -/
theorem boundary?_append (found : boundary? maxChunkChars false pending = some boundary) (final : Bool)
    (more : Text) : boundary? maxChunkChars final (pending ++ more) = some boundary := by
  unfold boundary? at found ⊢
  have newline : findNewline (pending ++ more) =
      (findNewline pending).or ((findNewline more).map (· + pending.length)) := by
    unfold findNewline
    rw [List.findIdx?_append]
  rw [newline]
  cases located : findNewline pending with
  | some index =>
    rw [located] at found
    simp only [Option.some_or]
    by_cases below : index < maxChunkChars
    · simpa [Option.filter, below] using found
    · have full : maxChunkChars ≤ pending.length := by
        obtain ⟨inside, _⟩ := List.findIdx?_eq_some_iff_getElem.mp located
        omega
      have full' : maxChunkChars ≤ (pending ++ more).length := by rw [List.length_append]; omega
      simp only [Option.filter, below, decide_false, Bool.false_eq_true, if_false, full, full', if_true] at found ⊢
      exact found
  | none =>
    rw [located] at found
    simp only [Option.filter_none, Bool.false_eq_true, if_false] at found
    split at found
    · next full =>
      have full' : maxChunkChars ≤ (pending ++ more).length := by rw [List.length_append]; omega
      have beyond : ((findNewline more).map (· + pending.length)).filter (· < maxChunkChars) = none := by
        cases findNewline more with
        | none => rfl
        | some index =>
          have outside : ¬ index + pending.length < maxChunkChars := by omega
          simp [Option.filter, outside]
      rw [Option.none_or, beyond]
      simp only [full', if_true]
      exact found
    · cases found

/-! ## All chunks -/

theorem takeChunksWithin_enough (positive : 1 ≤ maxChunkChars) (final : Bool) (rounds : Nat) (pending : Text)
    (enough : pending.length ≤ rounds) :
    takeChunksWithin maxChunkChars final rounds pending = takeChunks maxChunkChars final pending := by
  unfold takeChunks
  generalize size : pending.length = n
  induction n using Nat.strongRecOn generalizing pending rounds with
  | _ n ih =>
    by_cases empty : pending = []
    · subst empty
      subst size
      cases rounds <;> simp [takeChunksWithin]
    · have length := List.length_pos_iff.mpr empty
      obtain ⟨m, rfl⟩ := Nat.exists_eq_add_of_le' (show 1 ≤ rounds by omega)
      obtain ⟨k, rfl⟩ := Nat.exists_eq_add_of_le' (show 1 ≤ n by omega)
      rw [takeChunksWithin, takeChunksWithin, if_neg empty, if_neg empty]
      cases found : boundary? maxChunkChars final pending with
      | none => rfl
      | some boundary =>
        obtain ⟨some_, _, inside⟩ := boundary?_bounds positive empty found
        have shorter : (pending.drop boundary).length < k + 1 := by
          rw [List.length_drop]
          omega
        dsimp only
        rw [ih _ shorter m (pending.drop boundary) (by rw [List.length_drop]; omega) rfl,
          ih _ shorter k (pending.drop boundary) (by rw [List.length_drop]; omega) rfl]

theorem takeChunks_nil (final : Bool) : takeChunks maxChunkChars final [] = ([], []) := rfl

theorem takeChunks_none (none_ : boundary? maxChunkChars final pending = none) :
    takeChunks maxChunkChars final pending = ([], pending) := by
  unfold takeChunks
  cases size : pending.length with
  | zero => rfl
  | succ n =>
    rw [takeChunksWithin]
    split
    · next empty => rw [empty]
    · rw [none_]

theorem takeChunks_some (positive : 1 ≤ maxChunkChars) (nonempty : pending ≠ [])
    (found : boundary? maxChunkChars final pending = some boundary) :
    takeChunks maxChunkChars final pending =
      (pending.take boundary :: (takeChunks maxChunkChars final (pending.drop boundary)).1,
        (takeChunks maxChunkChars final (pending.drop boundary)).2) := by
  obtain ⟨some_, _, inside⟩ := boundary?_bounds positive nonempty found
  obtain ⟨n, size⟩ := Nat.exists_eq_add_of_le' (show 1 ≤ pending.length by omega)
  rw [takeChunks, size, takeChunksWithin, if_neg nonempty, found]
  dsimp only
  rw [takeChunksWithin_enough positive final n (pending.drop boundary) (by rw [List.length_drop]; omega)]

/-- An induction along the chunks that are taken. -/
theorem pending_induction (positive : 1 ≤ maxChunkChars) (final : Bool) {motive : Text → Prop} (nil : motive [])
    (waits : ∀ pending, pending ≠ [] → boundary? maxChunkChars final pending = none → motive pending)
    (takes : ∀ pending boundary, pending ≠ [] → boundary? maxChunkChars final pending = some boundary →
      motive (pending.drop boundary) → motive pending) : ∀ pending, motive pending := by
  intro pending
  generalize size : pending.length = n
  induction n using Nat.strongRecOn generalizing pending with
  | _ n ih =>
    by_cases empty : pending = []
    · rw [empty]
      exact nil
    · cases found : boundary? maxChunkChars final pending with
      | none => exact waits pending empty found
      | some boundary =>
        obtain ⟨some_, _, inside⟩ := boundary?_bounds positive empty found
        exact takes pending boundary empty found (ih _ (by rw [List.length_drop]; omega) _ rfl)

/-- Taking chunks early changes nothing about the chunks. -/
theorem takeChunks_append (positive : 1 ≤ maxChunkChars) (final : Bool) (pending more : Text) :
    takeChunks maxChunkChars final (pending ++ more) =
      ((takeChunks maxChunkChars false pending).1 ++
          (takeChunks maxChunkChars final ((takeChunks maxChunkChars false pending).2 ++ more)).1,
        (takeChunks maxChunkChars final ((takeChunks maxChunkChars false pending).2 ++ more)).2) := by
  induction pending using pending_induction positive false with
  | nil => simp [takeChunks_nil]
  | waits pending nonempty none_ => simp [takeChunks_none none_]
  | takes pending boundary nonempty found ih =>
    obtain ⟨_, _, inside⟩ := boundary?_bounds positive nonempty found
    have whole : pending ++ more ≠ [] := by simp [nonempty]
    rw [takeChunks_some positive whole (boundary?_append found final more), takeChunks_some positive nonempty found,
      List.take_append_of_le_length inside, List.drop_append_of_le_length inside, ih]
    rfl

/-- Every chunk has characters, not too many, and nothing is lost. -/
theorem takeChunks_spec (positive : 1 ≤ maxChunkChars) (final : Bool) (pending : Text) :
    (∀ chunk ∈ (takeChunks maxChunkChars final pending).1, chunk ≠ [] ∧ chunk.length ≤ maxChunkChars) ∧
      (takeChunks maxChunkChars final pending).1.flatten ++ (takeChunks maxChunkChars final pending).2 = pending := by
  induction pending using pending_induction positive final with
  | nil => simp [takeChunks_nil]
  | waits pending nonempty none_ => simp [takeChunks_none none_]
  | takes pending boundary nonempty found ih =>
    obtain ⟨some_, most, inside⟩ := boundary?_bounds positive nonempty found
    rw [takeChunks_some positive nonempty found]
    refine ⟨?_, ?_⟩
    · rintro chunk (_ | ⟨_, later⟩)
      · refine ⟨fun empty => ?_, ?_⟩
        · have length := congrArg List.length empty
          rw [List.length_take, List.length_nil] at length
          omega
        · rw [List.length_take]
          omega
      · exact ih.1 chunk later
    · rw [List.flatten_cons, List.append_assoc, ih.2, List.take_append_drop]

theorem takeChunks_final (positive : 1 ≤ maxChunkChars) (pending : Text) :
    (takeChunks maxChunkChars true pending).2 = [] := by
  induction pending using pending_induction positive true with
  | nil => rfl
  | waits pending nonempty none_ =>
    unfold boundary? at none_
    split at none_
    · cases none_
    · split at none_
      · cases none_
      · simp at none_
  | takes pending boundary nonempty found ih =>
    rw [takeChunks_some positive nonempty found]
    exact ih

/-! ## Any reads -/

/-- What the reads so far have come to, whatever they were. -/
theorem chunksFrom_spec (positive : 1 ≤ maxChunkChars) (reads : List (List UInt8)) (s : IncrementalTextChunks)
    (bytes : List UInt8) (chunks : List Text) (kept : s.kept = (decodePart bytes).2)
    (taken : takeChunks maxChunkChars false (decodePart bytes).1 = (chunks, s.pending)) :
    chunks ++ IncrementalTextChunks.chunksFrom maxChunkChars s reads =
      (takeChunks maxChunkChars true (decode (bytes ++ reads.flatten))).1 := by
  induction reads generalizing s bytes chunks with
  | nil =>
    have last := takeChunks_append positive true (decodePart bytes).1 (decode s.kept)
    rw [kept, ← decode_eq_part, taken] at last
    rw [List.flatten_nil, List.append_nil, last, IncrementalTextChunks.chunksFrom, IncrementalTextChunks.finish, kept]
  | cons content rest ih =>
    have part := decodePart_append bytes content
    rw [← kept] at part
    have next := takeChunks_append positive false (decodePart bytes).1 (decodePart (s.kept ++ content)).1
    rw [taken] at next
    rw [IncrementalTextChunks.chunksFrom, ← List.append_assoc, List.flatten_cons, ← List.append_assoc]
    refine ih (s.feed maxChunkChars content).2 (bytes ++ content) _ ?_ ?_
    · rw [part]
      rfl
    · rw [part, next]
      rfl

/-- The chunks are those of the decoding of all bytes. -/
theorem chunksOf_eq (positive : 1 ≤ maxChunkChars) (reads : List (List UInt8)) :
    chunksOf maxChunkChars reads = (takeChunks maxChunkChars true (decode reads.flatten)).1 := by
  have spec := chunksFrom_spec positive reads {} [] [] rfl rfl
  rwa [List.nil_append, List.nil_append] at spec

theorem chunksOf_flatten (positive : 1 ≤ maxChunkChars) (reads : List (List UInt8)) :
    (chunksOf maxChunkChars reads).flatten = decode reads.flatten := by
  have whole := (takeChunks_spec positive true (decode reads.flatten)).2
  rwa [takeChunks_final positive, List.append_nil, ← chunksOf_eq positive] at whole

end Loushang.Exec
