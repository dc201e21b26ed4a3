import Loushang.AppHost.OutputCapture
import Loushang.Lib.Raises
import Loushang.Lib.Lists

/-!
# Runs of the output capture

The invariant of a lease: its files hold what the appends that did not raise were given, as
long as nothing is lost, and no append comes behind a seal.
-/
namespace Loushang.AppHost
open Lib

theorem flatten_piecesOf {size : Nat} (positive : 0 < size) :
    ∀ (rounds : Nat) (content : List UInt8), content.length ≤ rounds →
      (piecesOf size rounds content).flatten = content
  | 0, content, short => by
    rw [List.length_eq_zero_iff.mp (Nat.le_zero.mp short)]
    rfl
  | rounds + 1, content, short => by
    rw [piecesOf]
    split
    · rename_i empty
      rw [empty]
      rfl
    · rename_i nonempty
      have long : 0 < content.length := List.length_pos_iff.mpr nonempty
      have rest := flatten_piecesOf positive rounds (content.drop size)
        (by rw [List.length_drop]; omega)
      rw [List.flatten_cons, rest, List.take_append_drop]

theorem flatten_pieces (content : List UInt8) : (pieces content).flatten = content :=
  flatten_piecesOf (by decide) _ _ (Nat.le_refl _)

namespace NativeCapture
variable {capacity : OutputStream → Nat} {native : NativeCapture} {stream : OutputStream}

/-- What a write leaves as it is. -/
structure Same (native other : NativeCapture) : Prop where
  started : other.started = native.started
  ready : other.ready = native.ready
  sealed : other.sealed = native.sealed
  closed : other.closed = native.closed
  lost : native.lost = true → other.lost = true

theorem Same.refl (native : NativeCapture) : Same native native := ⟨rfl, rfl, rfl, rfl, id⟩

theorem Same.trans {one two three : NativeCapture} (first : Same one two) (second : Same two three) :
    Same one three :=
  ⟨second.started.trans first.started, second.ready.trans first.ready,
    second.sealed.trans first.sealed, second.closed.trans first.closed, second.lost ∘ first.lost⟩

/-- One piece: it is at the end of its file, or something is lost, or the capture does not
take it at all. -/
theorem append_cases (capacity : OutputStream → Nat) (native : NativeCapture) (stream : OutputStream)
    (piece : List UInt8) (fault : Option (List UInt8)) :
    Same native (native.append capacity stream piece fault).2 ∧
      ((native.append capacity stream piece fault = (.refused, native)) ∨
        (native.append capacity stream piece fault).2.lost = true ∨
        (native.append capacity stream piece fault =
          (.written,
            { native with
              file := Function.update native.file stream (native.file stream ++ piece) }))) := by
  unfold append
  split
  · exact ⟨.refl native, .inl rfl⟩
  · split
    · rename_i lost
      exact ⟨.refl native, .inr (.inl lost)⟩
    · split
      · exact ⟨⟨rfl, rfl, rfl, rfl, fun _ => rfl⟩, .inr (.inl rfl)⟩
      · cases fault with
        | none => exact ⟨⟨rfl, rfl, rfl, rfl, id⟩, .inr (.inr rfl)⟩
        | some left => exact ⟨⟨rfl, rfl, rfl, rfl, fun _ => rfl⟩, .inr (.inl rfl)⟩

theorem refused_again {piece piece' : List UInt8} {fault fault' : Option (List UInt8)}
    {other : NativeCapture} (same : Same native other)
    (first : (native.append capacity stream piece fault).1 ≠ .refused) :
    (other.append capacity stream piece' fault').1 ≠ .refused := by
  have open1 : ¬(native.closed = true ∨ native.sealed = true ∨ native.ready = false) := by
    intro refused
    unfold append at first
    rw [if_pos refused] at first
    exact first rfl
  rw [← same.closed, ← same.sealed, ← same.ready] at open1
  unfold append
  rw [if_neg open1]
  split
  · exact nofun
  · split
    · exact nofun
    · cases fault' <;> exact nofun

/-- A chunk: the capture does not take it, or something is lost, or all of it is at the end
of its file. -/
theorem appendPieces_cases (capacity : OutputStream → Nat) (stream : OutputStream) :
    ∀ (parts : List (List UInt8)) (native : NativeCapture) (faults : List (Option (List UInt8))),
      Same native (native.appendPieces capacity stream parts faults).2 ∧
        ((native.appendPieces capacity stream parts faults = ([.refused], native) ∧
            ∃ piece fault, (native.append capacity stream piece fault).1 = .refused) ∨
          (native.appendPieces capacity stream parts faults).2.lost = true ∨
          ((∀ ending ∈ (native.appendPieces capacity stream parts faults).1, ending = .written) ∧
            (native.appendPieces capacity stream parts faults).2 =
              { native with
                file := Function.update native.file stream (native.file stream ++ parts.flatten) }))
  | [], native, faults => by
    refine ⟨.refl native, .inr (.inr ⟨fun _ => nofun, ?_⟩)⟩
    rw [List.flatten_nil, List.append_nil, Function.update_eq_self]
    rfl
  | piece :: rest, native, faults => by
    obtain ⟨same, first⟩ := append_cases capacity native stream piece (faults.headD none)
    rw [appendPieces]
    generalize one : native.append capacity stream piece (faults.headD none) = result at same first
    obtain ⟨ending, next⟩ := result
    dsimp only at same first ⊢
    rcases first with refused | lost | written
    · cases refused
      rw [if_pos (.inr rfl)]
      exact ⟨same, .inl ⟨rfl, piece, faults.headD none, by rw [one]⟩⟩
    · split
      · exact ⟨same, .inr (.inl lost)⟩
      · obtain ⟨later, -⟩ := appendPieces_cases capacity stream rest next faults.tail
        exact ⟨same.trans later, .inr (.inl (later.lost lost))⟩
    · cases written
      rw [if_neg (by decide)]
      obtain ⟨later, cases⟩ := appendPieces_cases capacity stream rest
        { native with file := Function.update native.file stream (native.file stream ++ piece) }
        faults.tail
      refine ⟨same.trans later, ?_⟩
      rcases cases with ⟨-, piece', fault', refused⟩ | lost | ⟨all, eq⟩
      · exact absurd refused (refused_again same (by rw [one]; exact nofun))
      · exact .inr (.inl lost)
      · refine .inr (.inr ⟨List.forall_mem_cons.mpr ⟨rfl, all⟩, ?_⟩)
        rw [eq, List.flatten_cons, ← List.append_assoc]
        simp only [Function.update_self, Function.update_idem]

end NativeCapture

namespace Capture

theorem raised_refused (stream : OutputStream) (content : List UInt8) :
    (AppendTask.mk stream content (some [.refused])).raised = true := rfl

/-- A lease whose files hold what its appends wrote. -/
structure Inv (s : Capture) : Prop where
  files : s.native.lost = false → ∀ stream, s.native.file stream = s.written stream
  fenced : s.sealTask = .absent ∨ s.accepting = false
  order : s.queue.Pairwise fun one other => one = .sealing →
    other.append? = none ∧ other ≠ .sealing
  running : .sealing ∈ s.queue → s.sealTask = .running
  ended : ∀ result, s.sealTask = .ended result →
    (∀ task ∈ s.queue, task.append? = none) ∧ .sealing ∉ s.queue
  nativeSealed : s.native.sealed = true → ∃ result, s.sealTask = .ended result
  sizes : ∀ sizes, s.sealTask = .ended (.ok (some sizes)) → s.native.lost = false ∧
    s.native.sealed = true ∧ s.native.ready = true ∧
    ∀ stream, sizes stream = (s.native.file stream).length
  sources : ∀ sizes, s.sealed = some sizes → s.sealTask = .ended (.ok (some sizes))
  started : s.native.ready = true → s.native.started = true

theorem initial_inv : Inv initial := by
  refine ⟨fun _ _ => rfl, .inl rfl, .nil, nofun, nofun, nofun, nofun, nofun, nofun⟩

variable {s s' : Capture} {task : CaptureTask}

theorem submit_ok (submitted : s.submit task = .ok s') : s' = { s with queue := s.queue ++ [task] } := by
  unfold submit at submitted
  split at submitted
  · cases submitted
  · split at submitted
    · cases submitted
    · cases submitted
      rfl

/-- A task that is neither an append nor a seal joins the queue at any time, an append only
where no seal was submitted. -/
theorem Inv.enqueue (inv : Inv s) (notSeal : task ≠ .sealing)
    (allowed : task.append? = none ∨ s.sealTask = .absent) : Inv { s with queue := s.queue ++ [task] } := by
  have noSeal : s.sealTask = .absent → .sealing ∉ s.queue := by
    intro absent member
    rw [inv.running member] at absent
    cases absent
  refine ⟨inv.files, inv.fenced, ?_, ?_, ?_, inv.nativeSealed, inv.sizes, inv.sources, inv.started⟩
  · rw [List.pairwise_append]
    refine ⟨inv.order, List.pairwise_singleton _ _, ?_⟩
    intro one member other last sealing
    rw [List.mem_singleton.mp last]
    rcases allowed with other | absent
    · exact ⟨other, notSeal⟩
    · exact absurd (sealing ▸ member) (noSeal absent)
  · intro member
    rcases List.mem_append.mp member with old | new
    · exact inv.running old
    · exact absurd (List.mem_singleton.mp new).symm notSeal
  · intro result ended
    obtain ⟨noAppends, noSeal⟩ := inv.ended result ended
    have other : task.append? = none := by
      rcases allowed with other | absent
      · exact other
      · rw [ended] at absent
        cases absent
    refine ⟨?_, ?_⟩
    · exact forall_mem_snoc noAppends other
    · intro member
      rcases List.mem_append.mp member with old | new
      · exact noSeal old
      · exact notSeal (List.mem_singleton.mp new).symm

theorem Inv.submitted (inv : Inv s) (submitted : s.submit task = .ok s') (notSeal : task ≠ .sealing)
    (allowed : task.append? = none ∨ s.sealTask = .absent) : Inv s' := by
  rw [submit_ok submitted]
  exact inv.enqueue notSeal allowed

theorem Inv.stopped (inv : Inv s) : Inv { s with accepting := false } :=
  ⟨inv.files, .inr rfl, inv.order, inv.running, inv.ended, inv.nativeSealed, inv.sizes,
    inv.sources, inv.started⟩

theorem Inv.prepare (inv : Inv s) : Inv s.prepare.2 := by
  unfold Capture.prepare
  split
  · split
    · exact inv
    · rename_i s' submitted
      have next := inv.submitted submitted (by decide) (.inl rfl)
      exact ⟨next.files, next.fenced, next.order, next.running, next.ended, next.nativeSealed,
        next.sizes, next.sources, next.started⟩
  · exact inv

theorem Inv.prepareResumes (inv : Inv s) : Inv s.prepareResumes.2 := by
  unfold Capture.prepareResumes
  split
  · exact inv
  · exact ⟨inv.files, .inr rfl, inv.order, inv.running, inv.ended, inv.nativeSealed, inv.sizes,
      inv.sources, inv.started⟩
  · exact inv
  · exact inv

theorem Inv.append {s : Capture} (inv : Inv s) (chunk : ExecOutputChunk) :
    Inv (s.append chunk).2 := by
  unfold Capture.append
  split
  · exact inv
  · rename_i accepting
    have absent : s.sealTask = .absent := inv.fenced.resolve_right accepting
    split
    · exact inv
    · split
      · exact inv
      · split
        · exact inv
        · rename_i submitted
          exact inv.submitted submitted nofun (.inr absent)

theorem Inv.sealCapture (inv : Inv s) : Inv s.sealCapture.2 := by
  unfold Capture.sealCapture
  split
  · exact inv.stopped
  · split
    · rename_i absent
      have noSeal : .sealing ∉ s.queue := by
        intro member
        rw [inv.running member] at absent
        cases absent
      split
      · exact inv.stopped
      · rename_i s' submitted
        rw [submit_ok submitted]
        refine ⟨inv.files, .inr rfl, ?_, fun _ => rfl, nofun, ?_, nofun, ?_, inv.started⟩
        · rw [List.pairwise_append]
          refine ⟨inv.order, List.pairwise_singleton _ _, ?_⟩
          intro one member _ _ sealing
          exact absurd (sealing ▸ member) noSeal
        · intro already
          obtain ⟨result, ended⟩ := inv.nativeSealed already
          rw [ended] at absent
          cases absent
        · intro sizes known
          have ended := inv.sources sizes known
          rw [ended] at absent
          cases absent
    · exact inv.stopped

theorem Inv.sealResumes (inv : Inv s) : Inv s.sealResumes.2 := by
  unfold Capture.sealResumes
  split
  · exact inv
  · rename_i sizes ended
    split
    · refine ⟨inv.files, inv.fenced, inv.order, inv.running, inv.ended, inv.nativeSealed, inv.sizes,
        ?_, inv.started⟩
      intro other same
      cases same
      exact ended
    · exact inv
  · exact inv
  · exact inv

theorem Inv.read (inv : Inv s) (stream : OutputStream) (maxBytes : Nat) : Inv (s.read stream maxBytes).2 := by
  unfold Capture.read
  split
  · exact inv
  · split
    · exact inv
    · split
      · exact inv
      · rename_i submitted
        exact inv.submitted submitted nofun (.inl rfl)

theorem written_append (s : Capture) (task : AppendTask) (stream : OutputStream) :
    { s with ended := s.ended ++ [task] }.written stream =
      s.written stream ++ if task.stream = stream ∧ task.raised = false then task.content else [] := by
  unfold written
  rw [List.filter_append, List.flatMap_append]
  congr 1
  rw [List.filter_singleton]
  by_cases mine : task.stream = stream
  · cases raised : task.raised <;> simp [mine]
  · simp [mine]

/-- The lease that has taken a task other than the seal from its queue. -/
theorem Inv.taken {s : Capture} (inv : Inv s) {task : CaptureTask} {rest : List CaptureTask}
    (queue : s.queue = task :: rest) :
    (rest.Pairwise fun one other => one = .sealing → other.append? = none ∧ other ≠ .sealing) ∧
      (.sealing ∈ rest → s.sealTask = .running) ∧
      ∀ result, s.sealTask = .ended result →
        (∀ other ∈ rest, other.append? = none) ∧ .sealing ∉ rest := by
  have order := inv.order
  have running := inv.running
  have ended := inv.ended
  rw [queue] at order running ended
  refine ⟨(List.pairwise_cons.mp order).2, fun member => running (List.mem_cons_of_mem _ member), ?_⟩
  intro result found
  obtain ⟨noAppends, noSeal⟩ := ended result found
  exact ⟨fun other member => noAppends other (List.mem_cons_of_mem _ member),
    fun member => noSeal (List.mem_cons_of_mem _ member)⟩

variable {stream : OutputStream} {content : List UInt8} {rest : List CaptureTask}
  {native : NativeCapture} {endings : List NativeCapture.PieceEnd}

/-- The end of an append whose native part keeps the files as the ended appends say. -/
theorem Inv.endAppend (inv : Inv s) (queue : s.queue = .append stream content :: rest)
    (same : s.native.Same native)
    (files : native.lost = false → ∀ other, native.file other = s.written other ++
      if stream = other ∧ (AppendTask.mk stream content (some endings)).raised = false then content
      else []) :
    Inv { s with
      native
      queue := rest
      lingering := s.lingering + 1
      ended := s.ended ++ [⟨stream, content, some endings⟩] } := by
  obtain ⟨order, running, ended⟩ := inv.taken queue
  have notEnded : ∀ result, s.sealTask ≠ .ended result := by
    intro result found
    have noAppend := (inv.ended result found).1 (.append stream content)
      (by rw [queue]; exact List.mem_cons_self)
    cases noAppend
  refine ⟨?_, inv.fenced, order, running, ended, ?_, ?_, inv.sources, ?_⟩
  · intro kept other
    rw [files kept other]
    exact (written_append s ⟨stream, content, some endings⟩ other).symm
  · intro isSealed
    exact inv.nativeSealed (same.sealed.symm.trans isSealed)
  · intro sizes found
    exact absurd found (notEnded _)
  · intro ready
    exact same.started.trans (inv.started (same.ready.symm.trans ready))

/-- The end of the seal. -/
theorem Inv.endSeal (inv : Inv s) {result : Except CaptureError (Option (OutputStream → Nat))}
    (queue : s.queue = .sealing :: rest) (ready : native.ready = true → native.started = true)
    (files : native.lost = false → ∀ stream, native.file stream = s.native.file stream)
    (lost : s.native.lost = true → native.lost = true)
    (sizes : ∀ sizes, result = .ok (some sizes) → native.lost = false ∧ native.sealed = true ∧
      native.ready = true ∧ ∀ stream, sizes stream = (native.file stream).length) :
    Inv { s with
      native
      queue := rest
      lingering := s.lingering + 1
      sealTask := .ended result } := by
  obtain ⟨order, -, -⟩ := inv.taken queue
  have sealing : s.sealTask = .running := inv.running (by rw [queue]; exact List.mem_cons_self)
  have behind : ∀ other ∈ rest, other.append? = none ∧ other ≠ .sealing := by
    intro other member
    have all := inv.order
    rw [queue] at all
    exact (List.pairwise_cons.mp all).1 other member rfl
  have noSeal : .sealing ∉ rest := fun member => (behind _ member).2 rfl
  refine ⟨?_, ?_, order, fun member => absurd member noSeal, ?_, fun _ => ⟨result, rfl⟩, ?_, ?_, ready⟩
  · intro kept stream
    rw [files kept stream]
    refine inv.files ?_ stream
    by_contra gone
    rw [Bool.not_eq_false] at gone
    rw [lost gone] at kept
    cases kept
  · rcases inv.fenced with absent | closed
    · rw [sealing] at absent
      cases absent
    · exact .inr closed
  · exact fun _ _ => ⟨fun other member => (behind other member).1, noSeal⟩
  · intro found same
    cases same
    exact sizes found rfl
  · intro found known
    have ended := inv.sources found known
    rw [sealing] at ended
    cases ended

theorem Inv.endOther (inv : Inv s) (queue : s.queue = task :: rest) :
    Inv { s with queue := rest, lingering := s.lingering + 1 } :=
  have ⟨order, running, ended⟩ := inv.taken queue
  ⟨inv.files, inv.fenced, order, running, ended, inv.nativeSealed, inv.sizes, inv.sources, inv.started⟩

theorem Inv.endPrepare (inv : Inv s) (preparation : NativeCapture.Preparation) (result : Joined Bool) :
    Inv { s with native := (s.native.prepare preparation).2, prepareTask := result } := by
  unfold NativeCapture.prepare
  split
  · exact ⟨inv.files, inv.fenced, inv.order, inv.running, inv.ended, inv.nativeSealed, inv.sizes,
      inv.sources, inv.started⟩
  · rename_i fresh
    have notReady : s.native.ready ≠ true := fun ready => fresh (.inl (inv.started ready))
    have noSizes : ∀ sizes, s.sealTask ≠ .ended (.ok (some sizes)) := fun sizes found =>
      notReady (inv.sizes sizes found).2.2.1
    cases preparation with
    | ready =>
      exact ⟨inv.files, inv.fenced, inv.order, inv.running, inv.ended, inv.nativeSealed,
        fun sizes found => absurd found (noSizes sizes), inv.sources, fun _ => rfl⟩
    | refused =>
      exact ⟨nofun, inv.fenced, inv.order, inv.running, inv.ended, inv.nativeSealed,
        fun sizes found => absurd found (noSizes sizes), inv.sources, fun _ => rfl⟩
    | raises capacityRefused =>
      refine ⟨?_, inv.fenced, inv.order, inv.running, inv.ended, inv.nativeSealed,
        fun sizes found => absurd found (noSizes sizes), inv.sources, fun _ => rfl⟩
      intro kept
      exact inv.files (Bool.or_eq_false_iff.mp kept).1

theorem Inv.runAppend (inv : Inv s) (capacity : OutputStream → Nat)
    (queue : s.queue = .append stream content :: rest) (faults : List (Option (List UInt8))) :
    Inv { s with
      native := (s.native.appendPieces capacity stream (pieces content) faults).2
      queue := rest
      lingering := s.lingering + 1
      ended := s.ended ++ [⟨stream, content,
        some (s.native.appendPieces capacity stream (pieces content) faults).1⟩] } := by
  obtain ⟨same, cases⟩ :=
    NativeCapture.appendPieces_cases capacity stream (pieces content) s.native faults
  refine inv.endAppend queue same ?_
  intro kept other
  have before : s.native.lost = false := by
    by_contra gone
    rw [Bool.not_eq_false] at gone
    rw [same.lost gone] at kept
    cases kept
  have held := inv.files before other
  rcases cases with ⟨refused, -⟩ | lost | ⟨all, eq⟩
  · rw [refused, if_neg (by rw [raised_refused]; exact nofun), List.append_nil]
    exact held
  · rw [lost] at kept
    cases kept
  · have notRaised : (AppendTask.mk stream content
        (some (s.native.appendPieces capacity stream (pieces content) faults).1)).raised = false := by
      rw [AppendTask.raised, List.any_eq_false]
      intro ending member
      rw [all ending member]
      decide
    rw [eq, flatten_pieces, notRaised]
    dsimp only
    by_cases mine : stream = other
    · subst mine
      rw [Function.update_self, if_pos ⟨rfl, rfl⟩, held]
    · rw [Function.update_of_ne (Ne.symm mine), if_neg fun both => mine both.1, List.append_nil, held]

theorem Inv.work (inv : Inv s) (capacity : OutputStream → Nat) (attempt : Attempt) :
    Inv (s.work capacity attempt).2 := by
  have failed : ∀ (task : CaptureTask) (rest : List CaptureTask), s.queue = task :: rest →
      ∀ error, Inv ({ s with queue := rest, lingering := s.lingering + 1 }.failTask error task).2 := by
    intro task rest queue error
    have other := inv.endOther queue
    cases task with
    | prepare =>
      exact ⟨other.files, other.fenced, other.order, other.running, other.ended, other.nativeSealed,
        other.sizes, other.sources, other.started⟩
    | append stream content =>
      refine inv.endAppend queue (.refl s.native) ?_
      intro kept stream'
      rw [if_neg (by rw [raised_refused]; exact nofun), List.append_nil]
      exact inv.files kept stream'
    | sealing => exact inv.endSeal queue inv.started (fun _ _ => rfl) id nofun
    | read => exact other
  unfold Capture.work
  split
  · exact inv
  · rename_i task rest queue
    dsimp only
    split
    · exact failed task rest queue _
    · split
      · exact failed task rest queue _
      · have other := inv.endOther queue
        cases task with
        | prepare => exact other.endPrepare attempt.preparation _
        | append stream content => exact inv.runAppend capacity queue attempt.faults
        | sealing =>
          unfold runTask NativeCapture.sealFiles
          dsimp only
          split
          · exact inv.endSeal queue inv.started (fun _ _ => rfl) id nofun
          · rename_i able
            rw [not_or, Bool.not_eq_false] at able
            refine inv.endSeal queue inv.started (fun _ _ => rfl) id ?_
            intro sizes found
            rw [Except.ok.injEq] at found
            obtain ⟨kept, found⟩ := Option.ite_none_left_eq_some.mp found
            cases found
            exact ⟨Bool.not_eq_true _ ▸ kept, rfl, able.2, fun _ => rfl⟩
        | read stream maxBytes =>
          unfold runTask
          dsimp only
          split
          · exact other
          · exact other

theorem Inv.step {s : Capture} (inv : Inv s) (capacity : OutputStream → Nat) (input : Input) :
    Inv ((machine capacity).step s input).2 := by
  cases input with
  | prepare => exact inv.prepare
  | prepareResumes => exact inv.prepareResumes
  | append chunk => exact inv.append chunk
  | stopAccepting => exact inv.stopped
  | sealing => exact inv.sealCapture
  | sealResumes => exact inv.sealResumes
  | read stream maxBytes => exact inv.read stream maxBytes
  | work attempt => exact inv.work capacity attempt
  | callback =>
    exact ⟨inv.files, inv.fenced, inv.order, inv.running, inv.ended, inv.nativeSealed, inv.sizes,
      inv.sources, inv.started⟩
  | cancelWorker =>
    exact ⟨inv.files, inv.fenced, inv.order, inv.running, inv.ended, inv.nativeSealed, inv.sizes,
      inv.sources, inv.started⟩

/-! ## Runs -/

variable {capacity : OutputStream → Nat}

theorem submit_appends (submitted : s.submit task = .ok s') :
    s'.appends = s.appends ++ task.append?.toList ∧ s'.ended = s.ended ∧ s'.native = s.native := by
  rw [submit_ok submitted]
  refine ⟨?_, rfl, rfl⟩
  unfold appends
  rw [List.filterMap_append, ← List.append_assoc]
  cases append : task.append? with
  | none => rw [List.filterMap_cons_none append, List.filterMap_nil]; rfl
  | some other => rw [List.filterMap_cons_some append, List.filterMap_nil]; rfl

/-- A chunk that comes while the lease accepts is refused with an exception, or its task is
the last of all appends. -/
theorem append_accepting (chunk : ExecOutputChunk) (accepting : s.accepting = true) :
    (∃ error, s.append chunk = (.raises error, s)) ∨
      ∃ content, encodeEscape chunk.text = some content ∧
        (s.append chunk).2.appends = s.appends ++ [⟨chunk.stream, content, none⟩] := by
  unfold append
  rw [if_neg (by rw [accepting]; decide)]
  split
  · exact .inl ⟨_, rfl⟩
  · cases encoded : encodeEscape chunk.text with
    | none => exact .inl ⟨_, rfl⟩
    | some content =>
      dsimp only
      cases submitted : s.submit (.append chunk.stream content) with
      | error error => exact .inl ⟨error, rfl⟩
      | ok s' => exact .inr ⟨content, rfl, (submit_appends submitted).1⟩

/-- What an append was given. -/
def AppendTask.given (task : AppendTask) : OutputStream × List UInt8 := (task.stream, task.content)

theorem failTask_ended (s : Capture) (error : CaptureError) (task : CaptureTask) :
    ∃ endings, (s.failTask error task).2.ended = s.ended ++
      task.append?.toList.map (fun waiting => { waiting with ended := some endings }) ∧
      (s.failTask error task).2.queue = s.queue := by
  cases task with
  | prepare => exact ⟨[], (List.append_nil _).symm, rfl⟩
  | append stream content => exact ⟨[.refused], rfl, rfl⟩
  | sealing => exact ⟨[], (List.append_nil _).symm, rfl⟩
  | read stream maxBytes => exact ⟨[], (List.append_nil _).symm, rfl⟩

theorem runTask_ended (s : Capture) (attempt : Attempt) (task : CaptureTask) :
    ∃ endings, (s.runTask capacity attempt task).2.ended = s.ended ++
      task.append?.toList.map (fun waiting => { waiting with ended := some endings }) ∧
      (s.runTask capacity attempt task).2.queue = s.queue := by
  cases task with
  | prepare => exact ⟨[], (List.append_nil _).symm, rfl⟩
  | append stream content => exact ⟨_, rfl, rfl⟩
  | sealing => exact ⟨[], (List.append_nil _).symm, rfl⟩
  | read stream maxBytes =>
    refine ⟨[], ?_⟩
    unfold runTask
    dsimp only
    split
    · exact ⟨(List.append_nil _).symm, rfl⟩
    · exact ⟨(List.append_nil _).symm, rfl⟩

theorem work_ended {s : Capture} (attempt : Attempt) {task : CaptureTask} {rest : List CaptureTask}
    (queue : s.queue = task :: rest) :
    ∃ endings, (s.work capacity attempt).2.ended = s.ended ++
      task.append?.toList.map (fun waiting => { waiting with ended := some endings }) ∧
      (s.work capacity attempt).2.queue = rest := by
  unfold work
  rw [queue]
  dsimp only
  split
  · exact failTask_ended _ _ task
  · split
    · exact failTask_ended _ _ task
    · exact runTask_ended _ attempt task

theorem work_appends (s : Capture) (attempt : Attempt) :
    (s.work capacity attempt).2.appends.map AppendTask.given = s.appends.map AppendTask.given ∧
      s.ended <+: (s.work capacity attempt).2.ended := by
  cases queue : s.queue with
  | nil =>
    unfold work
    rw [queue]
    exact ⟨rfl, List.prefix_refl _⟩
  | cons task rest =>
    obtain ⟨endings, ended, left⟩ := @work_ended capacity s attempt task rest queue
    refine ⟨?_, by rw [ended]; exact List.prefix_append _ _⟩
    unfold appends
    rw [ended, left, queue]
    cases waits : task.append? with
    | none => rw [List.filterMap_cons_none waits]; simp
    | some waiting => rw [List.filterMap_cons_some waits]; simp [AppendTask.given]

/-- Any other step leaves the appends alone. -/
theorem step_appends (s : Capture) (input : Input)
    (other : ∀ chunk, input = .append chunk → s.accepting = false) :
    ((machine capacity).step s input).2.appends.map AppendTask.given =
        s.appends.map AppendTask.given ∧
      s.ended <+: ((machine capacity).step s input).2.ended := by
  have submitted : ∀ {s' : Capture} {task : CaptureTask}, s.submit task = .ok s' →
      task.append? = none → s'.appends = s.appends ∧ s'.ended = s.ended := by
    intro s' task submitted none
    obtain ⟨appends, ended, -⟩ := submit_appends submitted
    rw [none, Option.toList_none, List.append_nil] at appends
    exact ⟨appends, ended⟩
  cases input with
  | prepare =>
    change (s.prepare).2.appends.map _ = _ ∧ _ <+: (s.prepare).2.ended
    unfold prepare
    split
    · split
      · exact ⟨rfl, List.prefix_refl _⟩
      · rename_i s' done
        obtain ⟨appends, ended⟩ := submitted done rfl
        exact ⟨congrArg _ appends, ⟨[], by rw [List.append_nil, ended]⟩⟩
    · exact ⟨rfl, List.prefix_refl _⟩
  | prepareResumes =>
    change (s.prepareResumes).2.appends.map _ = _ ∧ _ <+: (s.prepareResumes).2.ended
    unfold prepareResumes
    split <;> exact ⟨rfl, List.prefix_refl _⟩
  | append chunk =>
    change (s.append chunk).2.appends.map _ = _ ∧ _ <+: (s.append chunk).2.ended
    unfold append
    rw [if_pos (other chunk rfl)]
    exact ⟨rfl, List.prefix_refl _⟩
  | stopAccepting => exact ⟨rfl, List.prefix_refl _⟩
  | sealing =>
    change (s.sealCapture).2.appends.map _ = _ ∧ _ <+: (s.sealCapture).2.ended
    unfold sealCapture
    split
    · exact ⟨rfl, List.prefix_refl _⟩
    · split
      · split
        · exact ⟨rfl, List.prefix_refl _⟩
        · rename_i s' done
          obtain ⟨appends, ended, -⟩ := submit_appends done
          refine ⟨?_, ⟨[], by rw [List.append_nil, ended]⟩⟩
          exact congrArg _ (appends.trans (List.append_nil _))
      · exact ⟨rfl, List.prefix_refl _⟩
  | sealResumes =>
    change (s.sealResumes).2.appends.map _ = _ ∧ _ <+: (s.sealResumes).2.ended
    unfold sealResumes
    split
    · exact ⟨rfl, List.prefix_refl _⟩
    · split <;> exact ⟨rfl, List.prefix_refl _⟩
    · exact ⟨rfl, List.prefix_refl _⟩
    · exact ⟨rfl, List.prefix_refl _⟩
  | read stream maxBytes =>
    change (s.read stream maxBytes).2.appends.map _ = _ ∧ _ <+: (s.read stream maxBytes).2.ended
    unfold read
    split
    · exact ⟨rfl, List.prefix_refl _⟩
    · split
      · exact ⟨rfl, List.prefix_refl _⟩
      · split
        · exact ⟨rfl, List.prefix_refl _⟩
        · rename_i s' done
          obtain ⟨appends, ended⟩ := submitted done rfl
          exact ⟨congrArg _ appends, ⟨[], by rw [List.append_nil, ended]⟩⟩
  | work attempt => exact work_appends s attempt
  | callback => exact ⟨rfl, List.prefix_refl _⟩
  | cancelWorker => exact ⟨rfl, List.prefix_refl _⟩

theorem submit_native (submitted : s.submit task = .ok s') :
    s'.native = s.native := (submit_appends submitted).2.2

theorem failTask_native (s : Capture) (error : CaptureError) (task : CaptureTask) :
    (s.failTask error task).2.native = s.native := by
  cases task <;> rfl

theorem runTask_lost (attempt : Attempt) (task : CaptureTask) (lost : s.native.lost = true) :
    (s.runTask capacity attempt task).2.native.lost = true := by
  cases task with
  | prepare =>
    unfold runTask NativeCapture.prepare
    dsimp only
    split
    · exact lost
    · cases attempt.preparation with
      | ready => exact lost
      | refused => rfl
      | raises capacityRefused => exact Bool.or_eq_true_iff.mpr (.inl lost)
  | append stream content =>
    obtain ⟨same, -⟩ := NativeCapture.appendPieces_cases capacity stream (pieces content) s.native
      attempt.faults
    exact same.lost lost
  | sealing =>
    unfold runTask NativeCapture.sealFiles
    dsimp only
    split <;> exact lost
  | read stream maxBytes =>
    unfold runTask
    dsimp only
    split <;> exact lost

theorem work_lost (attempt : Attempt) (lost : s.native.lost = true) :
    (s.work capacity attempt).2.native.lost = true := by
  unfold work
  cases s.queue with
  | nil => exact lost
  | cons task rest =>
    dsimp only
    split
    · rw [failTask_native]
      exact lost
    · split
      · rw [failTask_native]
        exact lost
      · exact runTask_lost attempt task lost

/-- What is lost stays lost. -/
theorem step_lost (input : Input) (lost : s.native.lost = true) :
    ((machine capacity).step s input).2.native.lost = true := by
  cases input with
  | prepare =>
    change s.prepare.2.native.lost = true
    unfold prepare
    split
    · split
      · exact lost
      · rename_i done
        change _ = true at lost
        rw [← submit_native done] at lost
        exact lost
    · exact lost
  | prepareResumes =>
    change s.prepareResumes.2.native.lost = true
    unfold prepareResumes
    split <;> exact lost
  | append chunk =>
    change (s.append chunk).2.native.lost = true
    unfold append
    split
    · exact lost
    · split
      · exact lost
      · split
        · exact lost
        · split
          · exact lost
          · rename_i done
            rw [submit_native done]
            exact lost
  | stopAccepting => exact lost
  | sealing =>
    change s.sealCapture.2.native.lost = true
    unfold sealCapture
    split
    · exact lost
    · split
      · split
        · exact lost
        · rename_i s' done
          change s'.native.lost = true
          rw [submit_native done]
          exact lost
      · exact lost
  | sealResumes =>
    change s.sealResumes.2.native.lost = true
    unfold sealResumes
    split
    · exact lost
    · split <;> exact lost
    · exact lost
    · exact lost
  | read stream maxBytes =>
    change (s.read stream maxBytes).2.native.lost = true
    unfold read
    split
    · exact lost
    · split
      · exact lost
      · split
        · exact lost
        · rename_i done
          rw [submit_native done]
          exact lost
  | work attempt => exact work_lost attempt lost
  | callback => exact lost
  | cancelWorker => exact lost

variable {attempt : Attempt}

theorem work_loses (ends : (s.work capacity attempt).1 = .appended endings)
    (bad : .overflowed ∈ endings ∨ .failed ∈ endings) : (s.work capacity attempt).2.native.lost = true := by
  unfold work at ends ⊢
  cases queue : s.queue with
  | nil =>
    rw [queue] at ends
    cases ends
  | cons task rest =>
    rw [queue] at ends
    dsimp only at ends ⊢
    have refused : ∀ (t : Capture) (error : CaptureError),
        (t.failTask error task).1 = .appended endings → False := by
      intro t error ends
      cases task <;> cases ends
      rcases bad with h | h <;> cases List.mem_singleton.mp h
    split at ends
    · exact (refused _ _ ends).elim
    · split at ends
      · exact (refused _ _ ends).elim
      · rename_i known starts
        rw [if_neg known, if_neg starts]
        cases task with
        | prepare => cases ends
        | append stream content =>
          obtain ⟨-, cases⟩ := NativeCapture.appendPieces_cases capacity stream (pieces content)
            s.native attempt.faults
          cases ends
          rcases cases with ⟨refusal, -⟩ | lost | ⟨all, -⟩
          · rw [refusal] at bad
            rcases bad with h | h <;> cases List.mem_singleton.mp h
          · exact lost
          · rcases bad with h | h <;> cases all _ h
        | sealing => cases ends
        | read stream maxBytes =>
          unfold runTask at ends
          dsimp only at ends
          split at ends <;> cases ends

variable {sizes : OutputStream → Nat}

/-- Where sources are handed out: every accepted append has ended, and both files hold what
was accepted. -/
theorem Inv.complete (inv : Inv s) (ended : s.sealTask = .ended (.ok (some sizes))) :
    s.appends = s.ended ∧ ∀ stream, s.native.file stream = s.written stream ∧
      sizes stream = (s.written stream).length := by
  obtain ⟨kept, -, -, lengths⟩ := inv.sizes sizes ended
  obtain ⟨noAppends, -⟩ := inv.ended _ ended
  refine ⟨?_, ?_⟩
  · unfold appends
    rw [List.filterMap_eq_nil_iff.mpr noAppends, List.append_nil]
  · intro stream
    have held := inv.files kept stream
    exact ⟨held, by rw [lengths stream, held]⟩

theorem sealResumes_sources (inv : Inv s) (answer : s.sealResumes.1 = .sources sizes) :
    s.sealTask = .ended (.ok (some sizes)) ∧ s.sealResumes.2.sealTask = s.sealTask := by
  unfold sealResumes at answer ⊢
  split at answer
  · cases answer
  · rename_i other ended
    split at answer
    · cases answer
      exact ⟨ended, rfl⟩
    · rename_i known cached
      cases answer
      exact ⟨inv.sources _ cached, rfl⟩
  · cases answer
  · cases answer

/-- Answers that say nothing of the files. -/
def Output.quiet : Output → Prop
  | .sources _ => False
  | .appended _ => False
  | .content _ _ => False
  | _ => True

theorem step_quiet (s : Capture) {input : Input} (notResumes : input ≠ .sealResumes)
    (notWork : ∀ attempt, input ≠ .work attempt) : ((machine capacity).step s input).1.quiet := by
  cases input with
  | sealResumes => exact absurd rfl notResumes
  | work attempt => exact absurd rfl (notWork attempt)
  | prepare =>
    change s.prepare.1.quiet
    unfold prepare
    split
    · split <;> trivial
    · trivial
  | prepareResumes =>
    change s.prepareResumes.1.quiet
    unfold prepareResumes
    split <;> trivial
  | append chunk =>
    change (s.append chunk).1.quiet
    unfold append
    split
    · trivial
    · split
      · trivial
      · split
        · trivial
        · split <;> trivial
  | stopAccepting => trivial
  | sealing =>
    change s.sealCapture.1.quiet
    unfold sealCapture
    split
    · trivial
    · split
      · split <;> trivial
      · trivial
  | read stream maxBytes =>
    change (s.read stream maxBytes).1.quiet
    unfold read
    split
    · trivial
    · split
      · trivial
      · split <;> trivial
  | callback => trivial
  | cancelWorker => trivial

theorem failTask_quiet (s : Capture) (error : CaptureError) (task : CaptureTask) :
    (s.failTask error task).1.quiet ∨ (s.failTask error task).1 = .appended [.refused] := by
  cases task with
  | prepare => exact .inl trivial
  | append stream content => exact .inr rfl
  | sealing => exact .inl trivial
  | read stream maxBytes => exact .inl trivial

theorem failTask_loud {error : CaptureError} {output : Output} (answer : (s.failTask error task).1 = output)
    (loud : ¬output.quiet) (other : output ≠ .appended [.refused]) : False := by
  subst answer
  exact (failTask_quiet s error task).elim loud other

variable {input : Input}

/-- Only a seal that is awaited hands out sources. -/
theorem step_sources (answer : ((machine capacity).step s input).1 = .sources sizes) :
    input = .sealResumes := by
  by_contra notResumes
  by_cases works : ∃ attempt, input = .work attempt
  · obtain ⟨attempt, rfl⟩ := works
    change (s.work capacity attempt).1 = _ at answer
    unfold work at answer
    split at answer
    · cases answer
    · rename_i task rest queue
      dsimp only at answer
      split at answer
      · exact failTask_loud answer id nofun
      · split at answer
        · exact failTask_loud answer id nofun
        · cases task with
          | prepare => cases answer
          | append stream content => cases answer
          | sealing => cases answer
          | read stream maxBytes =>
            unfold runTask at answer
            dsimp only at answer
            split at answer <;> cases answer
  · have quiet := @step_quiet capacity s input notResumes (not_exists.mp works)
    rw [answer] at quiet
    exact quiet

variable {bytes : List UInt8}

theorem work_content (inv : Inv s) (answer : (s.work capacity attempt).1 = .content stream bytes) :
    bytes = (s.work capacity attempt).2.written stream := by
  unfold work at answer ⊢
  cases queue : s.queue with
  | nil =>
    rw [queue] at answer
    cases answer
  | cons task rest =>
    rw [queue] at answer
    dsimp only at answer ⊢
    split at answer
    · exact (failTask_loud answer id nofun).elim
    · split at answer
      · exact (failTask_loud answer id nofun).elim
      · rename_i known starts
        rw [if_neg known, if_neg starts]
        cases task with
        | prepare => cases answer
        | append other content => cases answer
        | sealing => cases answer
        | read other maxBytes =>
          unfold runTask at answer ⊢
          dsimp only at answer ⊢
          cases found : s.native.read capacity other maxBytes attempt.readFails with
          | error error =>
            rw [found] at answer
            cases answer
          | ok read =>
            rw [found] at answer
            cases answer
            unfold NativeCapture.read at found
            obtain ⟨kept, found⟩ := raise_if_ok found
            obtain ⟨-, found⟩ := raise_if_ok found
            obtain ⟨-, found⟩ := raise_if_ok found
            cases found
            rw [not_or, not_or, Bool.not_eq_true s.native.lost] at kept
            exact inv.files kept.2.2 stream

theorem step_content (inv : Inv s) (answer : ((machine capacity).step s input).1 = .content stream bytes) :
    bytes = ((machine capacity).step s input).2.written stream := by
  by_cases works : ∃ attempt, input = .work attempt
  · obtain ⟨attempt, rfl⟩ := works
    exact work_content inv answer
  · by_cases resumes : input = .sealResumes
    · subst resumes
      change s.sealResumes.1 = _ at answer
      unfold sealResumes at answer
      split at answer
      · cases answer
      · split at answer <;> cases answer
      · cases answer
      · cases answer
    · have quiet := @step_quiet capacity s input resumes (not_exists.mp works)
      rw [answer] at quiet
      exact quiet.elim

theorem step_loses (ends : ((machine capacity).step s input).1 = .appended endings)
    (bad : .overflowed ∈ endings ∨ .failed ∈ endings) :
    ((machine capacity).step s input).2.native.lost = true := by
  by_cases works : ∃ attempt, input = .work attempt
  · obtain ⟨attempt, rfl⟩ := works
    exact work_loses ends bad
  · by_cases resumes : input = .sealResumes
    · subst resumes
      change s.sealResumes.1 = _ at ends
      unfold sealResumes at ends
      split at ends
      · cases ends
      · split at ends <;> cases ends
      · cases ends
      · cases ends
    · have quiet := @step_quiet capacity s input resumes (not_exists.mp works)
      rw [ends] at quiet
      exact quiet.elim

/-- What a step has to do with the appends that were accepted. -/
structure CaptureStep (capacity : OutputStream → Nat) (s : Capture) (input : Input) : Prop where
  /-- A chunk that comes while the lease accepts is refused with an exception to its reader, or
  becomes the last of the accepted appends. -/
  accepts : ∀ chunk, input = .append chunk → s.accepting = true →
    (∃ error, (machine capacity).step s input = (.raises error, s)) ∨
      ∃ content, encodeEscape chunk.text = some content ∧
        ((machine capacity).step s input).2.appends = s.appends ++ [⟨chunk.stream, content, none⟩]
  /-- Nothing else changes what was given to the appends, or how they ended. -/
  keeps : (∀ chunk, input = .append chunk → s.accepting = false) →
    ((machine capacity).step s input).2.appends.map AppendTask.given =
        s.appends.map AppendTask.given ∧
      s.ended <+: ((machine capacity).step s input).2.ended
  /-- Where the seal hands out sources, all accepted appends have ended and the files are the
  contents of those that did not raise, in the order of submission. -/
  sources : ∀ sizes, ((machine capacity).step s input).1 = .sources sizes →
    ((machine capacity).step s input).2.appends = ((machine capacity).step s input).2.ended ∧
      ∀ stream, ((machine capacity).step s input).2.native.file stream =
          ((machine capacity).step s input).2.written stream ∧
        sizes stream = (((machine capacity).step s input).2.written stream).length
  /-- What a source reads are just these contents. -/
  content : ∀ stream bytes, ((machine capacity).step s input).1 = .content stream bytes →
    bytes = ((machine capacity).step s input).2.written stream
  /-- Behind the seal nothing is appended any more. -/
  frozen : ∀ sizes, s.sealed = some sizes → ((machine capacity).step s input).2.ended = s.ended

theorem Inv.frozen (inv : Inv s) (input : Input) (found : s.sealed = some sizes) :
    ((machine capacity).step s input).2.ended = s.ended := by
  have sealedTask := inv.sources sizes found
  have closed : s.accepting = false := by
    rcases inv.fenced with absent | closed
    · rw [sealedTask] at absent
      cases absent
    · exact closed
  obtain ⟨noAppends, -⟩ := inv.ended _ sealedTask
  obtain ⟨given, grows⟩ := @step_appends capacity s input fun _ _ => closed
  have lengths := congrArg List.length given
  rw [List.length_map, List.length_map, appends, appends, List.filterMap_eq_nil_iff.mpr noAppends,
    List.append_nil, List.length_append] at lengths
  exact (grows.eq_of_length_le (by omega)).symm

theorem captureStep (inv : Inv s) (input : Input) : CaptureStep capacity s input := by
  refine ⟨?_, step_appends s input, ?_, fun _ _ => step_content inv, fun _ => inv.frozen input⟩
  · rintro chunk rfl accepting
    exact append_accepting chunk accepting
  · intro sizes answer
    obtain rfl := step_sources answer
    obtain ⟨ended, same⟩ := sealResumes_sources inv answer
    exact (inv.step capacity .sealResumes).complete (same.trans ended)

/-- The storage takes everything. -/
def goodAttempt : Attempt := ⟨true, .ready, [], false⟩

/-- A reader that appends before the capture is prepared. -/
def earlyRun : List Input :=
  [.append ⟨.stdout, "a"⟩, .work goodAttempt, .callback, .prepare, .work goodAttempt, .callback,
    .prepareResumes, .sealing, .work goodAttempt, .callback]

end Capture

end Loushang.AppHost
