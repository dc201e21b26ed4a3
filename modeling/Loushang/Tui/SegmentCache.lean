import Loushang.Tui.RenderSegments
import Loushang.Lib.Lists

/-!
# The segment caches are invisible

The invariant of the render loop's caches: segments are allocated once, a cached segment has the lines
its key stands for, and ends, images and counts are those of the frame before. Every frame keeps it, so
the facts of a run are those of the flattened lines.
-/
namespace Loushang.Tui
open Loushang.Lib

variable {I R : Type} {chars : Characters} {hashable : R → Bool}
  {linesOf : SegmentKey I R → List Text}

/-! ## Allocated segments -/

/-- The segments allocated so far, in the order of their numbers. -/
structure Heap (chars : Characters) (heap : List LogicalLineSegment) : Prop where
  numbered : ∀ (i : Nat) (s : LogicalLineSegment), heap[i]? = some s → s.object = i
  finalized : ∀ s ∈ heap, s = finalizeRenderSegment chars s.object s.rawLines

section Heap
variable {heap : List LogicalLineSegment} {segments : List LogicalLineSegment}

theorem Heap.same (allocated : Heap chars heap) : SameObjects heap heap := by
  intro s first t second same
  obtain ⟨i, atI⟩ := List.getElem?_of_mem first
  obtain ⟨j, atJ⟩ := List.getElem?_of_mem second
  rw [allocated.numbered i s atI, allocated.numbered j t atJ] at same
  subst same
  rw [atI, Option.some.injEq] at atJ
  exact atJ

theorem Heap.push (allocated : Heap chars heap) (lines : List Text) :
    Heap chars (heap ++ [finalizeRenderSegment chars heap.length lines]) := by
  refine ⟨?_, ?_⟩
  · intro i s found
    rw [List.getElem?_append] at found
    split at found
    · exact allocated.numbered i s found
    · next outside =>
      have here : i - heap.length = 0 := by
        have inside := (List.getElem?_eq_some_iff.mp found).1
        rw [List.length_singleton] at inside
        omega
      rw [here] at found
      cases found
      show heap.length = i
      omega
  · refine forall_mem_snoc allocated.finalized ?_
    rfl

variable {s : LogicalLineSegment}

theorem Heap.finalizedLines (allocated : Heap chars heap) (member : s ∈ heap) :
    s.finalizedLines = s.rawLines.map finalizeRenderedLine := by
  rw [allocated.finalized s member]
  rfl

theorem Heap.kittyImages (allocated : Heap chars heap) (member : s ∈ heap) :
    s.kittyImages = imagesFrom chars 0 s.finalizedLines := by
  rw [allocated.finalized s member]
  rfl

theorem Heap.flatMap_finalized (allocated : Heap chars heap) (members : ∀ s ∈ segments, s ∈ heap) :
    segments.flatMap LogicalLineSegment.finalizedLines =
      (segments.flatMap LogicalLineSegment.rawLines).map finalizeRenderedLine := by
  induction segments with
  | nil => rfl
  | cons s rest ih =>
    rw [List.flatMap_cons, List.flatMap_cons, List.map_append,
      allocated.finalizedLines (members s List.mem_cons_self),
      ih fun s member => members s (List.mem_cons_of_mem _ member)]

theorem endsFrom_append (total : Nat) (front back : List Nat) :
    endsFrom total (front ++ back) = endsFrom total front ++ endsFrom (total + front.sum) back := by
  induction front generalizing total with
  | nil => rfl
  | cons length rest ih =>
    rw [List.cons_append, endsFrom_cons, endsFrom_cons, ih, List.sum_cons, Nat.add_assoc,
      List.cons_append]

/-- The rows behind the common prefix are those of the joined lines. -/
theorem Heap.appendEnds_eq (allocated : Heap chars heap) (members : ∀ s ∈ segments, s ∈ heap)
    (total : Nat) :
    RenderLoop.appendEnds total segments =
      (endsFrom total (segments.map fun s => s.rawLines.length),
        imagesFrom chars total (segments.flatMap LogicalLineSegment.finalizedLines)) := by
  induction segments generalizing total with
  | nil => rfl
  | cons s rest ih =>
    have here := members s List.mem_cons_self
    unfold RenderLoop.appendEnds
    rw [ih fun s member => members s (List.mem_cons_of_mem _ member), List.map_cons, List.flatMap_cons,
      imagesFrom_append, allocated.kittyImages here, imagesFrom_shift, allocated.finalizedLines here,
      List.length_map]
    rfl

end Heap

/-! ## Counts of keys -/

section Counts
variable [DecidableEq I] [DecidableEq R]

/-- The counts of the keys of segments; keys that are not in use have none. -/
def Counted (counts : Dict (SegmentKey I R) Int) (keys : List (Option (SegmentKey I R))) : Prop :=
  ∀ key, counts.get? key = if keys.count (some key) = 0 then none else some (keys.count (some key) : Int)

theorem counted_empty : Counted (.empty : Dict (SegmentKey I R) Int) [] := fun _ => rfl

variable {counts : Dict (SegmentKey I R) Int} {keys : List (Option (SegmentKey I R))}

theorem Counted.concat_none (counted : Counted counts keys) : Counted counts (keys ++ [none]) := by
  intro key
  rw [List.count_append, counted key]
  simp

theorem Counted.concat (counted : Counted counts keys) (key : SegmentKey I R) :
    Counted (counts.set key ((counts.get? key).getD 0 + 1)) (keys ++ [some key]) := by
  intro other
  rw [List.count_append, Dict.get?_set]
  split
  · next here =>
    subst here
    rw [counted other, List.count_singleton_self, if_neg (Nat.succ_ne_zero _)]
    split
    · next unused => simp [unused]
    · simp
  · next elsewhere =>
    rw [counted other]
    simp [Ne.symm elsewhere]

/-- The keys behind a prefix leave: every lookup finds a count, and the prefix's counts are left. -/
theorem dropKeys_spec {front rest : List (Option (SegmentKey I R))}
    (counted : Counted counts (front ++ rest)) (cache : Dict (SegmentKey I R) LogicalLineSegment) :
    ∃ kept, RenderLoop.dropKeys counts cache rest = some kept ∧ Counted kept.1 front ∧
      ∀ key s, kept.2.get? key = some s → cache.get? key = some s := by
  induction rest generalizing counts cache with
  | nil =>
    rw [List.append_nil] at counted
    exact ⟨(counts, cache), rfl, counted, fun _ _ found => found⟩
  | cons entry rest ih =>
    have split : ∀ key, (front ++ entry :: rest).count (some key) =
        (front ++ rest).count (some key) + if entry = some key then 1 else 0 := by
      intro key
      rw [List.count_append, List.count_append, List.count_cons]
      simp only [beq_iff_eq]
      omega
    cases entry with
    | none =>
      refine ih ?_ cache
      intro key
      rw [counted key, split key]
      rfl
    | some key =>
      have found := counted key
      rw [split key, if_pos rfl, if_neg (Nat.succ_ne_zero _)] at found
      unfold RenderLoop.dropKeys
      rw [found]
      dsimp only
      split
      · next more =>
        refine ih ?_ cache
        intro other
        rw [Dict.get?_set]
        split
        · next here =>
          subst here
          rw [if_neg (by omega)]
          congr 1
          omega
        · next elsewhere =>
          rw [counted other, split other, if_neg fun same => elsewhere (Option.some.inj same).symm,
            Nat.add_zero]
      · next last =>
        obtain ⟨kept, done, left, known⟩ := @ih (counts.pop key) (by
          intro other
          by_cases here : other = key
          · subst here
            rw [Dict.get?_pop_self, if_pos (by omega)]
          · rw [Dict.get?_pop_of_ne _ here, counted other, split other,
              if_neg fun same => here (Option.some.inj same).symm, Nat.add_zero]) (cache.pop key)
        refine ⟨kept, done, left, ?_⟩
        intro other s there
        have inPopped := known other s there
        by_cases here : other = key
        · rw [here, Dict.get?_pop_self] at inPopped
          cases inPopped
        · rw [Dict.get?_pop_of_ne _ here] at inPopped
          exact inPopped

end Counts

/-! ## Materializing the segments behind the prefix -/

section Build
variable [DecidableEq I] [DecidableEq R] {heap : List LogicalLineSegment}
  {previous : Dict (SegmentKey I R) LogicalLineSegment}

/-- A table of segments of the lines their keys stand for. -/
def Tabled (linesOf : SegmentKey I R → List Text) (heap : List LogicalLineSegment)
    (cache : Dict (SegmentKey I R) LogicalLineSegment) : Prop :=
  ∀ key s, cache.get? key = some s → s ∈ heap ∧ s.rawLines = linesOf key

theorem Tabled.mono (tabled : Tabled linesOf heap previous) {heap' : List LogicalLineSegment}
    (grown : heap <+: heap') : Tabled linesOf heap' previous := by
  intro key s found
  obtain ⟨member, lines⟩ := tabled key s found
  exact ⟨grown.subset member, lines⟩

/-- What is built when some of the segments are done. -/
structure Building (chars : Characters) (hashable : R → Bool) (linesOf : SegmentKey I R → List Text)
    (heap : List LogicalLineSegment) (done : List (RenderLineSegmentLike I R))
    (built : Materialized I R) : Prop where
  allocated : Heap chars heap
  objects : built.objects = heap.length
  tabled : Tabled linesOf heap built.cache
  counted : Counted built.counts built.keys
  keys : built.keys = done.map (RenderLineSegmentLike.cacheKey hashable)
  lines : built.segments.map LogicalLineSegment.rawLines = done.map RenderLineSegmentLike.iterLines
  members : ∀ s ∈ built.segments, s ∈ heap

variable {done : List (RenderLineSegmentLike I R)} {built : Materialized I R}

/-- Step lemma: a segment is taken from a table or allocated. -/
theorem Building.materialize (building : Building chars hashable linesOf heap done built)
    (known : Tabled linesOf heap previous) (length : Nat)
    (entry : RenderLineSegmentLike I R × Nat)
    (determined : ∀ key, entry.1.cacheKey hashable = some key → entry.1.iterLines = linesOf key) :
    ∃ heap', heap <+: heap' ∧ Building chars hashable linesOf heap' (done ++ [entry.1])
      (RenderLoop.materialize chars hashable previous length built entry) := by
  obtain ⟨allocated, objects, tabled, counted, keys, lines, members⟩ := building
  have pushed : Heap chars (heap ++ [finalizeRenderSegment chars built.objects entry.1.iterLines]) := by
    rw [objects]
    exact allocated.push _
  have grown : heap <+: heap ++ [finalizeRenderSegment chars built.objects entry.1.iterLines] :=
    List.prefix_append _ _
  unfold RenderLoop.materialize
  cases key : entry.1.cacheKey hashable with
  | none =>
    refine ⟨_, grown, pushed, ?_, tabled.mono grown, ?_, ?_, ?_, ?_⟩
    · show built.objects + 1 = _
      rw [objects, List.length_append, List.length_singleton]
    · exact counted.concat_none
    · rw [List.map_append, ← keys, List.map_singleton, key]
    · rw [List.map_append, List.map_append, lines]
      rfl
    · exact List.forall_mem_append.mpr
        ⟨fun s old => List.mem_append_left _ (members s old), fun _ new => List.mem_append_right _ new⟩
  | some key' =>
    have stands := determined key' key
    dsimp only
    cases found : (built.cache.get? key').or (previous.get? key') with
    | some s =>
      have known : s ∈ heap ∧ s.rawLines = linesOf key' := by
        rcases Option.or_eq_some_iff.mp found with here | ⟨_, before⟩
        · exact tabled key' s here
        · exact known key' s before
      refine ⟨heap, List.prefix_refl heap, allocated, objects, ?_, counted.concat key', ?_, ?_, ?_⟩
      · intro other t there
        rw [Option.getD_some, Dict.get?_set] at there
        split at there
        · next here =>
          cases there
          rw [here]
          exact known
        · exact tabled other t there
      · rw [List.map_append, ← keys, List.map_singleton, key]
      · rw [List.map_append, List.map_append, lines, List.map_singleton, List.map_singleton, stands]
        exact congrArg (fun line => done.map RenderLineSegmentLike.iterLines ++ [line]) known.2
      · exact forall_mem_snoc members known.1
    | none =>
      refine ⟨_, grown, pushed, ?_, ?_, counted.concat key', ?_, ?_, ?_⟩
      · show built.objects + 1 = _
        rw [objects, List.length_append, List.length_singleton]
      · intro other t there
        rw [Option.getD_none, Dict.get?_set] at there
        split at there
        · next here =>
          cases there
          rw [here]
          exact ⟨List.mem_append_right _ List.mem_cons_self, stands⟩
        · exact tabled.mono grown other t there
      · rw [List.map_append, ← keys, List.map_singleton, key]
      · rw [List.map_append, List.map_append, lines]
        rfl
      · exact List.forall_mem_append.mpr
          ⟨fun t old => List.mem_append_left _ (members t old), fun _ new => List.mem_append_right _ new⟩

/-- Every segment behind the prefix is built, of its lines. -/
theorem Building.all (building : Building chars hashable linesOf heap done built)
    (known : Tabled linesOf heap previous) (length : Nat)
    (entries : List (RenderLineSegmentLike I R × Nat))
    (determined : ∀ entry ∈ entries, ∀ key, entry.1.cacheKey hashable = some key →
      entry.1.iterLines = linesOf key) :
    ∃ heap', heap <+: heap' ∧ Building chars hashable linesOf heap' (done ++ entries.map Prod.fst)
      (entries.foldl (RenderLoop.materialize chars hashable previous length) built) := by
  induction entries generalizing heap done built with
  | nil =>
    rw [List.map_nil, List.append_nil]
    exact ⟨heap, List.prefix_refl heap, building⟩
  | cons entry rest ih =>
    obtain ⟨heap', grown, next⟩ := building.materialize known length entry
      (determined entry List.mem_cons_self)
    obtain ⟨heap'', more, all⟩ := ih next (known.mono grown)
      fun entry member => determined entry (List.mem_cons_of_mem _ member)
    rw [List.map_cons, List.foldl_cons, ← List.singleton_append, ← List.append_assoc]
    exact ⟨heap'', grown.trans more, all⟩

end Build

/-! ## A frame -/

section Frame
variable [DecidableEq I] [DecidableEq R] {heap : List LogicalLineSegment}

/-- The caches agree with the segments of the frame before. -/
structure Cached (chars : Characters) (hashable : R → Bool) (linesOf : SegmentKey I R → List Text)
    (heap : List LogicalLineSegment) (r : RenderLoop I R) : Prop where
  allocated : Heap chars heap
  objects : r.objects = heap.length
  tabled : Tabled linesOf heap r.finalizedSegmentCache
  counted : Counted r.previousKeyCounts r.previousSegmentKeys
  keys : r.previousSegmentKeys = r.previousRenderSegments.map (RenderLineSegmentLike.cacheKey hashable)
  lines : r.previousLogicalSegments.map LogicalLineSegment.rawLines =
    r.previousRenderSegments.map RenderLineSegmentLike.iterLines
  members : ∀ s ∈ r.previousLogicalSegments, s ∈ heap
  ends : r.previousSegmentEnds = endsFrom 0 (r.previousLogicalSegments.map fun s => s.rawLines.length)
  images : r.previousKittyImages =
    imagesFrom chars 0 (r.previousLogicalSegments.flatMap LogicalLineSegment.finalizedLines)

/-- The committed lines: finalized ones of the raw ones, in segments of the heap. -/
structure Committed (chars : Characters) (heap : List LogicalLineSegment) (raw rendered : Lines) :
    Prop where
  measured : raw.Measured
  faithful : rendered.Faithful chars
  finalized : rendered.toList = raw.toList.map finalizeRenderedLine
  members : ∀ lines, rendered = .segmented lines → ∀ s ∈ lines.segments, s ∈ heap

variable {rendered : Lines} {heap' : List LogicalLineSegment}

theorem Committed.mono {raw : Lines} (committed : Committed chars heap raw rendered) (grown : heap <+: heap') :
    Committed chars heap' raw rendered :=
  ⟨committed.measured, committed.faithful, committed.finalized,
    fun lines same s member => grown.subset (committed.members lines same s member)⟩

theorem take_endsFrom (total count : Nat) (lengths : List Nat) :
    (endsFrom total lengths).take count = endsFrom total (lengths.take count) := by
  induction lengths generalizing total count with
  | nil => simp [endsFrom]
  | cons length rest ih =>
    cases count with
    | zero => rfl
    | succ count => rw [endsFrom_cons, List.take_succ_cons, ih, List.take_succ_cons, endsFrom_cons]

theorem filter_imagesFrom_front (front back : List Text) :
    (imagesFrom chars 0 (front ++ back)).filter (fun image => image.row < front.length) =
      imagesFrom chars 0 front := by
  rw [imagesFrom_append, List.filter_append]
  have kept : (imagesFrom chars 0 front).filter (fun image => image.row < front.length) =
      imagesFrom chars 0 front := by
    refine List.filter_eq_self.mpr ?_
    intro image member
    have bounds := row_of_mem_imagesFrom member
    simp only [decide_eq_true_eq]
    omega
  have dropped : (imagesFrom chars (0 + front.length) back).filter
      (fun image => image.row < front.length) = [] := by
    refine List.filter_eq_nil_iff.mpr ?_
    intro image member
    have bounds := row_of_mem_imagesFrom member
    simp only [decide_eq_true_eq]
    omega
  rw [kept, dropped, List.append_nil]

/-- Lines in segments of the heap, with the ends and images of all their rows. -/
theorem segmented_rows (allocated : Heap chars heap) {segments : List LogicalLineSegment}
    (members : ∀ s ∈ segments, s ∈ heap) {ends : List Nat} {images : List KittyImage}
    (ends_eq : ends = endsFrom 0 (segments.map fun s => s.rawLines.length))
    (images_eq : images = imagesFrom chars 0 (segments.flatMap LogicalLineSegment.finalizedLines)) :
    (SegmentedTextLines.mk segments false ends (some images)).Measured ∧
      (SegmentedTextLines.mk segments true ends (some images)).Faithful chars := by
  refine ⟨ends_eq, rfl, ?_, images_eq⟩
  have lengths : (segments.map fun s => s.rawLines.length) =
      segments.map fun s => s.finalizedLines.length := by
    refine List.map_congr_left ?_
    intro s member
    rw [allocated.finalizedLines (members s member), List.length_map]
  rw [lengths] at ends_eq
  exact ends_eq

/-- What a frame's lines are, and that the caches are kept. -/
structure Planned (chars : Characters) (hashable : R → Bool) (linesOf : SegmentKey I R → List Text)
    (heap : List LogicalLineSegment) (flattened : List Text) (r : RenderLoop I R)
    (planned : Lines × Lines × RenderLoop I R) : Prop where
  cached : Cached chars hashable linesOf heap planned.2.2
  before : planned.2.2.previousRawLines = r.previousRawLines ∧
    planned.2.2.previousRenderedLines = r.previousRenderedLines
  raw : planned.1.toList = flattened
  committed : Committed chars heap planned.1 planned.2.1

variable {r : RenderLoop I R}

theorem finalizeRenderedLines_eq {raw : Lines} (committed : Committed chars heap raw rendered)
    (lines : List Text) : finalizeRenderedLines lines raw rendered = lines.map finalizeRenderedLine := by
  unfold finalizeRenderedLines
  apply List.ext_getElem?
  intro index
  rw [List.getElem?_mapIdx, List.getElem?_map]
  cases lines[index]? with
  | none => rfl
  | some line =>
    rw [Option.map_some, Option.map_some]
    congr 1
    split
    · next same =>
      have rawLine : raw.toList[index]? = some line := by
        have found := committed.measured.lineAt_eq index
        have length := committed.measured.length_eq
        have inside : index < raw.length := by omega
        unfold Lines.lineAt at found
        rw [if_pos inside, same.2, Option.getD_some, List.getElem?_eq_getElem (by omega),
          Option.getD_some] at found
        rw [List.getElem?_eq_getElem (by omega), found]
      have finalized : rendered.toList[index]? = some (finalizeRenderedLine line) := by
        rw [committed.finalized, List.getElem?_map, rawLine]
        rfl
      have found := committed.faithful.measured.lineAt_eq index
      unfold Lines.lineAt at found
      rw [if_pos (by omega), finalized] at found
      exact found
    · rfl

/-- The ends and images of the shared rows, and those behind them. -/
theorem sharedRows (cached : Cached chars hashable linesOf heap r)
    {rendered : List (RenderLineSegmentLike I R)} {built : Materialized I R}
    (building : Building chars hashable linesOf heap' rendered built) {shared : Nat}
    (shares : r.previousRenderSegments.take shared = rendered.take shared) :
    let total := (r.previousSegmentEnds.take shared).getLast?.getD 0
    let behind := built.segments.drop shared
    r.previousSegmentEnds.take shared ++ endsFrom total (behind.map fun s => s.rawLines.length) =
        endsFrom 0 (built.segments.map fun s => s.rawLines.length) ∧
      r.previousKittyImages.filter (fun image => image.row < total) ++
          imagesFrom chars total (behind.flatMap LogicalLineSegment.finalizedLines) =
        imagesFrom chars 0 (built.segments.flatMap LogicalLineSegment.finalizedLines) := by
  -- The shared segments have the same lines as those built.
  have raws : (r.previousLogicalSegments.take shared).map LogicalLineSegment.rawLines =
      (built.segments.take shared).map LogicalLineSegment.rawLines := by
    rw [List.map_take, cached.lines, ← List.map_take, shares, List.map_take, ← building.lines,
      List.map_take]
  have lengths : ((r.previousLogicalSegments.take shared).map fun s => s.rawLines.length) =
      (built.segments.take shared).map fun s => s.rawLines.length := by
    have counted := congrArg (List.map List.length) raws
    rw [List.map_map, List.map_map] at counted
    exact counted
  have ends : r.previousSegmentEnds.take shared =
      endsFrom 0 ((built.segments.take shared).map fun s => s.rawLines.length) := by
    rw [cached.ends, take_endsFrom, ← List.map_take, lengths]
  have total : (r.previousSegmentEnds.take shared).getLast?.getD 0 =
      ((built.segments.take shared).map fun s => s.rawLines.length).sum := by
    rw [ends, getLast?_endsFrom, Nat.zero_add]
  have finalized : (r.previousLogicalSegments.take shared).flatMap LogicalLineSegment.finalizedLines =
      (built.segments.take shared).flatMap LogicalLineSegment.finalizedLines := by
    rw [cached.allocated.flatMap_finalized fun s member => cached.members s (List.mem_of_mem_take member),
      building.allocated.flatMap_finalized fun s member =>
        building.members s (List.mem_of_mem_take member)]
    rw [List.flatMap_def, List.flatMap_def, raws]
  have size : ((built.segments.take shared).flatMap LogicalLineSegment.finalizedLines).length =
      ((built.segments.take shared).map fun s => s.rawLines.length).sum := by
    rw [building.allocated.flatMap_finalized fun s member =>
      building.members s (List.mem_of_mem_take member), List.length_map, List.length_flatMap]
  rw [total]
  constructor
  · rw [ends]
    conv_rhs => rw [← List.take_append_drop shared built.segments]
    rw [List.map_append, endsFrom_append, Nat.zero_add]
  · have images : r.previousKittyImages.filter (fun image =>
        image.row < ((built.segments.take shared).map fun s => s.rawLines.length).sum) =
        imagesFrom chars 0
          ((built.segments.take shared).flatMap LogicalLineSegment.finalizedLines) := by
      rw [cached.images]
      conv_lhs => rw [← List.take_append_drop shared r.previousLogicalSegments]
      rw [List.flatMap_append, finalized, ← size]
      exact filter_imagesFrom_front _ _
    rw [images]
    conv_rhs => rw [← List.take_append_drop shared built.segments]
    rw [List.flatMap_append, imagesFrom_append, Nat.zero_add, size]

theorem Cached.logicalLines (cached : Cached chars hashable linesOf heap r)
    (committed : Committed chars heap r.previousRawLines r.previousRenderedLines)
    (lines : RenderLines I R)
    (determined : ∀ segment ∈ lines.segments, ∀ key, segment.cacheKey hashable = some key →
      segment.iterLines = linesOf key) :
    ∃ planned heap', r.logicalLines chars hashable lines = some planned ∧ heap <+: heap' ∧
      Planned chars hashable linesOf heap' lines.flatten r planned := by
  obtain ⟨allocated, objects, tabled, counted, keys, lines_eq, members, ends, images⟩ := cached
  cases lines with
  | flat lines =>
    refine ⟨_, heap, rfl, List.prefix_refl heap,
      ⟨allocated, objects, tabled, counted_empty, rfl, rfl, nofun, rfl, rfl⟩, ⟨rfl, rfl⟩, rfl,
      ⟨trivial, trivial, ?_, nofun⟩⟩
    exact finalizeRenderedLines_eq committed lines
  | segmented rendered =>
    unfold RenderLoop.logicalLines
    dsimp only
    obtain ⟨inside, alsoInside, same⟩ :=
      commonSegmentPrefix_spec r.previousRenderSegments rendered
    have shares : r.previousRenderSegments.take
        (min (commonSegmentPrefix r.previousRenderSegments rendered) r.previousFirstUncacheable) =
        rendered.take (min (commonSegmentPrefix r.previousRenderSegments rendered)
          r.previousFirstUncacheable) := by
      rw [Nat.min_comm, ← List.take_take, ← List.take_take, same]
    generalize min (commonSegmentPrefix r.previousRenderSegments rendered)
      r.previousFirstUncacheable = shared at shares ⊢
    -- The keys that leave are counted, so no lookup raises.
    have keptKeys : ∃ kept, (if shared = 0 then some (.empty, .empty)
        else RenderLoop.dropKeys r.previousKeyCounts r.finalizedSegmentCache
          (r.previousSegmentKeys.drop shared)) = some kept ∧
        Counted kept.1 (r.previousSegmentKeys.take shared) ∧ Tabled linesOf heap kept.2 := by
      by_cases none : shared = 0
      · subst none
        rw [List.take_zero]
        exact ⟨(.empty, .empty), rfl, counted_empty, nofun⟩
      · rw [if_neg none]
        rw [← List.take_append_drop shared r.previousSegmentKeys] at counted
        obtain ⟨kept, done, left, known⟩ := dropKeys_spec counted r.finalizedSegmentCache
        exact ⟨kept, done, left, fun key s found => tabled key s (known key s found)⟩
    obtain ⟨kept, keptEq, keptCounted, keptTabled⟩ := keptKeys
    rw [keptEq, Option.map_some]
    have start : Building chars hashable linesOf heap (rendered.take shared)
        ⟨r.objects, kept.2, kept.1, r.previousLogicalSegments.take shared,
          r.previousSegmentKeys.take shared, rendered.length⟩ := by
      refine ⟨allocated, objects, keptTabled, keptCounted, ?_, ?_,
        fun s member => members s (List.mem_of_mem_take member)⟩
      · show r.previousSegmentKeys.take shared = _
        rw [keys, ← shares, List.map_take]
      · show (r.previousLogicalSegments.take shared).map LogicalLineSegment.rawLines = _
        rw [← shares, List.map_take, lines_eq, List.map_take]
    obtain ⟨heap', grown, building⟩ := start.all tabled rendered.length
      ((rendered.drop shared).zipIdx shared) (by
        intro entry member key named
        have inRendered : entry.1 ∈ rendered := by
          have fst := List.mem_map_of_mem (f := Prod.fst) member
          rw [List.zipIdx_map_fst] at fst
          exact List.mem_of_mem_drop fst
        exact determined entry.1 inRendered key named)
    rw [List.zipIdx_map_fst, List.take_append_drop] at building
    generalize ((rendered.drop shared).zipIdx shared).foldl
      (RenderLoop.materialize chars hashable r.finalizedSegmentCache rendered.length)
        ⟨r.objects, kept.2, kept.1, r.previousLogicalSegments.take shared,
          r.previousSegmentKeys.take shared, rendered.length⟩ = built at building ⊢
    have rows := sharedRows ⟨allocated, objects, tabled, counted, keys, lines_eq, members, ends, images⟩
      building shares
    have behind : ∀ s ∈ built.segments.drop shared, s ∈ heap' := fun s member =>
      building.members s (List.mem_of_mem_drop member)
    rw [building.allocated.appendEnds_eq behind]
    have joined := segmented_rows building.allocated building.members rows.1 rows.2
    refine ⟨_, heap', rfl, grown, ⟨building.allocated, building.objects, building.tabled,
      building.counted, building.keys, building.lines, building.members, rows.1, rows.2⟩, ⟨rfl, rfl⟩,
      ?_, ⟨joined.1, joined.2, ?_, ?_⟩⟩
    · show built.segments.flatMap LogicalLineSegment.rawLines =
        rendered.flatMap RenderLineSegmentLike.iterLines
      rw [List.flatMap_def, List.flatMap_def, building.lines]
    · exact building.allocated.flatMap_finalized building.members
    · intro lines same s member
      cases same
      exact building.members s member

end Frame

/-! ## Runs -/

section Runs
variable [DecidableEq I] [DecidableEq R] {heap : List LogicalLineSegment} {r : RenderLoop I R}

theorem Lines.Measured.reading_eq {lines : Lines} (measured : lines.Measured) :
    lines.reading = (Lines.flat lines.toList).reading := by
  unfold Lines.reading
  rw [measured.length_eq, Reading.mk.injEq]
  refine ⟨rfl, rfl, ?_⟩
  funext index
  cases lines with
  | flat lines => rfl
  | segmented lines => exact SegmentedTextLines.Measured.getItem_eq measured index

/-- The facts of a frame are those of the flattened lines. -/
theorem frameFacts_eq {previousRaw previous raw current : Lines} (allocated : Heap chars heap)
    (before : Committed chars heap previousRaw previous) (now : Committed chars heap raw current) :
    frameFacts chars previous raw current =
      frameFacts chars (.flat previous.toList) (.flat raw.toList) (.flat current.toList) := by
  have range : changedLineRange previous current =
      changedLineRange (.flat previous.toList) (.flat current.toList) := by
    refine changedLineRange_toList before.faithful.measured now.faithful.measured ?_
    intro p c first second
    have members := before.members p first
    have alsoMembers := now.members c second
    subst first second
    have faithful : p.finalized = true := SegmentedTextLines.Faithful.finalized before.faithful
    have alsoFaithful : c.finalized = true := SegmentedTextLines.Faithful.finalized now.faithful
    exact ⟨faithful.trans alsoFaithful.symm,
      fun s first t second => allocated.same s (members s first) t (alsoMembers t second)⟩
  unfold frameFacts
  rw [now.measured.reading_eq, now.faithful.measured.reading_eq, range,
    expand_toList before.faithful, kittyDeleteSequences_toList before.faithful]
  congr 1
  funext first last
  exact kittyDeleteSequencesInRange_toList before.faithful first last

/-- Run lemma: from caches that agree with the frame before, every frame's facts are those of the
flattened lines. -/
theorem Cached.frames (cached : Cached chars hashable linesOf heap r)
    (committed : Committed chars heap r.previousRawLines r.previousRenderedLines)
    (frames : List (Frame I R))
    (determined : ∀ frame ∈ frames, ∀ segment ∈ frame.lines.segments, ∀ key,
      segment.cacheKey hashable = some key → segment.iterLines = linesOf key) :
    r.frames chars hashable frames = some (flatFrames chars r.previousRenderedLines.toList frames) := by
  induction frames generalizing heap r with
  | nil => rfl
  | cons frame rest ih =>
    obtain ⟨⟨raw, current, next⟩, heap', done, grown, planned⟩ :=
      cached.logicalLines committed frame.lines (determined frame List.mem_cons_self)
    obtain ⟨cached', ⟨sameRaw, sameRendered⟩, flattened, now⟩ := planned
    have finalized : current.toList = frame.lines.flatten.map finalizeRenderedLine := by
      rw [now.finalized, flattened]
    unfold RenderLoop.frames flatFrames
    rw [done, Option.bind_some]
    dsimp only
    rw [frameFacts_eq cached'.allocated (committed.mono grown) now, flattened, finalized]
    cases frame.committed with
    | true =>
      have afterwards : Cached chars hashable linesOf heap' (next.commit raw current) :=
        ⟨cached'.allocated, cached'.objects, cached'.tabled, cached'.counted, cached'.keys,
          cached'.lines, cached'.members, cached'.ends, cached'.images⟩
      have run := ih afterwards now fun frame member => determined frame (List.mem_cons_of_mem _ member)
      rw [if_pos rfl, if_pos rfl, run, Option.map_some]
      rw [show (next.commit raw current).previousRenderedLines = current from rfl, finalized]
    | false =>
      have kept := committed.mono grown
      rw [← sameRaw, ← sameRendered] at kept
      have run := ih cached' kept fun frame member => determined frame (List.mem_cons_of_mem _ member)
      rw [if_neg Bool.false_ne_true, if_neg Bool.false_ne_true, run, Option.map_some, sameRendered]

/-- Two segments, then their order turned and the second one doubled, then the first alone. -/
def turnedSegments : List (Frame Nat Nat) :=
  let segment := fun identity : Nat =>
    RenderLineSegmentLike.whole (RenderLineSegment.mk [textOf "a", textOf "b"] identity 0 true)
  [⟨.segmented [segment 0, segment 1], true⟩, ⟨.segmented [segment 1, segment 0, segment 1], false⟩,
    ⟨.segmented [segment 0], true⟩]

end Runs

end Loushang.Tui
