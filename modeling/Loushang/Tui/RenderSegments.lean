import Loushang.Lib.Dict
import Loushang.Tui.SegmentedLines

/-!
# Segments that are materialized once

`RenderLoop._logical_lines` with the caches it keeps from frame to frame: the common prefix with the
frame before, the table of finalized segments, the counts of their keys and the rows of their images.
Counters of the diagnostics, the plan's strategies and the terminal operations are not modelled.
-/
namespace Loushang.Tui
open Loushang.Lib

variable {I R : Type}

/-- `RenderLineSegment`; a line is its text. -/
structure RenderLineSegment (I R : Type) where
  lines : List Text
  identity : I
  revision : R
  cacheable : Bool := true
  deriving DecidableEq

/-- `RenderLineSegmentView`. -/
structure RenderLineSegmentView (I R : Type) where
  segment : RenderLineSegment I R
  start : Nat
  stop : Nat
  ordered : start ≤ stop
  inside : stop ≤ segment.lines.length
  deriving DecidableEq

inductive RenderLineSegmentLike (I R : Type) where
  | whole (segment : RenderLineSegment I R)
  | view (view : RenderLineSegmentView I R)
  deriving DecidableEq

/-- An identity key and a revision. -/
abbrev SegmentKey (I R : Type) := (I × Nat × Nat) × R

namespace RenderLineSegmentLike

def identityKey : RenderLineSegmentLike I R → I × Nat × Nat
  | .whole s => (s.identity, 0, s.lines.length)
  | .view v => (v.segment.identity, v.start, v.stop)

def revision : RenderLineSegmentLike I R → R
  | .whole s => s.revision
  | .view v => v.segment.revision

def cacheable : RenderLineSegmentLike I R → Bool
  | .whole s => s.cacheable
  | .view v => v.segment.cacheable

def iterLines : RenderLineSegmentLike I R → List Text
  | .whole s => s.lines
  | .view v => (v.segment.lines.take v.stop).drop v.start

/-- `_render_segment_cache_key`; identities are hashable, revisions need not be. -/
def cacheKey (hashable : R → Bool) (segment : RenderLineSegmentLike I R) : Option (SegmentKey I R) :=
  if segment.cacheable && hashable segment.revision then some (segment.identityKey, segment.revision)
  else none

end RenderLineSegmentLike

/-- `RenderResult.lines`. -/
inductive RenderLines (I R : Type) where
  | flat (lines : List Text)
  | segmented (segments : List (RenderLineSegmentLike I R))

namespace RenderLines

def segments : RenderLines I R → List (RenderLineSegmentLike I R)
  | .flat _ => []
  | .segmented segments => segments

/-- The flattened lines. -/
def flatten : RenderLines I R → List Text
  | .flat lines => lines
  | .segmented segments => segments.flatMap RenderLineSegmentLike.iterLines

end RenderLines

/-- `_finalize_rendered_lines`. -/
def finalizeRenderedLines (lines : List Text) (previousRaw previousFinalized : Lines) : List Text :=
  let reusable := min lines.length (min previousRaw.length previousFinalized.length)
  lines.mapIdx fun index line =>
    if index < reusable ∧ previousRaw.getItem index = some line then
      (previousFinalized.getItem index).getD []
    else finalizeRenderedLine line

/-- What `RenderLoop` keeps between frames; `objects` counts the segments allocated so far. -/
structure RenderLoop (I R : Type) where
  objects : Nat := 0
  previousRenderedLines : Lines := .flat []
  previousRawLines : Lines := .flat []
  finalizedSegmentCache : Dict (SegmentKey I R) LogicalLineSegment := .empty
  previousRenderSegments : List (RenderLineSegmentLike I R) := []
  previousLogicalSegments : List LogicalLineSegment := []
  previousSegmentKeys : List (Option (SegmentKey I R)) := []
  previousSegmentEnds : List Nat := []
  previousKittyImages : List KittyImage := []
  previousKeyCounts : Dict (SegmentKey I R) Int := .empty
  previousFirstUncacheable : Nat := 0

/-- What the loop over the segments behind the common prefix builds. -/
structure Materialized (I R : Type) where
  objects : Nat
  cache : Dict (SegmentKey I R) LogicalLineSegment
  counts : Dict (SegmentKey I R) Int
  segments : List LogicalLineSegment
  keys : List (Option (SegmentKey I R))
  firstUncacheable : Nat

namespace RenderLoop
variable [DecidableEq I] [DecidableEq R]

/-- The keys behind the common prefix leave the counts, and the cache with their last use; none where
a lookup raises. -/
def dropKeys (counts : Dict (SegmentKey I R) Int) (cache : Dict (SegmentKey I R) LogicalLineSegment) :
    List (Option (SegmentKey I R)) →
      Option (Dict (SegmentKey I R) Int × Dict (SegmentKey I R) LogicalLineSegment)
  | [] => some (counts, cache)
  | none :: rest => dropKeys counts cache rest
  | some key :: rest =>
    match counts.get? key with
    | none => none
    | some count =>
      if count - 1 ≠ 0 then dropKeys (counts.set key (count - 1)) cache rest
      else dropKeys (counts.pop key) (cache.pop key) rest

/-- A turn of the loop over the segments behind the common prefix; `length` is the number of all. -/
def materialize (chars : Characters) (hashable : R → Bool)
    (previous : Dict (SegmentKey I R) LogicalLineSegment) (length : Nat) (built : Materialized I R)
    (entry : RenderLineSegmentLike I R × Nat) : Materialized I R :=
  let fresh := finalizeRenderSegment chars built.objects entry.1.iterLines
  match entry.1.cacheKey hashable with
  | none =>
    { built with
      objects := built.objects + 1
      segments := built.segments ++ [fresh]
      keys := built.keys ++ [none]
      firstUncacheable :=
        if built.firstUncacheable = length then entry.2 else built.firstUncacheable }
  | some key =>
    let known := (built.cache.get? key).or (previous.get? key)
    let segment := known.getD fresh
    { built with
      objects := if known.isSome then built.objects else built.objects + 1
      cache := built.cache.set key segment
      counts := built.counts.set key ((built.counts.get? key).getD 0 + 1)
      segments := built.segments ++ [segment]
      keys := built.keys ++ [some key] }

/-- The rows and images behind the common prefix, from a row on. -/
def appendEnds (total : Nat) : List LogicalLineSegment → List Nat × List KittyImage
  | [] => ([], [])
  | segment :: rest =>
    let behind := appendEnds (total + segment.rawLines.length) rest
    ((total + segment.rawLines.length) :: behind.1,
      segment.kittyImages.map (KittyImage.shift total) ++ behind.2)

/-- `_logical_lines`: the raw and the finalized lines, none where a lookup of a key's count raises. -/
def logicalLines (chars : Characters) (hashable : R → Bool) (r : RenderLoop I R) :
    RenderLines I R → Option (Lines × Lines × RenderLoop I R)
  | .flat lines =>
    some (.flat lines,
      .flat (finalizeRenderedLines lines r.previousRawLines r.previousRenderedLines),
      { r with
        previousRenderSegments := []
        previousLogicalSegments := []
        previousSegmentKeys := []
        previousSegmentEnds := []
        previousKittyImages := []
        previousKeyCounts := .empty
        previousFirstUncacheable := 0 })
  | .segmented rendered =>
    let shared := min (commonSegmentPrefix r.previousRenderSegments rendered) r.previousFirstUncacheable
    let kept :=
      if shared = 0 then some (.empty, .empty)
      else dropKeys r.previousKeyCounts r.finalizedSegmentCache (r.previousSegmentKeys.drop shared)
    kept.map fun kept =>
      let built := ((rendered.drop shared).zipIdx shared).foldl
        (materialize chars hashable r.finalizedSegmentCache rendered.length)
        ⟨r.objects, kept.2, kept.1, r.previousLogicalSegments.take shared,
          r.previousSegmentKeys.take shared, rendered.length⟩
      let ends := r.previousSegmentEnds.take shared
      let total := ends.getLast?.getD 0
      let behind := appendEnds total (built.segments.drop shared)
      let images := r.previousKittyImages.filter (fun image => image.row < total) ++ behind.2
      (.segmented ⟨built.segments, false, ends ++ behind.1, some images⟩,
        .segmented ⟨built.segments, true, ends ++ behind.1, some images⟩,
        { r with
          objects := built.objects
          finalizedSegmentCache := built.cache
          previousRenderSegments := rendered
          previousLogicalSegments := built.segments
          previousSegmentKeys := built.keys
          previousSegmentEnds := ends ++ behind.1
          previousKittyImages := images
          previousKeyCounts := built.counts
          previousFirstUncacheable := built.firstUncacheable })

/-- What `commit` keeps of the lines. -/
def commit (r : RenderLoop I R) (raw current : Lines) : RenderLoop I R :=
  { r with
    previousRawLines := raw
    previousRenderedLines := current }

end RenderLoop

/-! ## Frames -/

/-- What a reader sees of lines: all of them, their number, and the line at a row. -/
structure Reading where
  lines : List Text
  length : Nat
  line : Nat → Option Text

def Lines.reading (lines : Lines) : Reading := ⟨lines.toList, lines.length, lines.getItem⟩

/-- What a plan takes from the lines: the changed range before and after its expansion for images, and
the sequences that delete the images of the frame before, all of them or those of a range. -/
structure FrameFacts where
  rawLines : Reading
  finalizedLines : Reading
  expandedRange : Option (Nat × Nat)
  deletes : List Text
  deletesInRange : Nat → Nat → List Text

def frameFacts (chars : Characters) (previous raw current : Lines) : FrameFacts where
  rawLines := raw.reading
  finalizedLines := current.reading
  expandedRange := expandChangedRangeForKittyImages chars previous (changedLineRange previous current)
  deletes := kittyDeleteSequences chars previous
  deletesInRange := kittyDeleteSequencesInRange chars previous

/-- A render result, and whether its plan is committed; a plan that replays the hidden lines renders
them before, without a commit. -/
structure Frame (I R : Type) where
  lines : RenderLines I R
  committed : Bool

/-- The facts of every frame, none where a lookup raises. -/
def RenderLoop.frames [DecidableEq I] [DecidableEq R] (chars : Characters) (hashable : R → Bool) :
    RenderLoop I R → List (Frame I R) → Option (List FrameFacts)
  | _, [] => some []
  | r, frame :: rest =>
    (r.logicalLines chars hashable frame.lines).bind fun (raw, current, next) =>
      (RenderLoop.frames chars hashable (if frame.committed then next.commit raw current else next)
        rest).map (frameFacts chars r.previousRenderedLines raw current :: ·)

/-- The facts of every frame, of the flattened lines and without a cache. -/
def flatFrames (chars : Characters) : List Text → List (Frame I R) → List FrameFacts
  | _, [] => []
  | previous, frame :: rest =>
    let finalized := frame.lines.flatten.map finalizeRenderedLine
    frameFacts chars (.flat previous) (.flat frame.lines.flatten) (.flat finalized) ::
      flatFrames chars (if frame.committed then finalized else previous) rest

end Loushang.Tui
