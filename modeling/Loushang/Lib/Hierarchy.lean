import Mathlib.Data.List.Induction
import Mathlib.Data.List.Nodup

/-!
# Walks over a hierarchy of parents

Three parents-first walks: along every path (`walk`), along every path but never twice
into the path being walked (`pathWalk`), and into every node once (`visitOnce`). Over an
acyclic hierarchy the second is the first, and the third keeps its first visits.
-/
namespace Loushang.Lib.Hierarchy

variable {V : Type}

section Walks
variable (parents : V → List V)

/-- A list of nodes, each new and after all its parents: the hierarchy below it is acyclic. -/
inductive ParentsFirst : List V → Prop
  | nil : ParentsFirst []
  | snoc {order : List V} {node : V} : ParentsFirst order → node ∉ order →
      (∀ parent ∈ parents node, parent ∈ order) → ParentsFirst (order ++ [node])

/-- Parents first, once for each path to a node. -/
def walk : Nat → V → List V
  | 0, _ => []
  | depth + 1, node => (parents node).flatMap (walk depth) ++ [node]

theorem self_mem_walk {depth : Nat} {node : V} (positive : 0 < depth) :
    node ∈ walk parents depth node := by
  cases depth with
  | zero => omega
  | succ depth => exact List.mem_append_right _ (List.mem_singleton.mpr rfl)

variable [DecidableEq V]

/-- `walk`, with nothing for a node of the current path. -/
def pathWalk : Nat → List V → V → List V
  | 0, _, _ => []
  | depth + 1, visiting, node =>
    if node ∈ visiting then []
    else (parents node).flatMap (pathWalk depth (node :: visiting)) ++ [node]

/-- Depth first, into each node once: the nodes entered, and those left in order. -/
def visitOnce : Nat → List V × List V → V → List V × List V
  | 0, state, _ => state
  | depth + 1, state, node =>
    if node ∈ state.1 then state
    else
      let above := (parents node).foldl (visitOnce depth) (node :: state.1, state.2)
      (above.1, above.2 ++ [node])

end Walks

section FirstVisits
variable [DecidableEq V]

def note (order : List V) (node : V) : List V := if node ∈ order then order else order ++ [node]

/-- The first visit of every node, after those already in `order`. -/
def firstVisits (order visits : List V) : List V := visits.foldl note order

@[simp] theorem firstVisits_nil (order : List V) : firstVisits order [] = order := rfl

theorem firstVisits_append (order front back : List V) :
    firstVisits order (front ++ back) = firstVisits (firstVisits order front) back :=
  List.foldl_append

theorem firstVisits_concat (order visits : List V) (node : V) :
    firstVisits order (visits ++ [node]) = note (firstVisits order visits) node :=
  firstVisits_append order visits [node]

variable {order visits : List V}

theorem mem_firstVisits {node : V} : node ∈ firstVisits order visits ↔ node ∈ order ∨ node ∈ visits := by
  induction visits using List.reverseRecOn generalizing node with
  | nil => simp
  | append_singleton visits last ih =>
    rw [firstVisits_concat, note]
    split
    · next present =>
      rw [ih, List.mem_append, List.mem_singleton]
      rw [ih] at present
      constructor
      · intro member
        exact member.imp_right Or.inl
      · rintro (old | old | rfl)
        · exact Or.inl old
        · exact Or.inr old
        · exact present
    · rw [List.mem_append, ih, List.mem_append, or_assoc]

theorem firstVisits_of_subset (known : ∀ node ∈ visits, node ∈ order) : firstVisits order visits = order := by
  induction visits with
  | nil => rfl
  | cons node rest ih =>
    have here : note order node = order := if_pos (known node List.mem_cons_self)
    change firstVisits (note order node) rest = order
    rw [here]
    exact ih fun node member => known node (List.mem_cons_of_mem _ member)

theorem filter_firstVisits (keep : V → Bool) (order visits : List V) :
    (firstVisits order visits).filter keep =
      firstVisits (order.filter keep) (visits.filter keep) := by
  induction visits using List.reverseRecOn with
  | nil => rfl
  | append_singleton visits last ih =>
    rw [firstVisits_concat, List.filter_append]
    cases kept : keep last with
    | false =>
      have dropped : [last].filter keep = [] := by simp [kept]
      rw [dropped, List.append_nil, ← ih, note]
      split
      · rfl
      · rw [List.filter_append, dropped, List.append_nil]
    | true =>
      have stays : [last].filter keep = [last] := by simp [kept]
      rw [stays, firstVisits_concat, ← ih, note, note]
      by_cases present : last ∈ firstVisits order visits
      · rw [if_pos present, if_pos (List.mem_filter.mpr ⟨present, kept⟩)]
      · rw [if_neg present, if_neg fun member => present (List.mem_filter.mp member).1,
          List.filter_append, stays]

/-- First visits are ordered by the place of the first occurrence. -/
theorem pairwise_firstVisits (visits : List V) :
    (firstVisits [] visits).Pairwise (visits.idxOf · < visits.idxOf ·) := by
  induction visits using List.reverseRecOn with
  | nil => exact List.Pairwise.nil
  | append_singleton visits last ih =>
    have inside : ∀ node ∈ firstVisits [] visits, node ∈ visits := fun node member =>
      (mem_firstVisits.mp member).resolve_left List.not_mem_nil
    have kept : (firstVisits [] visits).Pairwise
        ((visits ++ [last]).idxOf · < (visits ++ [last]).idxOf ·) := by
      refine ih.imp_of_mem fun {a b} first second earlier => ?_
      rwa [List.idxOf_append_of_mem (inside a first), List.idxOf_append_of_mem (inside b second)]
    rw [firstVisits_concat, note]
    split
    · exact kept
    · next absent =>
      have fresh : last ∉ visits := fun member => absent (mem_firstVisits.mpr (Or.inr member))
      refine List.pairwise_append.mpr ⟨kept, List.pairwise_singleton _ _, ?_⟩
      intro node member only same
      rw [List.mem_singleton] at same
      subst same
      rw [List.idxOf_append_of_mem (inside node member), List.idxOf_append_of_notMem fresh]
      exact Nat.lt_add_right _ (List.idxOf_lt_length_of_mem (inside node member))

/-- The node visited last is also the one first visited last. -/
def Settled (visits : List V) : Prop :=
  ∀ last ∈ visits.getLast?, ∀ node ∈ visits, visits.idxOf node ≤ visits.idxOf last

instance (visits : List V) : Decidable (Settled visits) :=
  inferInstanceAs (Decidable (∀ last ∈ visits.getLast?,
    ∀ node ∈ visits, visits.idxOf node ≤ visits.idxOf last))

theorem settled_iff (visits : List V) :
    Settled visits ↔ (firstVisits [] visits).getLast? = visits.getLast? := by
  have listed : ∀ {node}, node ∈ firstVisits [] visits ↔ node ∈ visits := by
    intro node
    rw [mem_firstVisits]
    simp
  cases final : visits.getLast? with
  | none =>
    rw [List.getLast?_eq_none_iff] at final
    subst final
    simp [Settled]
  | some last =>
    have member := List.mem_of_getLast? final
    have ordered := pairwise_firstVisits visits
    cases found : (firstVisits [] visits).getLast? with
    | none =>
      rw [List.getLast?_eq_none_iff] at found
      have present := listed.mpr member
      rw [found] at present
      exact absurd present List.not_mem_nil
    | some newest =>
      obtain ⟨front, shape⟩ := List.getLast?_eq_some_iff.mp found
      have top : ∀ node ∈ visits, visits.idxOf node ≤ visits.idxOf newest := by
        intro node present
        rw [← listed, shape, List.mem_append, List.mem_singleton] at present
        rw [shape] at ordered
        rcases present with early | rfl
        · exact Nat.le_of_lt ((List.pairwise_append.mp ordered).2.2 _ early _ (List.mem_singleton.mpr rfl))
        · exact Nat.le_refl _
      have known : newest ∈ visits := listed.mp (List.mem_of_getLast? found)
      constructor
      · intro settled
        have most := settled last (by rw [final]; rfl) newest known
        have least := top last member
        rw [(List.idxOf_inj known).mp (Nat.le_antisymm most least)]
      · intro same
        rw [Option.some.injEq] at same
        intro other present
        rw [final, Option.mem_some_iff] at present
        rw [← present, ← same]
        exact top

/-- Where nothing is visited twice, everything is settled. -/
theorem Settled.of_nodup (nodup : visits.Nodup) : Settled visits := by
  rw [settled_iff]
  have unchanged : firstVisits [] visits = visits := by
    induction visits using List.reverseRecOn with
    | nil => rfl
    | append_singleton visits last ih =>
      obtain ⟨before, _, apart⟩ := List.nodup_append.mp nodup
      have fresh : last ∉ visits := fun member => apart last member last (List.mem_singleton.mpr rfl) rfl
      rw [firstVisits_concat, ih before, note, if_neg fresh]
  rw [unchanged]

end FirstVisits

section Inherited
variable {P : Type} (own : V → Option P)

/-- What the last visited node with an own value has. -/
def inherited (visits : List V) : Option P :=
  (visits.filter fun node => (own node).isSome).getLast?.bind own

@[simp] theorem inherited_nil : inherited own [] = none := rfl

theorem inherited_concat (visits : List V) (node : V) :
    inherited own (visits ++ [node]) = (own node).or (inherited own visits) := by
  unfold inherited
  rw [List.filter_append]
  cases found : own node with
  | none => simp [found]
  | some value => simp [found]

theorem inherited_append (front back : List V) :
    inherited own (front ++ back) = (inherited own back).or (inherited own front) := by
  induction back using List.reverseRecOn with
  | nil => simp
  | append_singleton back last ih =>
    rw [← List.append_assoc, inherited_concat, inherited_concat, ih, Option.or_assoc]

variable [DecidableEq V]

/-- Where values tell their nodes apart, first visits inherit the same exactly when settled. -/
theorem inherited_firstVisits_iff {visits : List V}
    (injective : ∀ a ∈ visits, ∀ b ∈ visits, (own a).isSome → own a = own b → a = b) :
    inherited own visits = inherited own (firstVisits [] visits) ↔
      Settled (visits.filter fun node => (own node).isSome) := by
  rw [settled_iff, inherited, inherited, filter_firstVisits, List.filter_nil]
  have owners : ∀ node ∈ visits.filter (fun node => (own node).isSome),
      node ∈ visits ∧ (own node).isSome = true := fun node member => List.mem_filter.mp member
  have same : ∀ node, node ∈ firstVisits [] (visits.filter fun node => (own node).isSome) →
      node ∈ visits.filter fun node => (own node).isSome := fun node member =>
    (mem_firstVisits.mp member).resolve_left List.not_mem_nil
  constructor
  · intro equal
    cases all : (visits.filter fun node => (own node).isSome).getLast? with
    | none =>
      rw [List.getLast?_eq_none_iff] at all
      rw [all]
      rfl
    | some last =>
      obtain ⟨present, holds⟩ := owners last (List.mem_of_getLast? all)
      rw [all, Option.bind_some] at equal
      cases first : (firstVisits [] (visits.filter fun node => (own node).isSome)).getLast? with
      | none =>
        rw [first, Option.bind_none] at equal
        rw [equal] at holds
        cases holds
      | some newest =>
        rw [first, Option.bind_some] at equal
        obtain ⟨there, _⟩ := owners newest (same newest (List.mem_of_getLast? first))
        rw [injective last present newest there holds equal]
  · intro equal
    rw [equal]

end Inherited

section Acyclic
variable [DecidableEq V] {parents : V → List V} {order : List V}

omit [DecidableEq V] in
theorem ParentsFirst.nodup (sorted : ParentsFirst parents order) : order.Nodup := by
  induction sorted with
  | nil => exact List.nodup_nil
  | @snoc order last _ fresh _ ih =>
    rw [← List.concat_eq_append]
    exact List.Nodup.concat fresh ih

variable {node : V}

theorem ParentsFirst.parent_before (sorted : ParentsFirst parents order) {parent : V} (listed : node ∈ order)
    (above : parent ∈ parents node) : parent ∈ order ∧ order.idxOf parent < order.idxOf node := by
  induction sorted with
  | nil => exact absurd listed List.not_mem_nil
  | @snoc order last sorted fresh known ih =>
    rw [List.mem_append, List.mem_singleton] at listed
    rcases listed with early | rfl
    · obtain ⟨there, before⟩ := ih early
      refine ⟨List.mem_append_left _ there, ?_⟩
      rwa [List.idxOf_append_of_mem there, List.idxOf_append_of_mem early]
    · have there := known parent above
      refine ⟨List.mem_append_left _ there, ?_⟩
      rw [List.idxOf_append_of_mem there, List.idxOf_append_of_notMem fresh]
      exact Nat.lt_add_right _ (List.idxOf_lt_length_of_mem there)

variable (sorted : ParentsFirst parents order)
include sorted

variable {depth : Nat}

/-- Beyond the place of a node in the order, the depth of its walk does not matter. -/
theorem walk_stable {more : Nat} (listed : node ∈ order) (enough : order.idxOf node < depth)
    (enoughToo : order.idxOf node < more) : walk parents depth node = walk parents more node := by
  induction depth generalizing more node with
  | zero => omega
  | succ depth ih =>
    cases more with
    | zero => omega
    | succ more =>
      have same : (parents node).flatMap (walk parents depth) =
          (parents node).flatMap (walk parents more) := by
        apply List.flatMap_congr
        intro parent above
        obtain ⟨there, before⟩ := sorted.parent_before listed above
        exact ih there (by omega) (by omega)
      rw [walk, walk, same]

/-- Nothing of an acyclic hierarchy is above itself, so no path is cut. -/
theorem pathWalk_eq {visiting : List V} (listed : node ∈ order) (enough : order.idxOf node < depth)
    (below : ∀ other ∈ visiting, order.idxOf node < order.idxOf other) :
    pathWalk parents depth visiting node = walk parents depth node := by
  induction depth generalizing node visiting with
  | zero => omega
  | succ depth ih =>
    have outside : node ∉ visiting := fun member => Nat.lt_irrefl _ (below node member)
    have same : (parents node).flatMap (pathWalk parents depth (node :: visiting)) =
        (parents node).flatMap (walk parents depth) := by
      apply List.flatMap_congr
      intro parent above
      obtain ⟨there, before⟩ := sorted.parent_before listed above
      apply ih there (by omega)
      exact List.forall_mem_cons.mpr
        ⟨before, fun other member => Nat.lt_trans before (below other member)⟩
    rw [pathWalk, walk, if_neg outside, same]

theorem idxOf_le_of_mem_walk {other : V} (listed : node ∈ order) (visited : other ∈ walk parents depth node) :
    other ∈ order ∧ order.idxOf other ≤ order.idxOf node := by
  induction depth generalizing node with
  | zero => exact absurd visited List.not_mem_nil
  | succ depth ih =>
    rw [walk, List.mem_append, List.mem_flatMap, List.mem_singleton] at visited
    rcases visited with ⟨parent, above, visited⟩ | rfl
    · obtain ⟨there, before⟩ := sorted.parent_before listed above
      obtain ⟨known, place⟩ := ih there visited
      exact ⟨known, by omega⟩
    · exact ⟨listed, Nat.le_refl _⟩

/-- With each node a walk visits its parents. -/
theorem parents_mem_walk {other parent : V} (listed : node ∈ order) (enough : order.idxOf node < depth)
    (visited : other ∈ walk parents depth node) (above : parent ∈ parents other) :
    parent ∈ walk parents depth node := by
  induction depth generalizing node with
  | zero => omega
  | succ depth ih =>
    rw [walk, List.mem_append, List.mem_flatMap, List.mem_singleton] at visited
    rw [walk, List.mem_append, List.mem_flatMap]
    rcases visited with ⟨middle, near, visited⟩ | rfl
    · obtain ⟨there, before⟩ := sorted.parent_before listed near
      exact Or.inl ⟨middle, near, ih there (by omega) visited⟩
    · obtain ⟨there, before⟩ := sorted.parent_before listed above
      exact Or.inl ⟨parent, above, self_mem_walk parents (by omega)⟩

/-- A set of nodes with their parents holds the walks of its nodes. -/
def Closed (parents : V → List V) (nodes : List V) : Prop :=
  ∀ node ∈ nodes, ∀ parent ∈ parents node, parent ∈ nodes

variable {nodes : List V}

omit [DecidableEq V] sorted in
theorem Closed.walk_subset (closed : Closed parents nodes) (member : node ∈ nodes) :
    ∀ other ∈ walk parents depth node, other ∈ nodes := by
  induction depth generalizing node with
  | zero => nofun
  | succ depth ih =>
    intro other visited
    rw [walk, List.mem_append, List.mem_flatMap, List.mem_singleton] at visited
    rcases visited with ⟨parent, above, visited⟩ | rfl
    · exact ih (closed node member parent above) other visited
    · exact member

theorem Closed.firstVisits (closed : Closed parents nodes) (listed : node ∈ order)
    (enough : order.idxOf node < depth) : Closed parents (firstVisits nodes (walk parents depth node)) := by
  intro other member parent above
  rw [mem_firstVisits] at member ⊢
  rcases member with old | visited
  · exact Or.inl (closed other old parent above)
  · exact Or.inr (parents_mem_walk sorted listed enough visited above)

/-- What entering a node leaves behind: `seen` nodes are left, those of `path` still open. -/
structure Entered (parents : V → List V) (path : V → Prop) (state : List V × List V) : Prop where
  entered : ∀ node, node ∈ state.1 ↔ node ∈ state.2 ∨ path node
  closed : Closed parents state.2

/-- One visit adds the first visits of the node's walk. -/
theorem visitOnce_eq {path : V → Prop} {state : List V × List V} (listed : node ∈ order)
    (enough : order.idxOf node < depth) (below : ∀ other, path other → order.idxOf node < order.idxOf other)
    (before : Entered parents path state) :
    (visitOnce parents depth state node).2 = firstVisits state.2 (walk parents depth node) ∧
      Entered parents path (visitOnce parents depth state node) := by
  induction depth generalizing node path state with
  | zero => omega
  | succ depth ih =>
    rw [visitOnce]
    split
    · next visited =>
      -- an open node is strictly below, so the node has been left before
      have left_ : node ∈ state.2 := by
        rcases (before.entered node).mp visited with seen | opened
        · exact seen
        · exact absurd (below node opened) (Nat.lt_irrefl _)
      exact ⟨(firstVisits_of_subset (before.closed.walk_subset left_)).symm, before⟩
    · next fresh =>
      have unseen : node ∉ state.2 := fun seen => fresh ((before.entered node).mpr (Or.inl seen))
      have rise : ∀ above : List V, (∀ parent ∈ above, parent ∈ parents node) →
          ∀ state, Entered parents (fun other => other = node ∨ path other) state →
            (above.foldl (visitOnce parents depth) state).2 =
                firstVisits state.2 (above.flatMap (walk parents depth)) ∧
              Entered parents (fun other => other = node ∨ path other)
                (above.foldl (visitOnce parents depth) state) := by
        intro above
        induction above with
        | nil => exact fun _ state open_ => ⟨rfl, open_⟩
        | cons parent rest more =>
          intro inside state open_
          obtain ⟨there, earlier⟩ := sorted.parent_before listed (inside parent List.mem_cons_self)
          have lower : ∀ other, other = node ∨ path other →
              order.idxOf parent < order.idxOf other := by
            rintro other (rfl | opened)
            · exact earlier
            · exact Nat.lt_trans earlier (below other opened)
          obtain ⟨here, next_⟩ := ih there (by omega) lower open_
          obtain ⟨tail, final⟩ := more (fun p m => inside p (List.mem_cons_of_mem _ m)) _ next_
          refine ⟨?_, final⟩
          rw [List.foldl_cons, tail, here, List.flatMap_cons, firstVisits_append]
      have open_ : Entered parents (fun other => other = node ∨ path other)
          (node :: state.1, state.2) := by
        refine ⟨fun other => ?_, before.closed⟩
        rw [List.mem_cons, before.entered]
        tauto
      obtain ⟨above, final⟩ := rise (parents node) (fun _ member => member) _ open_
      have whole : note (firstVisits state.2 ((parents node).flatMap (walk parents depth))) node =
          firstVisits state.2 (walk parents (depth + 1) node) := by
        rw [walk, firstVisits_concat]
      have absent : node ∉ firstVisits state.2 ((parents node).flatMap (walk parents depth)) := by
        intro member
        rcases mem_firstVisits.mp member with seen | visited
        · exact unseen seen
        · obtain ⟨parent, near, visited⟩ := List.mem_flatMap.mp visited
          obtain ⟨there, earlier⟩ := sorted.parent_before listed near
          exact Nat.lt_irrefl _ (Nat.lt_of_le_of_lt
            (idxOf_le_of_mem_walk sorted there visited).2 earlier)
      rw [note, if_neg absent] at whole
      have result := above
      refine ⟨by simp only [result, whole], ⟨fun other => ?_, ?_⟩⟩
      · have listedBy := final.entered other
        simp only [List.mem_append, List.mem_singleton]
        rw [listedBy]
        tauto
      · simp only [result, whole]
        exact before.closed.firstVisits sorted listed enough

end Acyclic

end Loushang.Lib.Hierarchy
