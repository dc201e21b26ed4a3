import Loushang.Lib.ParentWalk
import Mathlib.Logic.Relation
import Loushang.Lib.Lists

/-!
# Cycles of parent links

A walk that meets its own path has found a cycle. Cutting one link of each cycle that is found, until
none is, takes exactly one link of every cycle and leaves all other links alone.
-/
namespace Loushang.Lib

section

variable {α : Type} {parent parent' : α → Option α} {a b c : α}

/-- `b` is reached from `a` by following parents. -/
def Above (parent : α → Option α) : α → α → Prop := Relation.ReflTransGen fun a b => parent a = some b

/-- A node above itself. -/
def OnCycle (parent : α → Option α) (a : α) : Prop := ∃ b, parent a = some b ∧ Above parent b a

theorem OnCycle.above (cycle : OnCycle parent a) (above : Above parent a b) : Above parent b a := by
  induction above with
  | refl => exact .refl
  | @tail b c _ link ih =>
    rcases Relation.ReflTransGen.cases_head ih with rfl | ⟨next, link', rest⟩
    · obtain ⟨next, link', rest⟩ := cycle
      rw [link] at link'
      cases link'
      exact rest
    · rw [link] at link'
      cases link'
      exact rest

theorem OnCycle.of_above (cycle : OnCycle parent a) (above : Above parent a b) : OnCycle parent b := by
  rcases Relation.ReflTransGen.cases_head (cycle.above above) with rfl | ⟨next, link, rest⟩
  · exact cycle
  · exact ⟨next, link, rest.trans above⟩

variable {line : List α}

theorem Lineage.mem_of_above (lineage : Lineage parent a line) (above : Above parent a b) : b ∈ line := by
  induction above using Relation.ReflTransGen.head_induction_on generalizing line with
  | refl => exact lineage.self_mem
  | head link _ ih =>
    cases lineage with
    | root none => cases none.symm.trans link
    | child link' above =>
      rw [link] at link'
      cases link'
      exact List.mem_append_left _ (ih above)

theorem Lineage.mem_iff (lineage : Lineage parent a line) : b ∈ line ↔ Above parent a b := by
  refine ⟨fun member => ?_, lineage.mem_of_above⟩
  induction lineage with
  | root none =>
    obtain rfl := List.mem_singleton.mp member
    exact .refl
  | child link above ih =>
    rcases List.mem_append.mp member with member | only
    · exact .head link (ih member)
    · obtain rfl := List.mem_singleton.mp only
      exact .refl

/-- A line ends at a root, a cycle does not. -/
theorem Lineage.not_onCycle (lineage : Lineage parent a line) : ¬ OnCycle parent a := by
  rintro ⟨b, link, above⟩
  have distinct := lineage.nodup
  cases lineage with
  | root none => cases none.symm.trans link
  | child link' line =>
    rw [link] at link'
    cases link'
    exact (List.nodup_append.mp distinct).2.2 a (line.mem_of_above above) a (List.mem_singleton.mpr rfl) rfl

theorem Above.mono (fewer : ∀ a b, parent' a = some b → parent a = some b) (above : Above parent' a b) :
    Above parent a b := above.lift id fewer

/-- Links that agree on the way lead the same way. -/
theorem Above.congr (above : Above parent a b) (same : ∀ c, Above parent a c → parent' c = parent c) :
    Above parent' a b := by
  induction above using Relation.ReflTransGen.head_induction_on with
  | refl => exact .refl
  | head link _ ih =>
    exact .head ((same _ .refl).trans link) (ih fun c above => same c (.head link above))

/-! ## Cuts -/

section

variable [DecidableEq α] {cut : List α}

/-- The links without those of the cut nodes. -/
def cutAt (parent : α → Option α) (cut : List α) (a : α) : Option α := if a ∈ cut then none else parent a

theorem cutAt_eq_some : cutAt parent cut a = some b ↔ a ∉ cut ∧ parent a = some b := by
  unfold cutAt
  split
  · next member => exact ⟨nofun, fun kept => absurd member kept.1⟩
  · next free => exact ⟨fun link => ⟨free, link⟩, And.right⟩

theorem cutAt_append (cut : List α) (a c : α) :
    cutAt parent (cut ++ [c]) a = if a = c then none else cutAt parent cut a := by
  unfold cutAt
  by_cases here : a = c
  · simp [here]
  · simp [here]

/-- The cut nodes: each on a cycle, no two on one. -/
structure Cuts (parent : α → Option α) (cut : List α) : Prop where
  nodup : cut.Nodup
  onCycle : ∀ c ∈ cut, OnCycle parent c
  apart : ∀ c ∈ cut, ∀ d ∈ cut, Above parent c d → c = d

omit [DecidableEq α] in
theorem cuts_nil : Cuts parent [] := ⟨.nil, nofun, nofun⟩

theorem OnCycle.of_cutAt (cycle : OnCycle (cutAt parent cut) a) : OnCycle parent a := by
  obtain ⟨b, link, above⟩ := cycle
  exact ⟨b, (cutAt_eq_some.mp link).2, above.mono fun _ _ link => (cutAt_eq_some.mp link).2⟩

/-- A cycle that is left has no cut node on it. -/
theorem OnCycle.uncut (cycle : OnCycle (cutAt parent cut) a) (above : Above parent a b) : b ∉ cut := by
  have left : Above (cutAt parent cut) a b := by
    induction above with
    | refl => exact .refl
    | @tail b c _ link ih =>
      obtain ⟨next, link', -⟩ := cycle.of_above ih
      have same : next = c := Option.some.inj ((cutAt_eq_some.mp link').2.symm.trans link)
      exact ih.tail (same ▸ link')
  obtain ⟨next, link, -⟩ := cycle.of_above left
  exact (cutAt_eq_some.mp link).1

/-- Cutting a cycle that is left. -/
theorem Cuts.push (cuts : Cuts parent cut) (cycle : OnCycle (cutAt parent cut) c) : Cuts parent (cut ++ [c]) := by
  have whole := cycle.of_cutAt
  refine ⟨?_, ?_, ?_⟩
  · refine nodup_snoc cuts.nodup ?_
    intro member
    exact cycle.uncut .refl member
  · exact forall_mem_snoc cuts.onCycle whole
  · intro d member e member' above
    rcases List.mem_append.mp member with earlier | last
    · rcases List.mem_append.mp member' with earlier' | last'
      · exact cuts.apart d earlier e earlier' above
      · rw [List.mem_singleton.mp last'] at above
        exact absurd earlier (cycle.uncut ((cuts.onCycle d earlier).above above))
    · rw [List.mem_singleton.mp last] at above ⊢
      rcases List.mem_append.mp member' with earlier' | last'
      · exact absurd earlier' (cycle.uncut above)
      · exact (List.mem_singleton.mp last').symm

/-- Once no cycle is left, every cycle has its cut. -/
theorem Cuts.complete (cuts : Cuts parent cut) (acyclic : ∀ a, ¬ OnCycle (cutAt parent cut) a)
    (cycle : OnCycle parent a) : ∃ c, (c ∈ cut ∧ Above parent a c) ∧ ∀ d, d ∈ cut ∧ Above parent a d → d = c := by
  by_cases found : ∃ c ∈ cut, Above parent a c
  · obtain ⟨c, member, above⟩ := found
    refine ⟨c, ⟨member, above⟩, fun d other => ?_⟩
    exact cuts.apart d other.1 c member ((cycle.above other.2).trans above)
  · obtain ⟨b, link, above⟩ := cycle
    have free : ∀ c, Above parent a c → cutAt parent cut c = parent c := fun c above =>
      if_neg fun member => found ⟨c, member, above⟩
    refine absurd ⟨b, (free a .refl).trans link, ?_⟩ (acyclic a)
    exact above.congr fun c later => free c (.head link later)

/-! ## The search finds cycles -/

/-- A path of links, and where it leads on to. -/
inductive Walked (parent : α → Option α) : List α → Option α → Prop where
  | start (current : Option α) : Walked parent [] current
  | step {path : List α} {a : α} (walked : Walked parent path (some a)) : Walked parent (path ++ [a]) (parent a)

variable {path : List α} {current : Option α}

omit [DecidableEq α] in
theorem Walked.onward (walked : Walked parent path current) {a b : α} (member : a ∈ path)
    (isCurrent : current = some b) : ∃ c, parent a = some c ∧ Above parent c b := by
  induction walked generalizing b with
  | start current => cases member
  | @step path last walked ih =>
    rcases List.mem_append.mp member with earlier | only
    · obtain ⟨c, link, above⟩ := ih earlier rfl
      exact ⟨c, link, above.tail isCurrent⟩
    · rw [List.mem_singleton.mp only]
      exact ⟨b, isCurrent, .refl⟩

variable {visited : List α} {cycle : List α}

theorem walk_cycle {fuel : Nat} (walked : Walked parent path current)
    (ended : walk parent visited fuel path current = .inl cycle) :
    ∃ c rest, cycle = c :: rest ∧ OnCycle parent c := by
  induction fuel generalizing path current with
  | zero =>
    cases current with
    | none => cases ended
    | some current => cases ended
  | succ fuel ih =>
    cases current with
    | none => cases ended
    | some current =>
      rw [walk] at ended
      split at ended
      · cases ended
      · split at ended
        · next met =>
          cases ended
          have inside := List.idxOf_lt_length_of_mem met
          refine ⟨current, path.drop (path.idxOf current + 1), ?_, walked.onward met rfl⟩
          rw [List.drop_eq_getElem_cons inside, List.getElem_idxOf]
        · exact ih (.step walked) ended

variable {order : List α}

theorem scan_cycle {fuel : Nat} (ended : scan parent fuel visited order = .inl cycle) :
    ∃ c rest, cycle = c :: rest ∧ OnCycle parent c := by
  induction order generalizing visited with
  | nil => cases ended
  | cons start rest ih =>
    rw [scan] at ended
    split at ended
    · exact ih ended
    · cases walked : walk parent visited fuel [] (some start) with
      | inl found =>
        rw [walked] at ended
        cases ended
        exact walk_cycle (.start _) walked
      | inr path =>
        rw [walked] at ended
        exact ih ended

theorem findCycle_onCycle (found : findCycle order parent = some cycle) :
    ∃ c rest, cycle = c :: rest ∧ OnCycle parent c := by
  unfold findCycle at found
  cases ended : scan parent (order.length + 1) [] order with
  | inl met =>
    rw [ended] at found
    cases found
    exact scan_cycle ended
  | inr visited =>
    rw [ended] at found
    cases found

/-- The nodes that have a parent. -/
def linkCount (order : List α) (parent : α → Option α) : Nat := order.countP fun a => (parent a).isSome

theorem linkCount_cut (member : c ∈ order) (linked : parent c ≠ none) :
    linkCount order (fun a => if a = c then none else parent a) < linkCount order parent := by
  unfold linkCount
  induction order with
  | nil => cases member
  | cons first rest ih =>
    have fewer : rest.countP (fun a => (if a = c then none else parent a).isSome) ≤
        rest.countP fun a => (parent a).isSome := by
      refine List.countP_mono_left fun a _ kept => ?_
      split at kept
      · cases kept
      · exact kept
    rw [List.countP_cons, List.countP_cons]
    by_cases here : first = c
    · have isLinked : (parent first).isSome = true := by
        rw [here]
        exact Option.isSome_iff_ne_none.mpr linked
      simp only [if_pos here, if_pos isLinked, Option.isSome_none, Bool.false_eq_true, if_false]
      omega
    · have later := ih ((List.mem_cons.mp member).resolve_left fun same => here same.symm)
      dsimp only at later
      simp only [if_neg here]
      omega

end

end

end Loushang.Lib
