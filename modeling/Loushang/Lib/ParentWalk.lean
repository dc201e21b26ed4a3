import Mathlib.Data.List.Nodup
import Mathlib.Data.List.Perm.Subperm
import Loushang.Lib.Lists

/-!
# Walking up parent links

Cycle search by walking up from every node and stopping at nodes walked before, and
the line of ancestors such a search establishes. Links that only lead from new nodes
to old ones allow the search to look at the new nodes alone.
-/
namespace Loushang.Lib

section

variable {α : Type} (parent : α → Option α)

/-- The line from a root down to a node. -/
inductive Lineage : α → List α → Prop where
  | root {a : α} (none : parent a = none) : Lineage a [a]
  | child {a b : α} {line : List α} (link : parent a = some b) (above : Lineage b line) :
      Lineage a (line ++ [a])

variable {parent}

variable {a : α} {line : List α}

theorem Lineage.unique {line' : List α} (one : Lineage parent a line) (other : Lineage parent a line') :
    line = line' := by
  induction one generalizing line' with
  | root none =>
    cases other with
    | root => rfl
    | child link => cases none.symm.trans link
  | child link above ih =>
    cases other with
    | root none => cases none.symm.trans link
    | child link' above' =>
      cases Option.some.inj (link.symm.trans link')
      rw [ih above']

theorem Lineage.self_mem (lineage : Lineage parent a line) : a ∈ line := by
  cases lineage <;> simp

/-- Every node of a line has a line of its own, no longer than it. -/
theorem Lineage.of_mem {b : α} (lineage : Lineage parent a line) (member : b ∈ line) :
    ∃ above, Lineage parent b above ∧ above.length ≤ line.length := by
  induction lineage with
  | @root a none =>
    obtain rfl := List.mem_singleton.mp member
    exact ⟨_, .root none, Nat.le_refl _⟩
  | @child a _ line link above ih =>
    rcases List.mem_append.mp member with member | only
    · obtain ⟨before, lineage', shorter⟩ := ih member
      refine ⟨before, lineage', ?_⟩
      rw [List.length_append]
      omega
    · obtain rfl := List.mem_singleton.mp only
      exact ⟨_, .child link above, Nat.le_refl _⟩

theorem Lineage.nodup (lineage : Lineage parent a line) : line.Nodup := by
  induction lineage with
  | root => exact List.nodup_singleton _
  | @child a _ line link above ih =>
    refine List.nodup_append.mpr ⟨ih, List.nodup_singleton _, ?_⟩
    rintro b member c only rfl
    obtain rfl := List.mem_singleton.mp only
    obtain ⟨before, lineage', shorter⟩ := above.of_mem member
    rw [lineage'.unique (.child link above), List.length_append, List.length_singleton] at shorter
    omega

theorem Lineage.of_prefix {front : List α} {b : α} (lineage : Lineage parent a line)
    (part : front <+: line) (last : front.getLast? = some b) : Lineage parent b front := by
  induction lineage with
  | @root a none =>
    rcases List.prefix_concat_iff.mp (show front <+: [] ++ [a] from part) with rfl | part
    · cases last
      exact .root none
    · rw [List.prefix_nil.mp part] at last
      cases last
  | child link above ih =>
    rcases List.prefix_concat_iff.mp part with rfl | part
    · rw [List.getLast?_concat] at last
      cases last
      exact .child link above
    · exact ih part

/-- The longest common front of two lines are their common nodes. -/
theorem Lineage.mem_front {a' b : α} {line' front : List α} (lineage : Lineage parent a line)
    (lineage' : Lineage parent a' line') (part : front <+: line) (part' : front <+: line')
    (longest : ∀ other, other <+: line → other <+: line' → other <+: front) :
    b ∈ front ↔ b ∈ line ∧ b ∈ line' := by
  refine ⟨fun member => ⟨part.subset member, part'.subset member⟩, fun ⟨member, member'⟩ => ?_⟩
  obtain ⟨above, below, split⟩ := List.append_of_mem member
  obtain ⟨above', below', split'⟩ := List.append_of_mem member'
  have start : above ++ [b] <+: line := ⟨below, by simp [split]⟩
  have start' : above' ++ [b] <+: line' := ⟨below', by simp [split']⟩
  have same := (lineage.of_prefix start List.getLast?_concat).unique
    (lineage'.of_prefix start' List.getLast?_concat)
  exact (longest _ start (same ▸ start')).subset (by simp)

theorem Lineage.subset {nodes : List α} (closed : ∀ a ∈ nodes, ∀ b, parent a = some b → b ∈ nodes)
    (lineage : Lineage parent a line) (member : a ∈ nodes) : line ⊆ nodes := by
  induction lineage with
  | root => simpa using member
  | @child a b line link above ih =>
    have higher := ih (closed a member b link)
    simpa [List.append_subset] using And.intro higher member

theorem Lineage.congr {parent' : α → Option α} (lineage : Lineage parent a line)
    (same : ∀ b ∈ line, parent' b = parent b) : Lineage parent' a line := by
  induction lineage with
  | root none => exact .root ((same _ List.mem_cons_self).trans none)
  | child link above ih =>
    refine .child ((same _ (by simp)).trans link) (ih fun b member => ?_)
    exact same b (List.mem_append_left _ member)

/-- The parents of these nodes are among them. -/
def Closing (parent : α → Option α) (nodes : List α) : Prop :=
  ∀ a ∈ nodes, ∀ b, parent a = some b → b ∈ nodes

/-- A walk inside `nodes` that has enough steps left. -/
structure Room (nodes : List α) (fuel : Nat) (path : List α) (current : Option α) : Prop where
  nodup : path.Nodup
  inside : path ⊆ nodes
  current : ∀ a, current = some a → a ∈ nodes
  enough : nodes.length < fuel + path.length

variable {nodes : List α}

theorem Room.positive {path : List α} {current : Option α} (room : Room nodes 0 path current) : False := by
  have short := (List.subperm_of_subset room.nodup room.inside).length_le
  have enough := room.enough
  omega

theorem Room.step (closing : Closing parent nodes) {fuel : Nat} {path : List α} {current : α}
    (room : Room nodes (fuel + 1) path (some current)) (new : current ∉ path) :
    Room nodes fuel (path ++ [current]) (parent current) where
  nodup := List.nodup_append.mpr ⟨room.nodup, List.nodup_singleton _, by
    rintro a member b only rfl
    exact new (List.mem_singleton.mp only ▸ member)⟩
  inside := by
    exact forall_mem_snoc (fun _ member => room.inside member) (room.current current rfl)
  current := closing current (room.current current rfl)
  enough := by
    have enough := room.enough
    rw [List.length_append, List.length_singleton]
    omega

theorem Room.start {fuel : Nat} {start : α} (member : start ∈ nodes) (enough : nodes.length < fuel) :
    Room nodes fuel [] (some start) where
  nodup := List.nodup_nil
  inside := List.nil_subset _
  current := by
    rintro a ⟨⟩
    exact member
  enough := enough

end

section

variable {α : Type} [DecidableEq α]

/-- One walk: the cycle it runs into, or the nodes it passed. -/
def walk (parent : α → Option α) (visited : List α) : Nat → List α → Option α → List α ⊕ List α
  | _, path, none => .inr path
  | 0, path, some _ => .inr path
  | fuel + 1, path, some current =>
    if current ∈ visited then .inr path
    else if current ∈ path then .inl (path.drop (path.idxOf current))
    else walk parent visited fuel (path ++ [current]) (parent current)

/-- Walks from every node of `order`; ends with the first cycle or all visited nodes. -/
def scan (parent : α → Option α) (fuel : Nat) : List α → List α → List α ⊕ List α
  | visited, [] => .inr visited
  | visited, start :: rest =>
    if start ∈ visited then scan parent fuel visited rest
    else match walk parent visited fuel [] (some start) with
      | .inl cycle => .inl cycle
      | .inr path => scan parent fuel (visited ++ path) rest

/-- A walk passes no node twice, so as many steps as there are nodes are enough. -/
def findCycle (order : List α) (parent : α → Option α) : Option (List α) :=
  (scan parent (order.length + 1) [] order).getLeft?

variable {parent : α → Option α} {nodes : List α}

variable {fuel : Nat} {path : List α} {current : Option α}

/-- With room, more steps change nothing. -/
theorem walk_fuel (closing : Closing parent nodes) (visited : List α) (more : Nat)
    (room : Room nodes fuel path current) :
    walk parent visited (fuel + more) path current = walk parent visited fuel path current := by
  induction fuel generalizing path current with
  | zero => exact room.positive.elim
  | succ fuel ih =>
    cases current with
    | none =>
      rw [Nat.succ_add]
      rfl
    | some current =>
      rw [Nat.succ_add, walk, walk]
      split
      · rfl
      · split
        · rfl
        · next new => exact ih (room.step closing new)

variable {parent' : α → Option α}

theorem walk_congr (closing : Closing parent nodes) (same : ∀ a ∈ nodes, parent' a = parent a)
    (visited : List α) (fuel : Nat) (inside : ∀ a, current = some a → a ∈ nodes) :
    walk parent' visited fuel path current = walk parent visited fuel path current := by
  induction fuel generalizing path current with
  | zero => cases current <;> rfl
  | succ fuel ih =>
    cases current with
    | none => rfl
    | some current =>
      have here := inside current rfl
      rw [walk, walk, same current here, ih (closing current here)]

variable {visited : List α}

/-- A walk passes nodes of its own only, and without a cycle they all get a line. -/
theorem walk_lineage (closing : Closing parent nodes) (known : ∀ a ∈ visited, ∃ line, Lineage parent a line)
    {path' : List α} (room : Room nodes fuel path current)
    (ended : walk parent visited fuel path current = .inr path') :
    path' ⊆ nodes ∧ (∀ a, current = some a → ∃ line, Lineage parent a line) ∧
      path ⊆ path' ∧ ∀ a ∈ path', a ∈ path ∨ ∃ line, Lineage parent a line := by
  induction fuel generalizing path current with
  | zero => exact room.positive.elim
  | succ fuel ih =>
    cases current with
    | none =>
      cases ended
      exact ⟨room.inside, by simp, List.Subset.refl _, fun a member => Or.inl member⟩
    | some current =>
      rw [walk] at ended
      split at ended
      · next seen =>
        cases ended
        refine ⟨room.inside, ?_, List.Subset.refl _, fun a member => Or.inl member⟩
        rintro a ⟨⟩
        exact known current seen
      · split at ended
        · cases ended
        · next new =>
          obtain ⟨inside, above, longer, lines⟩ := ih (room.step closing new) ended
          have line : ∃ line, Lineage parent current line := by
            cases link : parent current with
            | none => exact ⟨_, .root link⟩
            | some next =>
              obtain ⟨line, lineage⟩ := above next link
              exact ⟨_, .child link lineage⟩
          refine ⟨inside, ?_, fun a member => longer (List.mem_append_left _ member), ?_⟩
          · rintro a ⟨⟩
            exact line
          · intro a member
            rcases lines a member with before | found
            · rcases List.mem_append.mp before with before | only
              · exact Or.inl before
              · rw [List.mem_singleton.mp only]
                exact Or.inr line
            · exact Or.inr found

/-! ## The whole search -/

theorem scan_append (fuel : Nat) (visited front back : List α) :
    scan parent fuel visited (front ++ back) =
      match scan parent fuel visited front with
      | .inl cycle => .inl cycle
      | .inr visited' => scan parent fuel visited' back := by
  induction front generalizing visited with
  | nil => rfl
  | cons start rest ih =>
    rw [List.cons_append, scan, scan]
    split
    · exact ih visited
    · cases walk parent visited fuel [] (some start) with
      | inl cycle => rfl
      | inr path => exact ih (visited ++ path)

variable {order : List α}

theorem scan_fuel (closing : Closing parent nodes) (enough : nodes.length < fuel) (more : Nat)
    (visited : List α) (inside : order ⊆ nodes) :
    scan parent (fuel + more) visited order = scan parent fuel visited order := by
  induction order generalizing visited with
  | nil => rfl
  | cons start rest ih =>
    have room := Room.start (inside List.mem_cons_self) enough
    have later := fun visited => ih visited fun a member => inside (List.mem_cons_of_mem _ member)
    rw [scan, scan, walk_fuel closing visited more room, later]
    split
    · rfl
    · cases walk parent visited fuel [] (some start) with
      | inl cycle => rfl
      | inr path => exact later _

theorem scan_congr (closing : Closing parent nodes) (same : ∀ a ∈ nodes, parent' a = parent a) (fuel : Nat)
    (visited : List α) (inside : order ⊆ nodes) :
    scan parent' fuel visited order = scan parent fuel visited order := by
  induction order generalizing visited with
  | nil => rfl
  | cons start rest ih =>
    have here : ∀ a, some start = some a → a ∈ nodes := by
      rintro a ⟨⟩
      exact inside List.mem_cons_self
    have later := fun visited => ih visited fun a member => inside (List.mem_cons_of_mem _ member)
    rw [scan, scan, walk_congr closing same visited fuel here, later]
    split
    · rfl
    · cases walk parent visited fuel [] (some start) with
      | inl cycle => rfl
      | inr path => exact later _

/-- Without a cycle every visited node has a line, and every node of `order` is visited. -/
theorem scan_lineage (closing : Closing parent nodes) (enough : nodes.length < fuel) {visited' : List α}
    (inside : order ⊆ nodes) (known : visited ⊆ nodes) (lines : ∀ a ∈ visited, ∃ line, Lineage parent a line)
    (ended : scan parent fuel visited order = .inr visited') :
    visited' ⊆ nodes ∧ (∀ a ∈ visited', ∃ line, Lineage parent a line) ∧
      visited ⊆ visited' ∧ order ⊆ visited' := by
  induction order generalizing visited with
  | nil =>
    cases ended
    exact ⟨known, lines, List.Subset.refl _, List.nil_subset _⟩
  | cons start rest ih =>
    have inside' : rest ⊆ nodes := fun a member => inside (List.mem_cons_of_mem _ member)
    rw [scan] at ended
    split at ended
    · next seen =>
      obtain ⟨bounded, found, longer, covered⟩ := ih inside' known lines ended
      exact ⟨bounded, found, longer, List.cons_subset.mpr ⟨longer seen, covered⟩⟩
    · next new =>
      cases walked : walk parent visited fuel [] (some start) with
      | inl cycle =>
        rw [walked] at ended
        cases ended
      | inr path =>
        rw [walked] at ended
        have room := Room.start (inside List.mem_cons_self) enough
        obtain ⟨passed, _, _, fresh⟩ := walk_lineage closing lines room walked
        have bounded : visited ++ path ⊆ nodes := List.append_subset.mpr ⟨known, passed⟩
        have found : ∀ a ∈ visited ++ path, ∃ line, Lineage parent a line := by
          exact List.forall_mem_append.mpr
            ⟨lines, fun a member => (fresh a member).resolve_left List.not_mem_nil⟩
        obtain ⟨bounded', found', longer, covered⟩ := ih inside' bounded found ended
        have started : start ∈ path := by
          cases fuel with
          | zero => omega
          | succ fuel =>
            rw [walk, if_neg new, if_neg List.not_mem_nil] at walked
            have onward := room.step closing List.not_mem_nil
            exact (walk_lineage closing lines onward walked).2.2.1 (by simp)
        refine ⟨bounded', found', fun a member => longer (List.mem_append_left _ member), ?_⟩
        exact List.cons_subset.mpr ⟨longer (List.mem_append_right _ started), covered⟩

/-- No cycle found: every node has its line. -/
theorem lineage_of_findCycle (closing : Closing parent order) (acyclic : findCycle order parent = none)
    {a : α} (member : a ∈ order) : ∃ line, Lineage parent a line := by
  unfold findCycle at acyclic
  cases ended : scan parent (order.length + 1) [] order with
  | inl cycle =>
    rw [ended] at acyclic
    cases acyclic
  | inr visited =>
    obtain ⟨_, lines, _, covered⟩ := scan_lineage closing (Nat.lt_succ_self _) (List.Subset.refl _)
      (List.nil_subset _) (by simp) ended
    exact lines a (covered member)

theorem findCycle_congr (closing : Closing parent order) (same : ∀ a ∈ order, parent' a = parent a) :
    findCycle order parent' = findCycle order parent := by
  unfold findCycle
  rw [scan_congr closing same _ _ (List.Subset.refl _)]

/-! ## Searching the new nodes alone -/

section

variable {front back : List α}

/-- The links between new nodes. -/
def within (back : List α) (parent : α → Option α) (a : α) : Option α :=
  (parent a).filter (· ∈ back)

theorem closing_within : Closing (within back parent) back := by
  intro a _ b link
  exact of_decide_eq_true (Option.filter_eq_some_iff.mp link).2

variable {visited visited' : List α}

/-- A walk over new nodes ends at an old node where the restricted one runs out of links. -/
theorem walk_within (closing : ∀ a ∈ back, ∀ b, parent a = some b → b ∈ front ++ back)
    (old : ∀ a ∈ front, a ∈ visited) (new : ∀ a ∈ back, a ∈ visited ↔ a ∈ visited') (fuel : Nat)
    {path : List α} {current : Option α} (inside : ∀ a, current = some a → a ∈ front ++ back) :
    walk parent visited fuel path current =
      walk (within back parent) visited' fuel path (current.filter (· ∈ back)) := by
  induction fuel generalizing path current with
  | zero =>
    cases current with
    | none => rfl
    | some current => cases Option.filter (· ∈ back) (some current) <;> rfl
  | succ fuel ih =>
    cases current with
    | none => rfl
    | some current =>
      by_cases recent : current ∈ back
      · have next := @ih (path ++ [current]) (parent current) (closing current recent)
        rw [walk, Option.filter_some_pos (by simpa using recent), walk, next]
        simp only [new current recent]
        rfl
      · have seen := old current
          ((List.mem_append.mp (inside current rfl)).resolve_right recent)
        rw [walk, if_pos seen, Option.filter_some_neg (by simpa using recent)]
        rfl

theorem scan_within (closing : ∀ a ∈ back, ∀ b, parent a = some b → b ∈ front ++ back) {order : List α}
    (inside : order ⊆ back) (old : ∀ a ∈ front, a ∈ visited) (new : ∀ a ∈ back, a ∈ visited ↔ a ∈ visited')
    (fuel : Nat) :
    (scan parent fuel visited order).getLeft? =
      (scan (within back parent) fuel visited' order).getLeft? := by
  induction order generalizing visited visited' with
  | nil => rfl
  | cons start rest ih =>
    have here := inside List.mem_cons_self
    have inside' : rest ⊆ back := fun a member => inside (List.mem_cons_of_mem _ member)
    have same : walk parent visited fuel [] (some start) =
        walk (within back parent) visited' fuel [] ((some start).filter (· ∈ back)) :=
      walk_within closing old new fuel (by
        rintro a ⟨⟩
        exact List.mem_append_right _ here)
    rw [Option.filter_some_pos (by simpa using here)] at same
    rw [scan, scan, same]
    simp only [new start here]
    split
    · exact ih inside' old new
    · cases walk (within back parent) visited' fuel [] (some start) with
      | inl cycle => rfl
      | inr path =>
        refine ih inside' (fun a member => List.mem_append_left _ (old a member)) ?_
        intro a member
        rw [List.mem_append, List.mem_append, new a member]

/-- Old nodes without a cycle need not be searched again. -/
theorem findCycle_append (closingFront : Closing parent front)
    (acyclic : findCycle front parent = none)
    (closing : ∀ a ∈ back, ∀ b, parent a = some b → b ∈ front ++ back)
    (apart : ∀ a ∈ back, a ∉ front) :
    findCycle (front ++ back) parent = findCycle back (within back parent) := by
  unfold findCycle at acyclic ⊢
  have frontFuel : scan parent ((front ++ back).length + 1) [] front =
      scan parent (front.length + 1) [] front := by
    rw [List.length_append, Nat.add_right_comm]
    exact scan_fuel closingFront (Nat.lt_succ_self _) _ _ (List.Subset.refl _)
  have backFuel : scan (within back parent) ((front ++ back).length + 1) [] back =
      scan (within back parent) (back.length + 1) [] back := by
    rw [List.length_append, Nat.add_comm front.length, Nat.add_right_comm]
    exact scan_fuel closing_within (Nat.lt_succ_self _) _ _ (List.Subset.refl _)
  rw [scan_append, frontFuel]
  cases ended : scan parent (front.length + 1) [] front with
  | inl cycle =>
    rw [ended] at acyclic
    cases acyclic
  | inr visited =>
    obtain ⟨bounded, _, _, covered⟩ := scan_lineage closingFront (Nat.lt_succ_self _)
      (List.Subset.refl _) (List.nil_subset _) (by simp) ended
    rw [← backFuel]
    refine scan_within closing (List.Subset.refl _) covered ?_ _
    intro a member
    simpa using fun seen => apart a member (bounded seen)

end

end

end Loushang.Lib
