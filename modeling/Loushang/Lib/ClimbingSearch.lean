import Mathlib.Data.List.Nodup
import Mathlib.Data.List.Pairwise
import Mathlib.Data.List.Perm.Subperm
import Mathlib.Data.Nat.Find
import Mathlib.Logic.Function.Iterate

/-!
# A search up a hierarchy that remembers nothing

Depth first, a node's own value before its parents' from left to right, without marking the
visited nodes. Over cycles the search may climb forever; it does so exactly along an endless
path that no value and no value to its left stops. Otherwise it ends at a depth bounded by
the number of nodes.
-/
namespace Loushang.Lib.ClimbingSearch

variable {V P : Type}

/-- The first value found from left to right; `none` when one of the visits does not end. -/
def firstOf (visit : V → Option (Option P)) : List V → Option (Option P)
  | [] => some none
  | node :: rest =>
    match visit node with
    | some none => firstOf visit rest
    | done => done

section FirstOf
variable {visit deeper : V → Option (Option P)}

variable {nodes : List V}

theorem firstOf_mono {result : Option P}
    (extends_ : ∀ node ∈ nodes, ∀ result, visit node = some result → deeper node = some result)
    (found : firstOf visit nodes = some result) : firstOf deeper nodes = some result := by
  induction nodes with
  | nil => exact found
  | cons node rest ih =>
    rw [firstOf] at found ⊢
    cases here : visit node with
    | none => rw [here] at found; cases found
    | some value =>
      rw [here] at found
      rw [extends_ node List.mem_cons_self value here]
      cases value with
      | some value => exact found
      | none => exact ih (fun other member => extends_ other (List.mem_cons_of_mem _ member)) found

theorem firstOf_eq_none (nothing : firstOf visit nodes = some none) :
    ∀ node ∈ nodes, visit node = some none := by
  induction nodes with
  | nil => exact fun _ member => absurd member List.not_mem_nil
  | cons node rest ih =>
    rw [firstOf] at nothing
    split at nothing
    · next here =>
      exact List.forall_mem_cons.mpr ⟨here, (ih nothing)⟩
    · next here =>
      exact absurd nothing here

theorem firstOf_of_none (nothing : ∀ node ∈ nodes, visit node = some none) :
    firstOf visit nodes = some none := by
  induction nodes with
  | nil => rfl
  | cons node rest ih =>
    rw [firstOf, nothing node List.mem_cons_self]
    exact ih fun other member => nothing other (List.mem_cons_of_mem _ member)

/-- A visit that does not end stops the search unless a value is found to its left. -/
theorem firstOf_stuck {before after : List V} {node : V} (stuck : visit node = none)
    (left_ : ∀ other ∈ before, visit other = none ∨ visit other = some none) :
    firstOf visit (before ++ node :: after) = none := by
  induction before with
  | nil => rw [List.nil_append, firstOf, stuck]
  | cons other rest ih =>
    rw [List.cons_append, firstOf]
    rcases left_ other List.mem_cons_self with none_ | nothing
    · rw [none_]
    · rw [nothing]
      exact ih fun node member => left_ node (List.mem_cons_of_mem _ member)

/-- Where only the deeper search ends, one of its visits needs the depth. -/
theorem firstOf_deeper
    (extends_ : ∀ node ∈ nodes, ∀ result, visit node = some result → deeper node = some result)
    (stuck : firstOf visit nodes = none) (ends : (firstOf deeper nodes).isSome) :
    ∃ node ∈ nodes, visit node = none ∧ (deeper node).isSome := by
  induction nodes with
  | nil => cases stuck
  | cons node rest ih =>
    rw [firstOf] at stuck ends
    cases here : visit node with
    | none =>
      refine ⟨node, List.mem_cons_self, here, ?_⟩
      cases there : deeper node with
      | none => rw [there] at ends; cases ends
      | some _ => rfl
    | some value =>
      rw [here] at stuck
      rw [extends_ node List.mem_cons_self value here] at ends
      cases value with
      | some _ => cases stuck
      | none =>
        obtain ⟨other, member, found⟩ :=
          ih (fun other member => extends_ other (List.mem_cons_of_mem _ member)) stuck ends
        exact ⟨other, List.mem_cons_of_mem _ member, found⟩

end FirstOf

variable (own : V → Option P) (parents : V → List V)

/-- The search to a depth; `none` when the depth is used up. -/
def climb : Nat → V → Option (Option P)
  | 0, _ => none
  | depth + 1, node =>
    match own node with
    | some value => some (some value)
    | none => firstOf (climb depth) (parents node)

/-- The search above a node ends without a value. -/
inductive Exhausted : V → Prop
  | intro {node : V} : own node = none → (∀ parent ∈ parents node, Exhausted parent) → Exhausted node

/-- An endless path of parents without a value, left of which nothing is found. -/
def Endless (node : V) : Prop :=
  ∃ path : Nat → V, path 0 = node ∧ ∀ place, own (path place) = none ∧
    ∃ before after, parents (path place) = before ++ path (place + 1) :: after ∧
      ∀ other ∈ before, Exhausted own parents other

variable {own parents}

variable {depth : Nat} {node : V}

theorem climb_mono {more : Nat} {result : Option P} (found : climb own parents depth node = some result)
    (le : depth ≤ more) : climb own parents more node = some result := by
  induction depth generalizing more node result with
  | zero => cases found
  | succ depth ih =>
    cases more with
    | zero => omega
    | succ more =>
      rw [climb] at found ⊢
      cases here : own node with
      | some value => rwa [here] at found
      | none =>
        rw [here] at found
        exact firstOf_mono (fun _ _ _ found => ih found (Nat.le_of_succ_le_succ le)) found

variable {nodes : List V}

/-- Searches that end without a value end together at one depth. -/
theorem common_depth (all : ∀ node ∈ nodes, ∃ depth, climb own parents depth node = some none) :
    ∃ depth, ∀ node ∈ nodes, climb own parents depth node = some none := by
  induction nodes with
  | nil => exact ⟨0, fun _ member => absurd member List.not_mem_nil⟩
  | cons node rest ih =>
    obtain ⟨depth, here⟩ := all node List.mem_cons_self
    obtain ⟨others, there⟩ := ih fun other member => all other (List.mem_cons_of_mem _ member)
    refine ⟨max depth others, fun other member => ?_⟩
    rcases List.mem_cons.mp member with rfl | member
    · exact climb_mono here (Nat.le_max_left _ _)
    · exact climb_mono (there other member) (Nat.le_max_right _ _)

theorem exhausted_iff : Exhausted own parents node ↔ ∃ depth, climb own parents depth node = some none := by
  constructor
  · intro exhausted
    induction exhausted with
    | @intro node nothing _ ih =>
      obtain ⟨depth, all⟩ := common_depth ih
      refine ⟨depth + 1, ?_⟩
      rw [climb, nothing]
      exact firstOf_of_none all
  · rintro ⟨depth, nothing⟩
    induction depth generalizing node with
    | zero => cases nothing
    | succ depth ih =>
      rw [climb] at nothing
      cases here : own node with
      | some value => rw [here] at nothing; cases nothing
      | none =>
        rw [here] at nothing
        exact .intro here fun parent above => ih (firstOf_eq_none nothing parent above)

/-- A search that never ends climbs to a parent where it never ends. -/
theorem next_of_stuck (stuck : ∀ depth, climb own parents depth node = none) :
    own node = none ∧ ∃ next, (∀ depth, climb own parents depth next = none) ∧
      ∃ before after, parents node = before ++ next :: after ∧
        ∀ other ∈ before, Exhausted own parents other := by
  have nothing : own node = none := by
    cases here : own node with
    | none => rfl
    | some value =>
      have first := stuck 1
      rw [climb, here] at first
      cases first
  refine ⟨nothing, ?_⟩
  have split : ∀ nodes : List V, (∃ depth, (firstOf (climb own parents depth) nodes).isSome) ∨
      ∃ next, (∀ depth, climb own parents depth next = none) ∧ ∃ before after,
        nodes = before ++ next :: after ∧ ∀ other ∈ before, Exhausted own parents other := by
    intro nodes
    induction nodes with
    | nil => exact Or.inl ⟨0, rfl⟩
    | cons node rest ih =>
      by_cases endless : ∀ depth, climb own parents depth node = none
      · exact Or.inr ⟨node, endless, [], rest, rfl, fun _ member => absurd member List.not_mem_nil⟩
      · rw [not_forall] at endless
        obtain ⟨depth, ends⟩ := endless
        obtain ⟨result, here⟩ := Option.ne_none_iff_exists'.mp ends
        cases result with
        | some value =>
          left
          refine ⟨depth, ?_⟩
          rw [firstOf, here]
          rfl
        | none =>
          rcases ih with ⟨others, found⟩ | ⟨next, endless, before, after, rfl, left_⟩
          · left
            obtain ⟨result, there⟩ := Option.isSome_iff_exists.mp found
            refine ⟨max depth others, ?_⟩
            rw [firstOf, climb_mono here (Nat.le_max_left _ _)]
            rw [firstOf_mono (fun _ _ _ found => climb_mono found (Nat.le_max_right _ _)) there]
            rfl
          · right
            refine ⟨next, endless, node :: before, after, rfl, fun other member => ?_⟩
            rcases List.mem_cons.mp member with rfl | member
            · exact exhausted_iff.mpr ⟨depth, here⟩
            · exact left_ other member
  rcases split (parents node) with ⟨depth, ends⟩ | found
  · have deeper := stuck (depth + 1)
    rw [climb, nothing] at deeper
    simp only at deeper
    rw [deeper] at ends
    cases ends
  · exact found

/-- The search never ends exactly when the path above it is endless. -/
theorem endless_iff : Endless own parents node ↔ ∀ depth, climb own parents depth node = none := by
  constructor
  · rintro ⟨path, rfl, climbs⟩ depth
    have all : ∀ depth place, climb own parents depth (path place) = none := by
      intro depth
      induction depth with
      | zero => exact fun _ => rfl
      | succ depth ih =>
        intro place
        obtain ⟨nothing, before, after, above, left_⟩ := climbs place
        rw [climb, nothing, above]
        apply firstOf_stuck (ih (place + 1))
        intro other member
        obtain ⟨enough, ends⟩ := exhausted_iff.mp (left_ other member)
        cases here : climb own parents depth other with
        | none => exact Or.inl rfl
        | some result =>
          right
          have one := climb_mono here (Nat.le_max_left depth enough)
          rw [climb_mono ends (Nat.le_max_right depth enough)] at one
          exact one.symm
    exact all depth 0
  · intro stuck
    let Stuck := { node : V // ∀ depth, climb own parents depth node = none }
    let next : Stuck → Stuck := fun here =>
      ⟨(next_of_stuck here.2).2.choose, (next_of_stuck here.2).2.choose_spec.1⟩
    refine ⟨fun place => (next^[place] ⟨node, stuck⟩).1, rfl, fun place => ?_⟩
    have here := next_of_stuck (next^[place] ⟨node, stuck⟩).2
    refine ⟨here.1, ?_⟩
    have climbed := Function.iterate_succ_apply' next place ⟨node, stuck⟩
    simp only [climbed]
    exact here.2.choose_spec.2

/-- A search that needs a depth passes through so many nodes. -/
theorem chain_of_depth (inside : ∀ node, ∀ parent ∈ parents node, parent ∈ nodes)
    (short : climb own parents depth node = none) (ends : (climb own parents (depth + 1) node).isSome) :
    ∃ chain : List V, chain.length = depth ∧ chain.Nodup ∧ (∀ other ∈ chain, other ∈ nodes) ∧
      ∀ other ∈ chain, (climb own parents depth other).isSome := by
  induction depth generalizing node with
  | zero =>
    exact ⟨[], rfl, List.nodup_nil, fun _ member => absurd member List.not_mem_nil,
      fun _ member => absurd member List.not_mem_nil⟩
  | succ depth ih =>
    rw [climb] at short ends
    cases here : own node with
    | some value => rw [here] at short; cases short
    | none =>
      rw [here] at short ends
      obtain ⟨parent, above, shortToo, endsToo⟩ := firstOf_deeper
        (fun _ _ _ found => climb_mono found (Nat.le_succ _)) short ends
      obtain ⟨chain, size, distinct, known, shallow⟩ := ih shortToo endsToo
      have fresh : parent ∉ chain := by
        intro member
        have found := shallow parent member
        rw [shortToo] at found
        cases found
      refine ⟨parent :: chain, by rw [List.length_cons, size], List.nodup_cons.mpr ⟨fresh, distinct⟩,
        fun other member => ?_, fun other member => ?_⟩
      · rcases List.mem_cons.mp member with rfl | member
        · exact inside node other above
        · exact known other member
      · rcases List.mem_cons.mp member with rfl | member
        · exact endsToo
        · obtain ⟨result, found⟩ := Option.isSome_iff_exists.mp (shallow other member)
          rw [climb_mono found (Nat.le_succ _)]
          rfl

/-- With `nodes` the only parents there are, this depth is enough for every search that ends. -/
theorem climb_eq_none_iff (inside : ∀ node, ∀ parent ∈ parents node, parent ∈ nodes)
    (enough : nodes.length < depth) : climb own parents depth node = none ↔ Endless own parents node := by
  rw [endless_iff]
  constructor
  · intro stuck
    by_contra ends
    rw [not_forall] at ends
    classical
    have least := Nat.find_spec ends
    have positive : Nat.find ends ≠ 0 := by
      intro zero
      rw [zero] at least
      exact least rfl
    obtain ⟨before, same⟩ := Nat.exists_eq_succ_of_ne_zero positive
    have short : climb own parents before node = none := by
      have minimal := Nat.find_min ends (show before < Nat.find ends by omega)
      rwa [not_not] at minimal
    rw [same] at least
    obtain ⟨result, found⟩ := Option.ne_none_iff_exists'.mp least
    obtain ⟨chain, size, distinct, known, _⟩ := chain_of_depth inside short (found ▸ rfl)
    have fits : chain.length ≤ nodes.length := (distinct.subperm known).length_le
    rw [climb_mono found (by omega)] at stuck
    cases stuck
  · exact fun all => all depth

end Loushang.Lib.ClimbingSearch
