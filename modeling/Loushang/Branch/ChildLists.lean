import Loushang.Branch.Checks

/-!
# Lists of children on the heap

No operation mutates a list that existed before it: appends in place reach lists the
operation itself allocated, and no two ids share one of those. So older graphs keep
what they read, and the changed graph reads the appended children at the end.
-/
namespace Loushang.Branch
open Loushang.Lib

/-- The lists of a graph under change; `base` is the heap before. -/
structure Owning (base : Heap) (lists : ChildLists) : Prop where
  frame : base <+: lists.heap
  bound : ∀ id ref, lists.refs.get? id = some ref → ref < lists.heap.length
  apart : ∀ id id' ref, lists.refs.get? id = some ref → lists.refs.get? id' = some ref →
    base.length ≤ ref → id = id'

/-- The id's list was allocated by the operation. -/
def Mine (base : Heap) (lists : ChildLists) (id : String) : Prop :=
  ∃ ref, lists.refs.get? id = some ref ∧ base.length ≤ ref

theorem Owning.start {heap : Heap} {refs : Dict String Nat}
    (bound : ∀ id ref, refs.get? id = some ref → ref < heap.length) : Owning heap ⟨heap, refs⟩ where
  frame := List.prefix_rfl
  bound := bound
  apart id _ ref here _ new := absurd (bound id ref here) (Nat.not_lt.mpr new)

/-! ## A new list -/

variable {base : Heap} {lists : ChildLists}

theorem Owning.fresh (owning : Owning base lists) (id : String) (content : List String) :
    Owning base (lists.fresh id content) where
  frame := owning.frame.trans (List.prefix_append _ _)
  bound := by
    intro other ref here
    simp only [ChildLists.fresh, Dict.get?_set] at here
    simp only [ChildLists.fresh, List.length_append, List.length_singleton]
    split at here
    · cases here
      exact Nat.lt_succ_self _
    · exact Nat.lt_succ_of_lt (owning.bound other ref here)
  apart := by
    intro one other ref here there new
    simp only [ChildLists.fresh, Dict.get?_set] at here there
    split at here <;> split at there
    · next same same' => rw [same, same']
    · cases here
      exact absurd (owning.bound other _ there) (Nat.lt_irrefl _)
    · cases there
      exact absurd (owning.bound one _ here) (Nat.lt_irrefl _)
    · exact owning.apart one other ref here there new

theorem Owning.read_fresh (owning : Owning base lists) (id other : String) (content : List String) :
    (lists.fresh id content).read other = if other = id then content else lists.read other := by
  simp only [ChildLists.read, ChildLists.fresh, Dict.get?_set]
  split
  · simp
  · cases here : lists.refs.get? other with
    | none => rfl
    | some ref => simp [List.getElem?_append_left (owning.bound other ref here)]

theorem Owning.mine_fresh (owning : Owning base lists) (id : String) (content : List String) :
    Mine base (lists.fresh id content) id :=
  ⟨lists.heap.length, Dict.get?_set_self _ _ _, owning.frame.length_le⟩

variable {other : String}

theorem Owning.mine_fresh_of (owning : Owning base lists) (mine : Mine base lists other) (id : String)
    (content : List String) : Mine base (lists.fresh id content) other := by
  by_cases same : other = id
  · rw [same]
    exact owning.mine_fresh id content
  · obtain ⟨ref, here, new⟩ := mine
    exact ⟨ref, (Dict.get?_set_of_ne _ _ same).trans here, new⟩

/-! ## An append in place -/

theorem push_refs (lists : ChildLists) (parent id : String) : (lists.push parent id).refs = lists.refs := by
  unfold ChildLists.push
  split <;> rfl

theorem Mine.push (mine : Mine base lists other) (parent id : String) :
    Mine base (lists.push parent id) other := by
  unfold Mine
  rw [push_refs]
  exact mine

variable {parent : String}

theorem Owning.push (owning : Owning base lists) (mine : Mine base lists parent) (id : String) :
    Owning base (lists.push parent id) := by
  obtain ⟨ref, here, new⟩ := mine
  refine ⟨?_, ?_, ?_⟩
  · obtain ⟨rest, split⟩ := owning.frame
    refine ⟨rest.modify (ref - base.length) fun content => content ++ [id], ?_⟩
    rw [ChildLists.push, here]
    simp only [← split]
    refine List.ext_getElem? fun i => ?_
    simp only [List.getElem?_append, List.getElem?_modify]
    by_cases inside : i < base.length
    · have elsewhere : ref ≠ i := by omega
      simp [inside, elsewhere]
    · have same : ref - base.length = i - base.length ↔ ref = i := by omega
      simp [inside, same]
  · intro other ref' there
    rw [push_refs] at there
    rw [ChildLists.push, here]
    simpa using owning.bound other ref' there
  · rw [push_refs]
    exact owning.apart

theorem Owning.read_push (owning : Owning base lists) (mine : Mine base lists parent) (id other : String) :
    (lists.push parent id).read other =
      if other = parent then lists.read parent ++ [id] else lists.read other := by
  obtain ⟨ref, here, new⟩ := mine
  have inside := owning.bound parent ref here
  simp only [ChildLists.read, push_refs]
  simp only [ChildLists.push, here]
  split
  · next same =>
    rw [same, here]
    simp [List.getElem?_eq_getElem inside]
  · next different =>
    cases there : lists.refs.get? other with
    | none => rfl
    | some ref' =>
      have elsewhere : ref ≠ ref' := by
        rintro rfl
        exact different (owning.apart other parent ref there here new)
      simp [List.getElem?_modify_ne _ _ elsewhere]

/-! ## Whole updates -/

/-- The ids linked to a parent, in order. -/
def linksTo (links : List (String × Option String)) (parent : String) : List String :=
  (links.filter fun link => link.2 = some parent).map Prod.fst

theorem linksTo_cons_none (id : String) (rest : List (String × Option String)) (parent : String) :
    linksTo ((id, none) :: rest) parent = linksTo rest parent := by
  simp [linksTo]

theorem linksTo_cons_some (id other : String) (rest : List (String × Option String)) (parent : String) :
    linksTo ((id, some other) :: rest) parent =
      (if parent = other then [id] else []) ++ linksTo rest parent := by
  by_cases same : parent = other
  · simp [linksTo, same]
  · simp [linksTo, same, Ne.symm same]

/-- `{record_id: [] for record_id in added}`. -/
def freshAll (lists : ChildLists) (keys : List String) : ChildLists :=
  keys.foldl (fun lists id => lists.fresh id []) lists

theorem Owning.freshAll (owning : Owning base lists) (keys : List String) :
    Owning base (freshAll lists keys) ∧ (∀ id ∈ keys, Mine base (freshAll lists keys) id) ∧
      (∀ id, Mine base lists id → Mine base (Branch.freshAll lists keys) id) ∧
      ∀ id, (Branch.freshAll lists keys).read id = if id ∈ keys then [] else lists.read id := by
  induction keys generalizing lists with
  | nil => exact ⟨owning, by simp, fun _ mine => mine, by simp [Branch.freshAll]⟩
  | cons key rest ih =>
    obtain ⟨owning', mine, kept, reads⟩ := ih (owning.fresh key [])
    refine ⟨owning', ?_, fun id held => kept id (owning.mine_fresh_of held key []), ?_⟩
    · intro id member
      rcases List.mem_cons.mp member with rfl | member
      · exact kept id (owning.mine_fresh id [])
      · exact mine id member
    · intro id
      have first := reads id
      rw [owning.read_fresh] at first
      have step : Branch.freshAll lists (key :: rest) = Branch.freshAll (lists.fresh key []) rest := rfl
      rw [step, first]
      by_cases last : id ∈ rest <;> by_cases here : id = key <;> simp [last, here]

/-- Replacing every changed list. -/
theorem Owning.attachPublished (owning : Owning base lists) (links : List (String × Option String)) :
    Owning base (links.foldl attachPublished lists) ∧
      ∀ id, (links.foldl Branch.attachPublished lists).read id = lists.read id ++ linksTo links id := by
  induction links generalizing lists with
  | nil => exact ⟨owning, by simp [linksTo]⟩
  | cons link rest ih =>
    obtain ⟨name, target⟩ := link
    cases target with
    | none =>
      obtain ⟨owning', reads⟩ := ih owning
      refine ⟨owning', fun id => ?_⟩
      rw [linksTo_cons_none]
      exact reads id
    | some parent =>
      obtain ⟨owning', reads⟩ := ih (owning.fresh parent (lists.read parent ++ [name]))
      refine ⟨owning', fun id => ?_⟩
      have read := reads id
      rw [owning.read_fresh] at read
      rw [linksTo_cons_some]
      refine read.trans ?_
      by_cases same : id = parent <;> simp [same]

/-- Appending in place to lists of one's own. -/
theorem Owning.attachOwn (owning : Owning base lists) (links : List (String × Option String))
    (mine : ∀ link ∈ links, ∀ parent, link.2 = some parent → Mine base lists parent) :
    Owning base (links.foldl attachOwn lists) ∧
      ∀ id, (links.foldl Branch.attachOwn lists).read id = lists.read id ++ linksTo links id := by
  induction links generalizing lists with
  | nil => exact ⟨owning, by simp [linksTo]⟩
  | cons link rest ih =>
    obtain ⟨name, target⟩ := link
    have later : ∀ link ∈ rest, ∀ parent, link.2 = some parent → Mine base lists parent :=
      fun link member => mine link (List.mem_cons_of_mem _ member)
    cases target with
    | none =>
      obtain ⟨owning', reads⟩ := ih owning later
      refine ⟨owning', fun id => ?_⟩
      rw [linksTo_cons_none]
      exact reads id
    | some parent =>
      have here := mine _ List.mem_cons_self parent rfl
      obtain ⟨owning', reads⟩ := ih (owning.push here name)
        fun link member parent' target => (later link member parent' target).push parent name
      refine ⟨owning', fun id => ?_⟩
      have read := reads id
      rw [owning.read_push here] at read
      rw [linksTo_cons_some]
      refine read.trans ?_
      by_cases same : id = parent <;> simp [same]

/-- A shared list is copied once and then appended to in place. -/
theorem Owning.attachDetached {R : Type} {base : Heap} {lists : ChildLists}
    (owning : Owning base lists) (added : Dict String R) {changed : List String}
    (mine : ∀ id, id ∈ added.keys ∨ id ∈ changed → Mine base lists id)
    (links : List (String × Option String)) :
    Owning base (links.foldl (attachDetached added) (lists, changed)).1 ∧
      ∀ id, (links.foldl (Branch.attachDetached added) (lists, changed)).1.read id =
        lists.read id ++ linksTo links id := by
  induction links generalizing lists changed with
  | nil => exact ⟨owning, by simp [linksTo]⟩
  | cons link rest ih =>
    obtain ⟨name, target⟩ := link
    rw [List.foldl_cons, Branch.attachDetached]
    cases target with
    | none =>
      obtain ⟨owning', reads⟩ := ih owning mine
      refine ⟨owning', fun id => ?_⟩
      rw [linksTo_cons_none]
      exact reads id
    | some parent =>
      simp only
      split
      · next shared =>
        have copied := owning.fresh parent (lists.read parent)
        have here := owning.mine_fresh parent (lists.read parent)
        have mine' : ∀ id, id ∈ added.keys ∨ id ∈ parent :: changed →
            Mine base ((lists.fresh parent (lists.read parent)).push parent name) id := by
          intro id held
          apply Mine.push
          by_cases same : id = parent
          · rw [same]
            exact here
          · refine owning.mine_fresh_of (mine id (held.imp_right fun member => ?_)) parent _
            exact (List.mem_cons.mp member).resolve_left same
        obtain ⟨owning', reads⟩ := ih (copied.push here name) mine'
        refine ⟨owning', fun id => ?_⟩
        rw [reads id, copied.read_push here, owning.read_fresh, owning.read_fresh, linksTo_cons_some]
        by_cases same : id = parent <;> simp [same]
      · next held =>
        have here : Mine base lists parent := mine parent (by tauto)
        obtain ⟨owning', reads⟩ := ih (owning.push here name) fun id held =>
          (mine id held).push parent name
        refine ⟨owning', fun id => ?_⟩
        rw [reads id, owning.read_push here, linksTo_cons_some]
        by_cases same : id = parent <;> simp [same]

end Loushang.Branch
