import Mathlib.Data.List.Basic

/-!
# Lines that keep their endings

Which characters end a line is a parameter; a carriage return and the line feed after it end one
line together. The lines of a text, their fronts and their backs are texts with exactly those lines.
-/
namespace Loushang.Lib

/-- The characters that end a line, among them CR and LF. -/
structure Boundaries (α : Type) where
  breaks : α → Bool
  cr : α
  lf : α
  breaks_cr : breaks cr = true
  breaks_lf : breaks lf = true
  different : cr ≠ lf

namespace Boundaries
variable {α : Type} [DecidableEq α] (b : Boundaries α)

/-- `text.splitlines(keepends=True)`. -/
def split : List α → List (List α)
  | [] => []
  | [c] => [[c]]
  | c :: d :: rest =>
    if c = b.cr ∧ d = b.lf then [c, d] :: split rest
    else if b.breaks c then [c] :: split (d :: rest)
    else match split (d :: rest) with
      | [] => [[c]]
      | line :: more => (c :: line) :: more

/-- Does a line that ends in `last` go on with `next`? -/
def goesOn (last next : α) : Bool := !b.breaks last || (last == b.cr && next == b.lf)

variable {b}

theorem split_pair (rest : List α) : b.split (b.cr :: b.lf :: rest) = [b.cr, b.lf] :: b.split rest := by
  rw [split, if_pos ⟨rfl, rfl⟩]

variable {rest : List α}

theorem split_break {c : α} (breaks : b.breaks c = true) (apart : c = b.cr → rest.head? ≠ some b.lf) :
    b.split (c :: rest) = [c] :: b.split rest := by
  cases rest with
  | nil => rfl
  | cons d more =>
    have other : ¬ (c = b.cr ∧ d = b.lf) := fun both => apart both.1 (by rw [both.2]; rfl)
    rw [split, if_neg other, if_pos breaks]

theorem split_char {c d : α} (other : b.breaks c = false) :
    b.split (c :: d :: rest) = match b.split (d :: rest) with
      | [] => [[c]]
      | line :: more => (c :: line) :: more := by
  have notCr : c ≠ b.cr := by
    rintro rfl
    rw [b.breaks_cr] at other
    cases other
  rw [split, if_neg fun both => notCr both.1, other, if_neg Bool.false_ne_true]

variable {text : List α}

theorem split_ne_nil (nonempty : text ≠ []) : b.split text ≠ [] := by
  unfold split
  split
  · exact absurd rfl nonempty
  · simp
  · split
    · simp
    · split
      · simp
      · split <;> simp

/-- The lines put together are the text. -/
theorem flatten_split (text : List α) : (b.split text).flatten = text := by
  fun_induction split b text with
  | case1 => rfl
  | case2 => rfl
  | case3 c d rest pair ih =>
    rw [List.flatten_cons, ih]
    rfl
  | case4 c d rest _ breaks ih =>
    rw [List.flatten_cons, ih]
    rfl
  | case5 c d rest _ _ empty ih => exact absurd empty (split_ne_nil (List.cons_ne_nil _ _))
  | case6 c d rest _ _ line more found ih =>
    rw [found, List.flatten_cons] at ih
    rw [List.flatten_cons, List.cons_append, ih]

theorem split_nil : b.split [] = [] := rfl

theorem ne_nil_of_mem_split {text line : List α} (member : line ∈ b.split text) : line ≠ [] := by
  fun_induction split b text with
  | case1 => cases member
  | case2 c =>
    rw [List.mem_singleton.mp member]
    exact List.cons_ne_nil _ _
  | case3 c d rest pair ih =>
    rcases List.mem_cons.mp member with rfl | later
    · exact List.cons_ne_nil _ _
    · exact ih later
  | case4 c d rest _ breaks ih =>
    rcases List.mem_cons.mp member with rfl | later
    · exact List.cons_ne_nil _ _
    · exact ih later
  | case5 c d rest _ _ empty ih =>
    rw [List.mem_singleton.mp member]
    exact List.cons_ne_nil _ _
  | case6 c d rest _ _ first more found ih =>
    rcases List.mem_cons.mp member with rfl | later
    · exact List.cons_ne_nil _ _
    · exact ih (found ▸ List.mem_cons_of_mem _ later)

variable {line : List α} {lines : List (List α)}

/-- The lines behind the first are the lines of what they make. -/
theorem split_tail (found : b.split text = line :: lines) : b.split lines.flatten = lines := by
  fun_induction split b text generalizing line lines with
  | case1 => cases found
  | case2 c =>
    cases found
    rfl
  | case3 c d rest pair ih =>
    rw [List.cons.injEq] at found
    rw [← found.2, flatten_split]
  | case4 c d rest _ breaks ih =>
    rw [List.cons.injEq] at found
    rw [← found.2, flatten_split]
  | case5 c d rest _ _ empty ih => exact absurd empty (split_ne_nil (List.cons_ne_nil _ _))
  | case6 c d rest _ _ first more inner ih =>
    rw [List.cons.injEq] at found
    rw [← found.2]
    exact ih inner

/-- The first line stays one before another text that starts as what followed it. -/
theorem split_head (found : b.split text = line :: lines) {back : List α}
    (same : back = [] ∨ lines ≠ [] ∧ back.head? = lines.flatten.head?) :
    b.split (line ++ back) = line :: b.split back := by
  fun_induction split b text generalizing line lines with
  | case1 => cases found
  | case2 c =>
    cases found
    rcases same with rfl | ⟨more, _⟩
    · rfl
    · exact absurd rfl more
  | case3 c d rest pair ih =>
    rw [List.cons.injEq] at found
    obtain ⟨rfl, rfl⟩ := pair
    rw [← found.1]
    exact split_pair back
  | case4 c d rest alone breaks ih =>
    rw [List.cons.injEq] at found
    rw [← found.1]
    refine split_break breaks fun cr next => ?_
    change back.head? = some b.lf at next
    rcases same with rfl | ⟨_, same⟩
    · cases next
    · rw [← found.2, flatten_split, next, List.head?_cons, Option.some.injEq] at same
      exact alone ⟨cr, same.symm⟩
  | case5 c d rest _ _ empty ih => exact absurd empty (split_ne_nil (List.cons_ne_nil _ _))
  | case6 c d rest _ other first more inner ih =>
    rw [List.cons.injEq] at found
    obtain ⟨rfl, rfl⟩ := found
    have nonempty : first ≠ [] := @ne_nil_of_mem_split _ _ b (d :: rest) first (inner ▸ List.mem_cons_self)
    obtain ⟨e, first', rfl⟩ := List.exists_cons_of_ne_nil nonempty
    have later := ih inner same
    rw [List.cons_append] at later
    rw [List.cons_append, List.cons_append, split_char (Bool.eq_false_iff.mpr other), later]

/-- The first lines of a text are the lines of what they make. -/
theorem split_take (text : List α) (k : Nat) :
    b.split ((b.split text).take k).flatten = (b.split text).take k := by
  induction k generalizing text with
  | zero => rfl
  | succ k ih =>
    cases found : b.split text with
    | nil => rfl
    | cons line lines =>
      have later := ih lines.flatten
      rw [split_tail found] at later
      rw [List.take_succ_cons, List.flatten_cons, split_head found, later]
      cases lines with
      | nil => exact Or.inl (by simp)
      | cons next more =>
        cases k with
        | zero => exact Or.inl rfl
        | succ k =>
          have nonempty : next ≠ [] := @ne_nil_of_mem_split _ _ b text next (by rw [found]; simp)
          obtain ⟨e, next', rfl⟩ := List.exists_cons_of_ne_nil nonempty
          exact Or.inr ⟨List.cons_ne_nil _ _, rfl⟩

theorem split_drop (text : List α) (k : Nat) :
    b.split ((b.split text).drop k).flatten = (b.split text).drop k := by
  induction k generalizing text with
  | zero => rw [List.drop_zero, flatten_split]
  | succ k ih =>
    cases found : b.split text with
    | nil => rfl
    | cons line lines =>
      have later := ih lines.flatten
      rw [split_tail found] at later
      rw [List.drop_succ_cons, later]

/-! ## Counting -/

/-- `len(text.splitlines())`. -/
def count (b : Boundaries α) (text : List α) : Nat := (b.split text).length

theorem count_nil : b.count [] = 0 := rfl

theorem count_singleton (c : α) : b.count [c] = 1 := rfl

/-- One more character opens a line unless the last line goes on with it. -/
theorem count_snoc {last : α} (ends : text.getLast? = some last) (next : α) :
    b.count (text ++ [next]) = b.count text + if b.goesOn last next then 0 else 1 := by
  unfold count
  fun_induction split b text generalizing last with
  | case1 => cases ends
  | case2 c =>
    rw [List.getLast?_singleton, Option.some.injEq] at ends
    subst ends
    rw [List.singleton_append, split]
    unfold goesOn
    by_cases pair : c = b.cr ∧ next = b.lf
    · simp [pair, split]
    · rw [if_neg pair]
      cases breaks : b.breaks c with
      | false => simp [split]
      | true =>
        have apart : (c == b.cr && next == b.lf) = false := by simpa using pair
        simp [split, apart]
  | case3 c d rest pair ih =>
    obtain ⟨rfl, rfl⟩ := pair
    rw [List.cons_append, List.cons_append, split_pair, List.length_cons, List.length_cons]
    cases rest with
    | nil =>
      rw [List.getLast?_cons_cons, List.getLast?_singleton, Option.some.injEq] at ends
      subst ends
      simp [goesOn, b.breaks_lf, Ne.symm b.different, split]
    | cons e more =>
      rw [List.getLast?_cons_cons, List.getLast?_cons_cons] at ends
      rw [ih ends]
      omega
  | case4 c d rest alone breaks ih =>
    rw [List.getLast?_cons_cons] at ends
    have later := ih ends
    rw [List.cons_append] at later
    rw [List.cons_append, List.cons_append, split, if_neg alone, if_pos breaks, List.length_cons, List.length_cons, later]
    omega
  | case5 c d rest _ _ empty ih => exact absurd empty (split_ne_nil (List.cons_ne_nil _ _))
  | case6 c d rest _ other first more inner ih =>
    rw [List.getLast?_cons_cons] at ends
    have later := ih ends
    rw [List.cons_append, inner] at later
    rw [List.cons_append, List.cons_append, split_char (Bool.eq_false_iff.mpr other)]
    obtain ⟨line, lines, found⟩ :=
      List.exists_cons_of_ne_nil (split_ne_nil (b := b) (List.cons_ne_nil d (rest ++ [next])))
    rw [found] at later ⊢
    exact later

end Boundaries

end Loushang.Lib
