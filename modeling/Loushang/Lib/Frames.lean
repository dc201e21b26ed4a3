import Mathlib.Data.List.Basic

/-!
# Lists framed by a closing mark

A frame is a body without the mark, followed by the mark. Cutting frames at any place
leaves the rest of one frame and whole frames behind it.
-/
namespace Loushang.Lib

section

variable {α : Type} [DecidableEq α] (mark : α)

/-- The bodies as they stand in a list, each closed by the mark. -/
def framed (bodies : List (List α)) : List α := bodies.flatMap fun body => body ++ [mark]

/-- `text.split(mark)[:-1]`. -/
def closedBodies (text : List α) : List (List α) := (text.splitOn mark).dropLast

/-- What stands behind the last mark of `text`. -/
def lastOpen (text : List α) : List α := (text.reverse.takeWhile fun item => item ≠ mark).reverse

@[simp] theorem framed_nil : framed mark [] = [] := rfl

theorem framed_cons (body : List α) (bodies : List (List α)) :
    framed mark (body :: bodies) = body ++ mark :: framed mark bodies := by
  rw [framed, List.flatMap_cons, List.append_assoc]
  rfl

theorem framed_append (front back : List (List α)) :
    framed mark (front ++ back) = framed mark front ++ framed mark back :=
  List.flatMap_append

variable {bodies : List (List α)}

theorem framed_eq_nil : framed mark bodies = [] ↔ bodies = [] := by
  cases bodies with
  | nil => exact ⟨fun _ => rfl, fun _ => rfl⟩
  | cons body bodies => simp [framed_cons]

theorem framed_getLast? (bodies : List (List α)) (nonempty : bodies ≠ []) :
    (framed mark bodies).getLast? = some mark := by
  obtain ⟨front, last, rfl⟩ := List.eq_nil_or_concat' bodies |>.resolve_left nonempty
  rw [framed_append, framed_cons, framed_nil, ← List.append_assoc, List.getLast?_append_cons]
  rfl

variable {mark}

variable {body : List α}

theorem splitOn_body {rest : List α} (clean : mark ∉ body) :
    (body ++ mark :: rest).splitOn mark = body :: rest.splitOn mark := by
  rw [List.splitOn_append_cons_self, List.splitOn_eq_singleton clean]
  rfl

theorem closedBodies_framed (clean : ∀ body ∈ bodies, mark ∉ body) :
    closedBodies mark (framed mark bodies) = bodies := by
  induction bodies with
  | nil => rfl
  | cons body bodies ih =>
    have rest := ih fun other member => clean other (List.mem_cons_of_mem _ member)
    rw [closedBodies, framed_cons, splitOn_body (clean body List.mem_cons_self),
      List.dropLast_cons_of_ne_nil (List.splitOn_ne_nil _ _)]
    rw [closedBodies] at rest
    rw [rest]

/-- Cut anywhere, frames leave the end of one of them and the frames behind it. -/
theorem drop_framed {bodies : List (List α)} {start : Nat}
    (inside : start < (framed mark bodies).length) :
    ∃ front body bodies' piece, bodies = front ++ body :: bodies' ∧ piece <:+ body ∧
      (framed mark bodies).drop start = framed mark (piece :: bodies') := by
  induction bodies generalizing start with
  | nil => exact absurd inside (Nat.not_lt_zero _)
  | cons body bodies ih =>
    rcases Nat.lt_or_ge body.length start with beyond | within
    · have length : (framed mark (body :: bodies)).length =
          body.length + 1 + (framed mark bodies).length := by
        rw [framed_cons, List.length_append, List.length_cons]
        omega
      obtain ⟨front, other, bodies', piece, eq, suffix, cut⟩ :=
        @ih (start - (body.length + 1)) (by omega)
      refine ⟨body :: front, other, bodies', piece, by rw [eq]; rfl, suffix, ?_⟩
      have whole : framed mark (body :: bodies) = (body ++ [mark]) ++ framed mark bodies := rfl
      have skipped : start = (body ++ [mark]).length + (start - (body.length + 1)) := by
        rw [List.length_append, List.length_singleton]
        omega
      rw [← cut, whole, skipped, List.drop_length_add_append]
      congr 1
      rw [List.length_append, List.length_singleton]
      omega
    · refine ⟨[], body, bodies, body.drop start, rfl, List.drop_suffix _ _, ?_⟩
      rw [framed_cons, framed_cons, List.drop_append_of_le_length within]

theorem lastOpen_append {front : List α} (clean : mark ∉ body)
    (closed : front = [] ∨ front.getLast? = some mark) : lastOpen mark (front ++ body) = body := by
  have all : ∀ item ∈ body.reverse, decide (item ≠ mark) = true := by
    intro item member
    rw [decide_eq_true_eq]
    rintro rfl
    exact clean (List.mem_reverse.mp member)
  have stops : front.reverse.takeWhile (fun item => decide (item ≠ mark)) = [] := by
    rcases closed with rfl | last
    · rfl
    · rw [← List.head?_reverse] at last
      obtain ⟨rest, eq⟩ := List.head?_eq_some_iff.mp last
      rw [eq, List.takeWhile_cons_of_neg (by simp)]
  rw [lastOpen, List.reverse_append, List.takeWhile_append_of_pos all, stops, List.append_nil,
    List.reverse_reverse]

theorem length_framed_le (bound : Nat) (short : ∀ body ∈ bodies, body.length < bound) :
    (framed mark bodies).length ≤ bound * bodies.length := by
  induction bodies with
  | nil => exact Nat.zero_le _
  | cons body bodies ih =>
    have rest := ih fun other member => short other (List.mem_cons_of_mem _ member)
    have here := short body List.mem_cons_self
    rw [framed_cons, List.length_append, List.length_cons, List.length_cons, Nat.mul_succ]
    omega

end

end Loushang.Lib
