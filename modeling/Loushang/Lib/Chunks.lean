import Mathlib.Data.List.Basic

/-!
# Byte streams in chunks

A source hands out a stream of bytes in non-empty pieces; a read returns at most what is
asked for and keeps the rest of a longer piece.
-/
namespace Loushang.Lib

structure Chunks where
  pieces : List (List UInt8)
  nonempty : ∀ piece ∈ pieces, piece ≠ []

namespace Chunks

def bytes (chunks : Chunks) : List UInt8 := chunks.pieces.flatten

def read (size : Nat) (chunks : Chunks) : List UInt8 × Chunks :=
  match chunks with
  | ⟨[], nonempty⟩ => ([], ⟨[], nonempty⟩)
  | ⟨piece :: rest, nonempty⟩ =>
    if short : piece.length ≤ size then
      (piece, ⟨rest, fun other member => nonempty other (List.mem_cons_of_mem _ member)⟩)
    else
      (piece.take size, ⟨piece.drop size :: rest, by
        intro other member
        rcases List.mem_cons.mp member with rfl | member
        · intro empty
          rw [List.drop_eq_nil_iff] at empty
          exact short empty
        · exact nonempty other (List.mem_cons_of_mem _ member)⟩)

/-- A read takes the front of the stream. -/
theorem read_append (size : Nat) (chunks : Chunks) :
    (chunks.read size).1 ++ (chunks.read size).2.bytes = chunks.bytes := by
  obtain ⟨pieces, nonempty⟩ := chunks
  cases pieces with
  | nil => rfl
  | cons piece rest =>
    unfold read bytes
    dsimp only
    split
    · rfl
    · simp [← List.append_assoc]

theorem length_read_le (size : Nat) (chunks : Chunks) : (chunks.read size).1.length ≤ size := by
  obtain ⟨pieces, nonempty⟩ := chunks
  cases pieces with
  | nil => exact Nat.zero_le _
  | cons piece rest =>
    unfold read
    dsimp only
    split
    · next short => exact short
    · exact List.length_take_le _ _

/-- Only the end of the stream reads as nothing. -/
theorem read_eq_nil {size : Nat} (positive : 0 < size) {chunks : Chunks} :
    (chunks.read size).1 = [] ↔ chunks.bytes = [] := by
  constructor
  · intro empty
    obtain ⟨pieces, nonempty⟩ := chunks
    cases pieces with
    | nil => rfl
    | cons piece rest =>
      unfold read at empty
      dsimp only at empty
      have full := nonempty piece List.mem_cons_self
      split at empty
      · exact absurd empty full
      · rw [List.take_eq_nil_iff] at empty
        rcases empty with zero | empty
        · omega
        · exact absurd empty full
  · intro empty
    have front := read_append size chunks
    rw [empty, List.append_eq_nil_iff] at front
    exact front.1

end Chunks

end Loushang.Lib
