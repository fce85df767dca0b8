import Mathlib.Data.List.Basic

/-! Texts in which some places are replaced: the places with what stands before each, and the end behind
them. Nothing here names a particular system. -/

namespace Pieces

variable {α β : Type}

/-- A place that is replaced, with what stands before it. -/
structure Piece (α β : Type) where
  gap : List α
  plain : List α
  token : List α
  mark : β

/-- The text with the places as they were. -/
def source (pieces : List (Piece α β)) (tail : List α) : List α :=
  match pieces with
  | [] => tail
  | piece :: pieces => piece.gap ++ (piece.plain ++ source pieces tail)

/-- The text with the places replaced. -/
def target (pieces : List (Piece α β)) (tail : List α) : List α :=
  match pieces with
  | [] => tail
  | piece :: pieces => piece.gap ++ (piece.token ++ target pieces tail)

/-- Every mark stands for its place, with its start and its length. -/
def Placed (stands : β → Nat → Nat → Prop) : Nat → List (Piece α β) → Prop
  | _, [] => True
  | offset, piece :: pieces =>
    stands piece.mark (offset + piece.gap.length) piece.plain.length ∧
      Placed stands (offset + piece.gap.length + piece.plain.length) pieces

variable {pieces : List (Piece α β)} {tail : List α}

/-- Longer tokens make a longer text. -/
theorem target_longer (longer : ∀ piece ∈ pieces, piece.plain.length < piece.token.length) :
    (source pieces tail).length + pieces.length ≤ (target pieces tail).length := by
  induction pieces with
  | nil => exact Nat.le_refl _
  | cons piece pieces ih =>
    obtain ⟨one, longer⟩ := List.forall_mem_cons.mp longer
    have rest := ih longer
    simp only [source, target, List.length_append, List.length_cons]
    omega

end Pieces
