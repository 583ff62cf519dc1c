import Mathlib.Data.List.Basic

/-! A stream that arrives in pieces. A read takes no more than asked for and never crosses the
end of a piece, so the ends of the pieces decide which reads come back short. -/

namespace BelProject.Library.Pieces

variable {α : Type}

/-- One read of at most `n`, and what is left of the stream. -/
def read (n : Nat) : List (List α) → List α × List (List α)
  | [] => ([], [])
  | piece :: pieces => (piece.take n, if piece.length ≤ n then pieces else piece.drop n :: pieces)

/-- Where the pieces end, counted from the start of the stream. -/
def cuts : List (List α) → List Nat
  | [] => []
  | piece :: pieces => piece.length :: (cuts pieces).map (piece.length + ·)

def Solid (pieces : List (List α)) : Prop := ∀ piece ∈ pieces, piece ≠ []

instance [DecidableEq α] (pieces : List (List α)) : Decidable (Solid pieces) :=
  inferInstanceAs (Decidable (∀ piece ∈ pieces, piece ≠ []))

theorem read_flatten (n : Nat) (pieces : List (List α)) :
    (read n pieces).1 ++ (read n pieces).2.flatten = pieces.flatten := by
  cases pieces with
  | nil => rfl
  | cons piece pieces =>
    simp only [read, List.flatten_cons]
    split
    next whole => rw [List.take_of_length_le whole]
    next => rw [List.flatten_cons, ← List.append_assoc, List.take_append_drop]

theorem length_read_le (n : Nat) (pieces : List (List α)) : (read n pieces).1.length ≤ n := by
  cases pieces with
  | nil => exact Nat.zero_le n
  | cons piece pieces => exact List.length_take_le n piece

variable {pieces : List (List α)}

theorem Solid.read (solid : Solid pieces) (n : Nat) : Solid (Pieces.read n pieces).2 := by
  cases pieces with
  | nil => exact solid
  | cons piece pieces =>
    have rest : Solid pieces := fun other member => solid other (List.mem_cons_of_mem _ member)
    simp only [Pieces.read]
    split
    · exact rest
    next short =>
      intro other member
      rcases List.mem_cons.mp member with rfl | later
      · apply List.ne_nil_of_length_pos
        rw [List.length_drop]
        omega
      · exact rest other later

theorem Solid.pos (solid : Solid pieces) : ∀ cut ∈ cuts pieces, 0 < cut := by
  cases pieces with
  | nil => simp [cuts]
  | cons piece pieces =>
    have positive : 0 < piece.length := List.length_pos_iff.mpr (solid piece List.mem_cons_self)
    intro cut member
    rcases List.mem_cons.mp member with rfl | later
    · exact positive
    · obtain ⟨inner, _, rfl⟩ := List.mem_map.mp later
      exact Nat.add_pos_left positive inner

theorem Solid.read_pos (solid : Solid pieces) (some : pieces ≠ []) {n : Nat} (positive : 0 < n) :
    0 < (Pieces.read n pieces).1.length := by
  cases pieces with
  | nil => exact absurd rfl some
  | cons piece pieces =>
    have := List.length_pos_iff.mpr (solid piece List.mem_cons_self)
    simp only [Pieces.read, List.length_take]
    omega

theorem length_read_iff {n : Nat} (enough : n ≤ pieces.flatten.length) :
    (read n pieces).1.length = n ↔ ∀ cut ∈ cuts pieces, n ≤ cut := by
  cases pieces with
  | nil =>
    have none : n = 0 := Nat.le_zero.mp enough
    simp [read, cuts, none]
  | cons piece pieces =>
    simp only [read, cuts, List.length_take, List.forall_mem_cons]
    constructor
    · intro whole
      refine ⟨by omega, ?_⟩
      intro cut member
      obtain ⟨inner, _, rfl⟩ := List.mem_map.mp member
      omega
    · rintro ⟨first, _⟩
      omega

theorem mem_cuts_read {n : Nat} (solid : Solid pieces) (cut : Nat) :
    cut ∈ cuts (read n pieces).2 ↔ 0 < cut ∧ (read n pieces).1.length + cut ∈ cuts pieces := by
  cases pieces with
  | nil => simp [read, cuts]
  | cons piece pieces =>
    have rest : Solid pieces := fun other member => solid other (List.mem_cons_of_mem _ member)
    by_cases whole : piece.length ≤ n
    · have taken : (piece.take n).length = piece.length := by rw [List.length_take, Nat.min_eq_right whole]
      simp only [read, if_pos whole, taken, cuts, List.mem_cons, List.mem_map]
      constructor
      · intro member
        exact ⟨rest.pos cut member, Or.inr ⟨cut, member, rfl⟩⟩
      · rintro ⟨positive, same | ⟨inner, member, same⟩⟩
        · omega
        · obtain rfl : inner = cut := by omega
          exact member
    · have taken : (piece.take n).length = n := by rw [List.length_take]; omega
      have left : (piece.drop n).length = piece.length - n := List.length_drop
      simp only [read, if_neg whole, taken, cuts, left, List.mem_cons, List.mem_map]
      constructor
      · rintro (rfl | ⟨inner, member, rfl⟩)
        · exact ⟨by omega, Or.inl (by omega)⟩
        · exact ⟨by omega, Or.inr ⟨inner, member, by omega⟩⟩
      · rintro ⟨positive, same | ⟨inner, member, same⟩⟩
        · exact Or.inl (by omega)
        · exact Or.inr ⟨inner, member, by omega⟩

end BelProject.Library.Pieces
