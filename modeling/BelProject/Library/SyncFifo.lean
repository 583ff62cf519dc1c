import Mathlib.Data.List.Basic
import Mathlib.Data.Nat.Notation

/-! What one relies on of a FIFO with one clock. Nothing is said of a write when it is full, and of
a read when it is empty. -/

namespace BelProject.Library.SyncFifo

structure Fifo (α : Type) (size : ℕ) where
  State : Type
  reset : State
  clock : State → Option α → Bool → State
  full : State → Bool
  empty : State → Bool
  contents : State → List α
  contents_reset : contents reset = []
  length_le : ∀ s, (contents s).length ≤ size
  full_iff : ∀ s, full s = true ↔ (contents s).length = size
  empty_iff : ∀ s, empty s = true ↔ contents s = []
  contents_clock : ∀ s write read, (write.isSome = true → full s = false) → (read = true → empty s = false) →
    contents (clock s write read) = (if read then (contents s).tail else contents s) ++ write.toList

variable {α : Type} {size : ℕ}

/-- What is left, and what comes in as far as there is room. -/
def pass (size : ℕ) (cells : List α) (write : Option α) (read : Bool) : List α :=
  ((if read then cells.tail else cells) ++ write.toList).take size

theorem length_rest (cells : List α) (read : Bool) : (if read then cells.tail else cells).length ≤ cells.length := by
  cases read with
  | false => exact Nat.le_refl _
  | true =>
    rw [if_pos rfl, List.length_tail]
    exact Nat.sub_le _ _

theorem pass_eq {cells : List α} {write : Option α} {read : Bool} (few : cells.length ≤ size)
    (room : write.isSome = true → cells.length ≠ size) :
    pass size cells write read = (if read then cells.tail else cells) ++ write.toList := by
  apply List.take_of_length_le
  have rest := length_rest cells read
  rw [List.length_append]
  cases write with
  | none => exact Nat.le_trans rest few
  | some value =>
    have space := room rfl
    change _ + 1 ≤ size
    omega

/-- A FIFO that drops what is written when it is full. -/
def queue (α : Type) (size : ℕ) : Fifo α size where
  State := { cells : List α // cells.length ≤ size }
  reset := ⟨[], Nat.zero_le _⟩
  clock s write read := ⟨pass size s.1 write read, List.length_take_le size _⟩
  full s := s.1.length == size
  empty s := s.1.isEmpty
  contents s := s.1
  contents_reset := rfl
  length_le s := s.2
  full_iff _ := beq_iff_eq
  empty_iff _ := List.isEmpty_iff
  contents_clock s _ _ room _ := pass_eq s.2 fun some => beq_eq_false_iff_ne.mp (room some)

end BelProject.Library.SyncFifo
