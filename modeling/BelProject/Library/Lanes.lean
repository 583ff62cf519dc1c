import BelProject.Library.Memory

/-! A memory of words whose bytes are counted from either end. Turned around, a range inside
one word is the mirrored range with its bytes in reverse. -/

namespace BelProject.Library.Lanes
open Memory

/-- The byte at the same distance from the other end of its word. -/
def turned (width a : Nat) : Nat := a - a % width + (width - 1 - a % width)

def turn (width : Nat) (m : Mem) : Mem := fun a => m (turned width a)

/-- Where a range of a word starts when its bytes are counted from the other end. -/
def mirrored (width a length : Nat) : Nat := a - a % width + (width - (a % width + length))

section
variable {width a length : Nat}

section
variable (inside : a % width + length ≤ width)
include inside

theorem turned_mem_iff (i : Nat) :
    (mirrored width a length ≤ turned width i ∧ turned width i < mirrored width a length + length) ↔
      a ≤ i ∧ i < a + length := by
  rcases Nat.eq_zero_or_pos length with rfl | positive
  · omega
  have word := Nat.div_add_mod a width
  have place := Nat.div_add_mod i width
  have low := Nat.mod_lt i (show 0 < width by omega)
  rw [mirrored, turned]
  rcases Nat.lt_trichotomy (i / width) (a / width) with before | same | behind
  · have apart : width * (i / width) + width ≤ width * (a / width) := by
      rw [← Nat.mul_succ]
      exact Nat.mul_le_mul_left _ before
    omega
  · rw [same] at place
    omega
  · have apart : width * (a / width) + width ≤ width * (i / width) := by
      rw [← Nat.mul_succ]
      exact Nat.mul_le_mul_left _ behind
    omega

theorem turned_sub {i : Nat} (low : a ≤ i) (high : i < a + length) :
    turned width i - mirrored width a length = length - 1 - (i - a) := by
  have word := Nat.div_add_mod a width
  have place := Nat.div_add_mod i width
  have small := Nat.mod_lt i (show 0 < width by omega)
  have same : i / width = a / width := by
    apply Nat.div_eq_of_lt_le
    · rw [Nat.mul_comm]
      omega
    · rw [Nat.mul_comm, Nat.mul_succ]
      omega
  rw [same] at place
  rw [mirrored, turned]
  omega

theorem turn_store (m : Mem) {bytes : List UInt8} (size : bytes.length = length) :
    turn width (store m (mirrored width a length) bytes) = store (turn width m) a bytes.reverse := by
  funext i
  rw [turn, store_apply, store_apply, List.length_reverse, size]
  by_cases range : a ≤ i ∧ i < a + length
  · rw [if_pos ((turned_mem_iff inside i).mpr range), if_pos range, turned_sub inside range.1 range.2,
      List.getD_eq_getElem _ _ (by omega), List.getD_eq_getElem _ _ (by rw [List.length_reverse]; omega),
      List.getElem_reverse]
    congr 1
    omega
  · rw [if_neg (fun turned => range ((turned_mem_iff inside i).mp turned)), if_neg range, turn]

theorem slice_turn (m : Mem) : slice (turn width m) a length = (slice m (mirrored width a length) length).reverse := by
  have back := turn_store inside m (length_slice m (mirrored width a length) length)
  rw [store_slice] at back
  have read := slice_store (turn width m) a (slice m (mirrored width a length) length).reverse
  rw [← back, List.length_reverse, length_slice] at read
  exact read

end

end

end BelProject.Library.Lanes
