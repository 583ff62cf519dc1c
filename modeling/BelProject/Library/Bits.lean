import Mathlib.Data.Nat.Bitwise
import Mathlib.Tactic.Ring

/-! Masks and lanes of a machine word as arithmetic. A contiguous mask keeps a
residue, a mask with a cleared low end rounds down, and joining a rounded value
with a short one is addition. -/

namespace BelProject.Library.Bits

theorem and_mask_range (value : Nat) {low high : Nat} (ordered : low ≤ high) :
    value &&& (2 ^ high - 2 ^ low) = value % 2 ^ high - value % 2 ^ low := by
  obtain ⟨width, rfl⟩ := Nat.exists_eq_add_of_le ordered
  have mask : 2 ^ (low + width) - 2 ^ low = (2 ^ width - 1) <<< low := by
    rw [Nat.shiftLeft_eq, Nat.sub_mul, pow_add]
    ring_nf
  have kept : value % 2 ^ (low + width) - value % 2 ^ low = (value >>> low % 2 ^ width) <<< low := by
    rw [Nat.shiftRight_eq_div_pow, Nat.shiftLeft_eq, pow_add, Nat.mod_mul, Nat.add_sub_cancel_left,
      Nat.mul_comm]
  rw [mask, kept]
  apply Nat.eq_of_testBit_eq
  intro i
  simp only [Nat.testBit_and, Nat.testBit_shiftLeft, Nat.testBit_two_pow_sub_one,
    Nat.testBit_mod_two_pow, Nat.testBit_shiftRight]
  by_cases inside : low ≤ i
  · simp [inside, Bool.and_comm]
  · simp [inside]

theorem or_lane {value lane low : Nat} (short : lane < 2 ^ low) :
    (value - value % 2 ^ low) ||| lane = value - value % 2 ^ low + lane := by
  have rounded : value - value % 2 ^ low = (value / 2 ^ low) <<< low := by
    rw [Nat.shiftLeft_eq, Nat.mul_comm]
    have := Nat.mod_add_div value (2 ^ low)
    omega
  rw [rounded, Nat.shiftLeft_add_eq_or_of_lt short]

def setBit {width : Nat} (word : BitVec width) (k : Nat) (bit : Bool) : BitVec width :=
  if bit then word ||| BitVec.twoPow width k else word &&& ~~~BitVec.twoPow width k

theorem getLsbD_setBit {width k : Nat} (word : BitVec width) (inside : k < width) (bit : Bool) (j : Nat) :
    (setBit word k bit).getLsbD j = if j = k then bit else word.getLsbD j := by
  unfold setBit
  by_cases same : j = k
  · subst same
    cases bit with
    | true => simp [inside]
    | false => simp [inside]
  · rw [if_neg same]
    by_cases short : j < width
    · have other : (BitVec.twoPow width k).getLsbD j = false := by
        rw [BitVec.getLsbD_twoPow]
        simp [Ne.symm same]
      cases bit with
      | true => rw [if_pos rfl, BitVec.getLsbD_or, other, Bool.or_false]
      | false =>
        rw [if_neg Bool.false_ne_true, BitVec.getLsbD_and, BitVec.getLsbD_not, other]
        simp [short]
    · rw [BitVec.getLsbD_of_ge _ _ (Nat.le_of_not_lt short), BitVec.getLsbD_of_ge _ _ (Nat.le_of_not_lt short)]

end BelProject.Library.Bits
