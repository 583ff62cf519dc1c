import BelProject.Fg.SlaveFg

/-! `calc_step_value` and `p_adder`: what is added is the step value as a number, in the two's or in
the ones' complement, times two or times 32. -/

namespace BelProject.Fg.StepValue
open SlaveFg

/-- The number that a step value stands for. -/
def value (twos : Bool) (raw : BitVec 16) : Int := if !twos && raw.msb then raw.toInt + 1 else raw.toInt

def factor (mulBy32 : Bool) : Int := if mulBy32 then 32 else 2

theorem toNat_three {u v w : Nat} (x : BitVec u) (y : BitVec v) (z : BitVec w) :
    (x ++ y ++ z).toNat = (x.toNat * 2 ^ v + y.toNat) * 2 ^ w + z.toNat := by
  rw [BitVec.toNat_append, ← Nat.shiftLeft_add_eq_or_of_lt z.isLt, Nat.shiftLeft_eq, BitVec.toNat_append,
    ← Nat.shiftLeft_add_eq_or_of_lt y.isLt, Nat.shiftLeft_eq]

theorem stepValue_toNat (mulBy32 twos : Bool) (raw : BitVec 16) :
    ((stepValue mulBy32 twos raw).toNat : Int) =
      factor mulBy32 * value twos raw - (if !twos && raw.msb then 1 else 0) + (if raw.msb then 2 ^ 32 else 0) := by
  have low : (raw.extractLsb' 0 15).toNat = raw.toNat % 2 ^ 15 := by
    rw [BitVec.extractLsb'_toNat, Nat.shiftRight_zero]
  have size := raw.isLt
  have sign : raw.msb = decide (2 ^ 15 ≤ raw.toNat) := BitVec.msb_eq_decide raw
  have number : raw.toInt = raw.toNat - (if raw.msb then 2 ^ 16 else 0) := by
    rw [BitVec.toInt_eq_msb_cond]
    split_ifs <;> simp
  have high32 : (BitVec.replicate 12 (BitVec.ofBool raw.msb)).toNat = if raw.msb then 2 ^ 12 - 1 else 0 := by
    cases raw.msb <;> decide
  have high2 : (BitVec.replicate 16 (BitVec.ofBool raw.msb)).toNat = if raw.msb then 2 ^ 16 - 1 else 0 := by
    cases raw.msb <;> decide
  have low32 : (BitVec.replicate 5 (BitVec.ofBool (if twos then false else raw.msb))).toNat =
    if !twos && raw.msb then 31 else 0 := by
    cases raw.msb <;> cases twos <;> decide
  have low2 : (BitVec.ofBool (if twos then false else raw.msb)).toNat = if !twos && raw.msb then 1 else 0 := by
    cases raw.msb <;> cases twos <;> decide
  cases mulBy32 with
  | true =>
    have step : (stepValue true twos raw).toNat = _ :=
      toNat_three (BitVec.replicate 12 (BitVec.ofBool raw.msb)) (raw.extractLsb' 0 15)
      (BitVec.replicate 5 (BitVec.ofBool (if twos then false else raw.msb)))
    rw [step, high32, low, low32, factor, value, number]
    cases negative : raw.msb with
    | false =>
      have small : ¬2 ^ 15 ≤ raw.toNat := of_decide_eq_false (sign.symm.trans negative)
      rw [Bool.and_false]
      simp only [Bool.false_eq_true, if_false, if_true]
      omega
    | true =>
      have big : 2 ^ 15 ≤ raw.toNat := of_decide_eq_true (sign.symm.trans negative)
      cases twos <;> simp only [Bool.not_false, Bool.not_true, Bool.and_self, Bool.false_and,
        Bool.false_eq_true, if_false, if_true] <;> omega
  | false =>
    have step : (stepValue false twos raw).toNat = _ :=
      toNat_three (BitVec.replicate 16 (BitVec.ofBool raw.msb)) (raw.extractLsb' 0 15)
      (BitVec.ofBool (if twos then false else raw.msb))
    rw [step, high2, low, low2, factor, value, number]
    cases negative : raw.msb with
    | false =>
      have small : ¬2 ^ 15 ≤ raw.toNat := of_decide_eq_false (sign.symm.trans negative)
      rw [Bool.and_false]
      simp only [Bool.false_eq_true, if_false]
      omega
    | true =>
      have big : 2 ^ 15 ≤ raw.toNat := of_decide_eq_true (sign.symm.trans negative)
      cases twos <;> simp only [Bool.not_false, Bool.not_true, Bool.and_self, Bool.false_and,
        Bool.false_eq_true, if_false, if_true] <;> omega

theorem increment_eq (mulBy32 twos : Bool) (raw : BitVec 16) :
    increment mulBy32 twos raw = BitVec.ofInt 32 (factor mulBy32 * value twos raw) := by
  have step := stepValue_toNat mulBy32 twos raw
  have size := (stepValue mulBy32 twos raw).isLt
  have top : (stepValue mulBy32 twos raw).msb = raw.msb := by
    have low : -2 ^ 15 ≤ raw.toInt := BitVec.le_toInt raw
    have high : raw.toInt < 2 ^ 15 := BitVec.toInt_lt
    have sign : raw.msb = decide (raw.toInt < 0) := BitVec.msb_eq_toInt
    rw [BitVec.msb_eq_decide]
    cases negative : raw.msb with
    | false =>
      have pos : ¬raw.toInt < 0 := of_decide_eq_false (sign.symm.trans negative)
      rw [negative, value, negative, factor] at step
      apply decide_eq_false
      cases mulBy32 <;> simp at step <;> omega
    | true =>
      have neg : raw.toInt < 0 := of_decide_eq_true (sign.symm.trans negative)
      rw [negative, value, negative, factor] at step
      apply decide_eq_true
      cases mulBy32 <;> cases twos <;> simp at step <;> omega
  have same : stepValue mulBy32 twos raw = BitVec.ofInt 32
    (factor mulBy32 * value twos raw - if !twos && raw.msb then 1 else 0) := by
    apply BitVec.eq_of_toNat_eq
    rw [BitVec.toNat_ofInt]
    generalize factor mulBy32 * value twos raw - (if !twos && raw.msb then 1 else 0) = number at step ⊢
    split_ifs at step <;> omega
  calc increment mulBy32 twos raw
      = stepValue mulBy32 twos raw + if !twos && (stepValue mulBy32 twos raw).msb then 1 else 0 := rfl
    _ = BitVec.ofInt 32 (factor mulBy32 * value twos raw - if !twos && raw.msb then 1 else 0) +
          BitVec.ofInt 32 (if !twos && raw.msb then 1 else 0) := by
        rw [top, same]
        cases !twos && raw.msb <;> rfl
    _ = BitVec.ofInt 32 (factor mulBy32 * value twos raw) := by rw [← BitVec.ofInt_add, sub_add_cancel]

end BelProject.Fg.StepValue
