import Mathlib.Data.BitVec
import Mathlib.Data.Nat.ModEq
import Mathlib.Algebra.BigOperators.Group.List.Basic
import Mathlib.Tactic.SplitIfs

/-! Ones'-complement sums, in which a carry out of the top is added in at the bottom. A sum is
the residue of the plain sum modulo `2 ^ w - 1`; the residue zero is all ones, unless every word
is zero. -/

namespace BelProject.Library.OnesComplement

variable {w : Nat}

/-- Addition with end-around carry. -/
def add (a b : BitVec w) : BitVec w := if a.toNat + b.toNat < 2 ^ w then a + b else a + b + 1

def sum (words : List (BitVec w)) : BitVec w := words.foldl add 0

def total (words : List (BitVec w)) : Nat := (words.map BitVec.toNat).sum

/-- The residue of a number, with the modulus for zero where the number is positive. -/
def residue (m n : Nat) : Nat := if n = 0 then 0 else (n - 1) % m + 1

theorem total_cons (word : BitVec w) (words : List (BitVec w)) : total (word :: words) = word.toNat + total words :=
  List.sum_cons

theorem total_append (words more : List (BitVec w)) : total (words ++ more) = total words + total more := by
  rw [total, List.map_append, List.sum_append]
  rfl

theorem total_le (words : List (BitVec w)) : total words ≤ words.length * (2 ^ w - 1) := by
  induction words with
  | nil => exact Nat.zero_le _
  | cons word words ih =>
    have below := word.isLt
    rw [total_cons, List.length_cons, Nat.succ_mul]
    omega

theorem residue_of_le {m n : Nat} (small : n ≤ m) : residue m n = n := by
  rw [residue]
  split_ifs with zero
  · exact zero.symm
  · rw [Nat.mod_eq_of_lt (by omega)]
    omega

theorem residue_add (m a b : Nat) : residue m (residue m a + b) = residue m (a + b) := by
  rcases Nat.eq_zero_or_pos a with rfl | positive
  · rfl
  · have shifted : a + b - 1 = a - 1 + b := by omega
    have here : residue m a = (a - 1) % m + 1 := if_neg positive.ne'
    rw [here, residue, residue, if_neg (by omega), if_neg (by omega), shifted, Nat.add_right_comm, Nat.add_sub_cancel,
      Nat.mod_add_mod]

theorem residue_eq_self_iff {m : Nat} (some : 0 < m) (n : Nat) : residue m n = m ↔ 0 < n ∧ m ∣ n := by
  rw [residue]
  split_ifs with zero
  · rw [zero]
    exact ⟨fun none => absurd none some.ne, fun positive => absurd positive.1 (lt_irrefl 0)⟩
  · have small := Nat.mod_lt (n - 1) some
    have parts := Nat.div_add_mod (n - 1) m
    constructor
    · intro last
      refine ⟨Nat.pos_of_ne_zero zero, (n - 1) / m + 1, ?_⟩
      rw [Nat.mul_succ]
      omega
    · rintro ⟨positive, k, rfl⟩
      obtain ⟨k, rfl⟩ := Nat.exists_eq_succ_of_ne_zero (Nat.pos_of_mul_pos_left positive).ne'
      have split : m * (k + 1) - 1 = m - 1 + m * k := by
        rw [Nat.mul_succ]
        omega
      rw [split, Nat.add_mul_mod_self_left, Nat.mod_eq_of_lt (by omega)]
      omega

theorem toNat_add (a b : BitVec w) : (add a b).toNat = residue (2 ^ w - 1) (a.toNat + b.toNat) := by
  have left := a.isLt
  have right := b.isLt
  rw [add]
  split_ifs with short
  · rw [BitVec.toNat_add_of_lt short, residue_of_le (by omega)]
  · have carried : a.toNat + b.toNat + 1 = a.toNat + b.toNat - (2 ^ w - 1) + 2 ^ w := by omega
    have value : (a + b + 1).toNat = (a.toNat + b.toNat + 1) % 2 ^ w := by
      rw [BitVec.toNat_add, BitVec.toNat_add, show (1 : BitVec w).toNat = 1 % 2 ^ w from rfl, ← Nat.add_mod]
    have rest : a.toNat + b.toNat - 1 = a.toNat + b.toNat - 2 ^ w + (2 ^ w - 1) := by omega
    rw [value, carried, Nat.add_mod_right, Nat.mod_eq_of_lt (by omega), residue, if_neg (by omega),
      rest, Nat.add_mod_right,
      Nat.mod_eq_of_lt (by omega)]
    omega

theorem toNat_foldl (acc : BitVec w) (words : List (BitVec w)) :
    (words.foldl add acc).toNat = residue (2 ^ w - 1) (acc.toNat + total words) := by
  induction words generalizing acc with
  | nil => exact (residue_of_le (by have := acc.isLt; omega)).symm
  | cons word words ih => rw [List.foldl_cons, ih, toNat_add, residue_add, total_cons, Nat.add_assoc]

theorem toNat_sum (words : List (BitVec w)) : (sum words).toNat = residue (2 ^ w - 1) (total words) := by
  rw [sum, toNat_foldl, show (0 : BitVec w).toNat = 0 from Nat.zero_mod _, Nat.zero_add]

theorem sum_eq_allOnes_iff (wide : 0 < w) (words : List (BitVec w)) :
    sum words = BitVec.allOnes w ↔ 0 < total words ∧ 2 ^ w - 1 ∣ total words := by
  have some : 0 < 2 ^ w - 1 := Nat.sub_pos_of_lt (Nat.one_lt_two_pow wide.ne')
  rw [← residue_eq_self_iff some, ← toNat_sum, ← BitVec.toNat_allOnes, BitVec.toNat_inj]

theorem residue_mul_add (m k : Nat) {n : Nat} (positive : 0 < n) : residue m (m * k + n) = residue m n := by
  have rest : m * k + n - 1 = n - 1 + m * k := by omega
  rw [residue, residue, if_neg (by omega), if_neg positive.ne', rest, Nat.add_mul_mod_self_left]

theorem modEq_of_residue {m a b : Nat} (same : residue m a = residue m b) : a ≡ b [MOD m] := by
  rw [residue, residue] at same
  split_ifs at same with left right
  · rw [left, right]
  · have shifted := (show a - 1 ≡ b - 1 [MOD m] from Nat.add_right_cancel same).add_right 1
    rwa [Nat.sub_add_cancel (Nat.pos_of_ne_zero left), Nat.sub_add_cancel (Nat.pos_of_ne_zero ‹_›)] at shifted

/-- A sum in a register of twice the width: the carries are added in, and then the carry of that
addition. -/
theorem fold_carries {n : Nat} (fits : n < 2 ^ w * 2 ^ w) :
    (n / 2 ^ w + n % 2 ^ w + (n / 2 ^ w + n % 2 ^ w) / 2 ^ w) % 2 ^ w = residue (2 ^ w - 1) n := by
  have positive := Nat.two_pow_pos w
  have high : n / 2 ^ w < 2 ^ w := Nat.div_lt_of_lt_mul fits
  have low : n % 2 ^ w < 2 ^ w := Nat.mod_lt _ positive
  have split : n = (2 ^ w - 1) * (n / 2 ^ w) + (n / 2 ^ w + n % 2 ^ w) := by
    rw [← Nat.add_assoc, ← Nat.succ_mul, Nat.succ_eq_add_one, Nat.sub_add_cancel positive, Nat.div_add_mod]
  generalize n / 2 ^ w = hi at *
  generalize n % 2 ^ w = lo at *
  generalize 2 ^ w = m at *
  subst split
  rcases Nat.eq_zero_or_pos (hi + lo) with none | some
  · have zero : hi = 0 := by omega
    rw [none, zero, Nat.mul_zero, Nat.zero_div, Nat.zero_mod]
    rfl
  · rw [residue_mul_add (m - 1) hi some]
    rcases Nat.lt_or_ge (hi + lo) m with short | carried
    · rw [Nat.div_eq_of_lt short, Nat.add_zero, Nat.mod_eq_of_lt short, residue_of_le (by omega)]
    · have one : (hi + lo) / m = 1 := Nat.div_eq_of_lt_le (by omega) (by omega)
      have rest : hi + lo = (m - 1) * 1 + (hi + lo + 1 - m) := by omega
      have wrapped : hi + lo + 1 = hi + lo + 1 - m + m := by omega
      rw [one, wrapped, Nat.add_mod_right, Nat.mod_eq_of_lt (by omega), rest, residue_mul_add _ _ (by omega),
        residue_of_le (by omega)]
      omega

theorem residue_le (m n : Nat) : residue m n ≤ n := by
  rw [residue]
  split_ifs with zero
  · exact Nat.zero_le _
  · have := Nat.mod_le (n - 1) m
    omega

theorem dvd_sub_residue (m n : Nat) : m ∣ n - residue m n := by
  rw [residue]
  split_ifs with zero
  · rw [zero]
    exact Nat.dvd_zero _
  · have parts := Nat.div_add_mod (n - 1) m
    exact ⟨(n - 1) / m, by omega⟩

/-- A check word that is the complement of the sum of some words and a value makes the whole sum
all ones, exactly when nothing was carried out of that last addition. -/
theorem sum_complement_iff (wide : 1 < w) {words all : List (BitVec w)} {value : BitVec w}
    (whole : total all = total words + value.toNat + (~~~(sum words + value)).toNat) :
    sum all = BitVec.allOnes w ↔ (sum words).toNat + value.toNat < 2 ^ w := by
  have space : 2 ^ 2 ≤ 2 ^ w := Nat.pow_le_pow_right (by decide) wide
  have part := toNat_sum words
  have below := residue_le (2 ^ w - 1) (total words)
  have multiple := dvd_sub_residue (2 ^ w - 1) (total words)
  rw [← part] at below multiple
  rw [sum_eq_allOnes_iff (by omega), whole, BitVec.toNat_not, BitVec.toNat_add]
  have left := (sum words).isLt
  have right := value.isLt
  constructor
  · rintro ⟨_, divides⟩
    by_contra carried
    have wraps : ((sum words).toNat + value.toNat) % 2 ^ w = (sum words).toNat + value.toNat - 2 ^ w := by
      rw [Nat.mod_eq_sub_mod (by omega), Nat.mod_eq_of_lt (by omega)]
    have one : total words + value.toNat + (2 ^ w - 1 - ((sum words).toNat + value.toNat) % 2 ^ w) =
        total words - (sum words).toNat + (2 ^ w - 1) * 2 + 1 := by
      rw [wraps]
      omega
    rw [one, Nat.dvd_add_right (Nat.dvd_add multiple (Nat.dvd_mul_right _ _)), Nat.dvd_one] at divides
    omega
  · intro short
    have value : total words + value.toNat + (2 ^ w - 1 - ((sum words).toNat + value.toNat) % 2 ^ w) =
        total words - (sum words).toNat + (2 ^ w - 1) := by
      rw [Nat.mod_eq_of_lt short]
      omega
    rw [value]
    exact ⟨by omega, Nat.dvd_add multiple (Nat.dvd_refl _)⟩

theorem sum_complement (wide : 1 < w) {words all : List (BitVec w)}
    (whole : total all = total words + (~~~sum words).toNat) :
    sum all = BitVec.allOnes w := by
  have zero : (0 : BitVec w).toNat = 0 := Nat.zero_mod _
  have same : sum words + 0 = sum words := BitVec.add_zero _
  apply (sum_complement_iff wide (show total all = total words + (0 : BitVec w).toNat +
    (~~~(sum words + 0)).toNat from ?_)).mpr
  · rw [zero]
    exact (sum words).isLt
  · rw [same, zero, whole, Nat.add_zero]

end BelProject.Library.OnesComplement
