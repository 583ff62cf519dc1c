import Mathlib.Data.Nat.Notation
import Mathlib.Tactic.SplitIfs
import Mathlib.Tactic.Common

/-! A counter that goes down to zero and is loaded again with the clock behind. -/

namespace BelProject.Library.Countdown

def left (first load : ℕ) : ℕ → ℕ
  | 0 => first
  | n + 1 => if left first load n = 0 then load else left first load n - 1

variable {first load : ℕ}

theorem left_first {n : ℕ} (early : n ≤ first) : left first load n = first - n := by
  induction n with
  | zero => rfl
  | succ n ih =>
    rw [left, ih (Nat.le_of_succ_le early), if_neg (by omega)]
    omega

theorem left_turns (n : ℕ) : left first load (first + 1 + n) = load - n % (load + 1) := by
  have zero : left first load first = 0 := by
    rw [left_first (Nat.le_refl first), Nat.sub_self]
  induction n with
  | zero => rw [Nat.add_zero, left, zero, if_pos rfl, Nat.zero_mod, Nat.sub_zero]
  | succ n ih =>
    have small : n % (load + 1) < load + 1 := Nat.mod_lt n (Nat.succ_pos load)
    have turn : (n + 1) % (load + 1) = (n % (load + 1) + 1) % (load + 1) := (Nat.mod_add_mod n (load + 1) 1).symm
    rw [← Nat.add_assoc, left, ih, turn]
    generalize n % (load + 1) = r at small
    split_ifs with done
    · rw [show r + 1 = load + 1 by omega, Nat.mod_self, Nat.sub_zero]
    · rw [Nat.mod_eq_of_lt (by omega)]
      omega

theorem left_zero_iff (n : ℕ) : left first load n = 0 ↔ ∃ m, n = first + m * (load + 1) := by
  rcases Nat.lt_or_ge first n with behind | early
  · obtain ⟨n, rfl⟩ := Nat.exists_eq_add_of_le (Nat.succ_le_of_lt behind)
    have small : n % (load + 1) < load + 1 := Nat.mod_lt n (Nat.succ_pos load)
    have parts := Nat.div_add_mod' n (load + 1)
    rw [Nat.succ_eq_add_one, left_turns]
    constructor
    · intro down
      refine ⟨n / (load + 1) + 1, ?_⟩
      rw [Nat.succ_mul]
      generalize n % (load + 1) = r at *
      generalize n / (load + 1) * (load + 1) = turns at *
      omega
    · rintro ⟨m, turns⟩
      obtain ⟨m, rfl⟩ : ∃ k, m = k + 1 := by
        cases m with
        | zero => omega
        | succ m => exact ⟨m, rfl⟩
      have rest : n = load + (load + 1) * m := by
        rw [Nat.succ_mul, Nat.mul_comm] at turns
        omega
      rw [rest, Nat.add_mul_mod_self_left, Nat.mod_eq_of_lt (Nat.lt_succ_self load), Nat.sub_self]
  · rw [left_first early]
    constructor
    · intro down
      exact ⟨0, by omega⟩
    · rintro ⟨m, turns⟩
      omega

theorem left_le (n : ℕ) : left first load n ≤ max first load := by
  induction n with
  | zero => exact Nat.le_max_left _ _
  | succ n ih =>
    rw [left]
    split_ifs
    · exact Nat.le_max_right _ _
    · omega

end BelProject.Library.Countdown
