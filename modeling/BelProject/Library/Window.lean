import Mathlib.Data.Nat.Count

/-! The last values of a history, the newest at place 0, and how many of them have a property. -/

namespace BelProject.Library.Window

universe u
variable {α : Type u}

def push (value : α) (past : ℕ → α) : ℕ → α
  | 0 => value
  | k + 1 => past k

@[simp] theorem push_zero (value : α) (past : ℕ → α) : push value past 0 = value := rfl

@[simp] theorem push_succ (value : α) (past : ℕ → α) (k : ℕ) : push value past (k + 1) = past k := rfl

section
variable (p : α → Prop) [DecidablePred p]

/-- How many of the last n values have the property. -/
def among (n : ℕ) (past : ℕ → α) : ℕ := Nat.count (fun k => p (past k)) n

theorem among_le (n : ℕ) (past : ℕ → α) : among p n past ≤ n := Nat.count_le _

theorem among_succ (n : ℕ) (past : ℕ → α) : among p (n + 1) past = among p n past + if p (past n) then 1 else 0 :=
  Nat.count_succ (fun k => p (past k)) n

theorem among_push_succ (n : ℕ) (value : α) (past : ℕ → α) :
    among p (n + 1) (push value past) = among p n past + if p value then 1 else 0 :=
  Nat.count_succ' (fun k => p (push value past k)) n

theorem among_push (n : ℕ) (value : α) (past : ℕ → α) :
    among p (n + 1) (push value past) + (if p (past n) then 1 else 0) =
      among p (n + 1) past + if p value then 1 else 0 := by
  rw [among_push_succ, among_succ]
  omega

variable {p}

theorem among_le_one {n m : ℕ} {past : ℕ → α} (only : ∀ k < n, k ≠ m → ¬p (past k)) : among p n past ≤ 1 := by
  induction n with
  | zero => exact Nat.le_succ_of_le (among_le p 0 past)
  | succ n ih =>
    rw [among_succ]
    by_cases last : n = m
    · have none : among p n past = 0 :=
        Nat.count_of_forall_not fun k early => only k (Nat.lt_succ_of_lt early) (by omega)
      rw [none]
      split_ifs <;> omega
    · rw [if_neg (only n (Nat.lt_succ_self n) last)]
      exact ih fun k early => only k (Nat.lt_succ_of_lt early)

theorem le_among_succ {n m : ℕ} {past : ℕ → α} (others : ∀ k < n, k ≠ m → p (past k)) : n ≤ among p n past + 1 := by
  induction n with
  | zero => exact Nat.zero_le _
  | succ n ih =>
    rw [among_succ]
    by_cases last : n = m
    · have all : among p n past = n := Nat.count_of_forall fun k early => others k (Nat.lt_succ_of_lt early) (by omega)
      rw [all]
      omega
    · rw [if_pos (others n (Nat.lt_succ_self n) last)]
      have before := ih fun k early => others k (Nat.lt_succ_of_lt early)
      omega

end

end BelProject.Library.Window
