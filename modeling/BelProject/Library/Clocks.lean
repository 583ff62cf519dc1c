import Mathlib.Data.Nat.Count
import Mathlib.Tactic.Common

/-! The clocks in which a signal is on. -/

namespace BelProject.Library.Clocks

/-- The clocks before t in which the signal is on. -/
def clocks (signal : ℕ → Bool) (t : ℕ) : ℕ := Nat.count (fun k => signal k = true) t

def between (signal : ℕ → Bool) (s t : ℕ) : ℕ := clocks signal t - clocks signal s

variable {signal : ℕ → Bool} {s t : ℕ}

theorem clocks_succ (signal : ℕ → Bool) (t : ℕ) : clocks signal (t + 1) = clocks signal t + if signal t then 1 else 0 :=
  Nat.count_succ (fun k => signal k = true) t

theorem clocks_mono (early : s ≤ t) : clocks signal s ≤ clocks signal t := Nat.count_monotone _ early

theorem clocks_lt (on : signal s = true) (early : s < t) : clocks signal s < clocks signal t :=
  Nat.count_strict_mono on early

theorem clocks_le (t : ℕ) : clocks signal t ≤ t := Nat.count_le _

theorem clocks_quiet (early : s ≤ t) (off : ∀ k, s ≤ k → k < t → signal k = false) :
    clocks signal t = clocks signal s := by
  induction t, early using Nat.le_induction with
  | base => rfl
  | succ t early ih =>
    rw [clocks_succ, off t early (Nat.lt_succ_self t), ih fun k from_ upTo => off k from_ (Nat.lt_succ_of_lt upTo)]
    simp

theorem clocks_zero_iff : clocks signal t = 0 ↔ ∀ k < t, signal k = false := by
  rw [clocks, Nat.count_iff_forall_not]
  simp

theorem exists_last (on : signal s = true) (early : s < t) :
    ∃ last, s ≤ last ∧ last < t ∧ signal last = true ∧ ∀ k, last < k → k < t → signal k = false := by
  induction t, Nat.succ_le_of_lt early using Nat.le_induction with
  | base => exact ⟨s, Nat.le_refl s, Nat.lt_succ_self s, on, fun k above below => by omega⟩
  | succ t later ih =>
    cases top : signal t with
    | true => exact ⟨t, by omega, Nat.lt_succ_self t, top, fun k above below => by omega⟩
    | false =>
      obtain ⟨last, from_, upTo, high, quiet⟩ := ih (by omega)
      refine ⟨last, from_, Nat.lt_succ_of_lt upTo, high, fun k above below => ?_⟩
      rcases Nat.lt_succ_iff_lt_or_eq.mp below with below | rfl
      · exact quiet k above below
      · exact top

theorem exists_first (on : signal t = true) : ∃ first, first ≤ t ∧ signal first = true ∧ clocks signal first = 0 := by
  have some : ∃ k, signal k = true := ⟨t, on⟩
  refine ⟨Nat.find some, Nat.find_min' some on, Nat.find_spec some, clocks_zero_iff.mpr fun k early => ?_⟩
  exact Bool.eq_false_of_not_eq_true (Nat.find_min some early)

theorem between_self (signal : ℕ → Bool) (t : ℕ) : between signal t t = 0 := Nat.sub_self _

theorem between_succ (early : s ≤ t) : between signal s (t + 1) = between signal s t + if signal t then 1 else 0 := by
  have mono : clocks signal s ≤ clocks signal t := clocks_mono early
  rw [between, between, clocks_succ]
  omega

theorem between_le (early : s ≤ t) : between signal s t ≤ t - s := by
  induction t, early using Nat.le_induction with
  | base => exact Nat.le_of_eq (by rw [between_self, Nat.sub_self])
  | succ t early ih =>
    rw [between_succ early]
    split_ifs <;> omega

theorem between_quiet (early : s ≤ t) (off : ∀ k, s ≤ k → k < t → signal k = false) : between signal s t = 0 := by
  rw [between, clocks_quiet early off, Nat.sub_self]

theorem between_add {m : ℕ} (early : s ≤ m) (late : m ≤ t) :
    between signal s t = between signal s m + between signal m t := by
  have first : clocks signal s ≤ clocks signal m := clocks_mono early
  have second : clocks signal m ≤ clocks signal t := clocks_mono late
  rw [between, between, between]
  omega

end BelProject.Library.Clocks
