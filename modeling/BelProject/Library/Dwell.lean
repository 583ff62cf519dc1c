import Mathlib.Algebra.Order.Group.Int
import Mathlib.Tactic.Common

/-! A machine that stays in each of its states for a number of clocks, and how long it takes at
least from one state to another. -/

namespace BelProject.Library.Dwell

universe u
variable {σ : Type u}

/-- The state and its counter in each clock. The counter starts at zero in each new state. -/
structure Run (dwell : σ → ℕ) (next : σ → σ → Prop) (state : ℕ → σ) (count : ℕ → ℕ) : Prop where
  start : count 0 = 0
  step : ∀ t, (state (t + 1) = state t ∧ count (t + 1) = count t + 1) ∨
    (count t + 1 = dwell (state t) ∧ next (state t) (state (t + 1)) ∧ count (t + 1) = 0)

/-- The clocks until the machine comes from home to a state, or less. -/
structure Reach (dwell : σ → ℕ) (next : σ → σ → Prop) (home : σ) (reach : σ → ℤ) : Prop where
  home : reach home ≤ 0
  next : ∀ s s', next s s' → reach s' ≤ reach s + dwell s

variable {dwell : σ → ℕ} {next : σ → σ → Prop} {state : ℕ → σ} {count : ℕ → ℕ} {home : σ} {reach : σ → ℤ} {t a b : ℕ}

def First (state : ℕ → σ) (count : ℕ → ℕ) (s : σ) (t : ℕ) : Prop := state t = s ∧ count t = 0

theorem Run.before (run : Run dwell next state count) (later : count t ≠ 0) :
    ∃ k, t = k + 1 ∧ state k = state t ∧ count t = count k + 1 := by
  cases t with
  | zero => exact absurd run.start later
  | succ k =>
    rcases run.step k with ⟨same, more⟩ | ⟨_, _, none⟩
    · exact ⟨k, rfl, same.symm, more⟩
    · exact absurd none later

theorem Run.came {s : σ} (run : Run dwell next state count) (first : First state count s t) (later : t ≠ 0) :
    ∃ k, t = k + 1 ∧ next (state k) s := by
  obtain ⟨k, rfl⟩ := Nat.exists_eq_succ_of_ne_zero later
  rcases run.step k with ⟨_, more⟩ | ⟨_, follows, _⟩
  · rw [Nat.succ_eq_add_one, First, more] at first
    exact absurd first.2 (Nat.succ_ne_zero _)
  · exact ⟨k, rfl, first.1 ▸ follows⟩

theorem Reach.along (bound : Reach dwell next home reach) (run : Run dwell next state count)
    (first : First state count home a) (later : a ≤ b) :
    reach (state b) + count b ≤ b - a := by
  induction b, later using Nat.le_induction with
  | base =>
    rw [first.1, first.2]
    have zero := bound.home
    omega
  | succ b later ih =>
    rcases run.step b with ⟨same, more⟩ | ⟨last, follows, none⟩
    · rw [same, more]
      omega
    · have far := bound.next _ _ follows
      rw [none]
      omega

theorem Reach.first (bound : Reach dwell next home reach) (run : Run dwell next state count) {s : σ}
    (leaves : First state count home a)
    (comes : First state count s b) (later : a ≤ b) : reach s ≤ b - a := by
  have far := bound.along run leaves later
  rw [comes.1, comes.2] at far
  omega

end BelProject.Library.Dwell
