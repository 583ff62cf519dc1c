import BelProject.Library.Clocks
import BelProject.Library.Traces

/-! A level that follows its samples late: a counter goes away from its rest with each sample of the
other level and back with each one of the same level, and the level changes when it has gone far
enough. -/

namespace BelProject.Library.Hysteresis
open Clocks Traces

structure State where
  level : Bool
  /-- how far the counter is away from its rest at this level -/
  away : ℕ

def step (n : ℕ) (s : State) (sample : Bool) : State :=
  if sample = s.level then { s with away := s.away - 1 }
  else if s.away < n then { s with away := s.away + 1 }
  else { level := sample, away := 0 }

/-- The clocks with a sample of the level. -/
def on (level : Bool) (samples : ℕ → Bool) (k : ℕ) : Bool := samples k == level

/-- The counter was at its rest in clock r for the last time, and counts the samples since then. -/
structure Since (s : ℕ → State) (samples : ℕ → Bool) (r t : ℕ) : Prop where
  early : r ≤ t
  rest : (s r).away = 0
  moving : ∀ k, r < k → k ≤ t → (s k).away ≠ 0
  same : ∀ k, r ≤ k → k ≤ t → (s k).level = (s t).level
  count : between (on (!(s t).level) samples) r t = between (on (s t).level samples) r t + (s t).away

variable {n : ℕ} {s : State} {sample : Bool} {samples : ℕ → Bool} {r t : ℕ}

theorem step_back (same : sample = s.level) : step n s sample = { s with away := s.away - 1 } := if_pos same

theorem step_away (other : sample ≠ s.level) (near : s.away < n) : step n s sample = { s with away := s.away + 1 } := by
  rw [step, if_neg other, if_pos near]

theorem step_change (other : sample ≠ s.level) (far : n ≤ s.away) :
    step n s sample = { level := sample, away := 0 } := by
  rw [step, if_neg other, if_neg (Nat.not_lt_of_le far)]

theorem level_step (changes : (step n s sample).level ≠ s.level) :
    sample = !s.level ∧ n ≤ s.away ∧ (step n s sample).level = !s.level := by
  by_cases same : sample = s.level
  · rw [step_back same] at changes
    exact absurd rfl changes
  · have other : sample = !s.level := by
      cases sample <;> cases level : s.level <;> simp_all
    rcases Nat.lt_or_ge s.away n with near | far
    · rw [step_away same near] at changes
      exact absurd rfl changes
    · rw [step_change same far]
      exact ⟨other, far, other⟩

theorem since_rest {trace : ℕ → State} (rest : (trace t).away = 0) : Since trace samples t t where
  early := Nat.le_refl t
  rest := rest
  moving := fun k above upTo => absurd above (Nat.not_lt_of_le upTo)
  same := fun k from_ upTo => by rw [Nat.le_antisymm upTo from_]
  count := by rw [between_self, between_self, rest]

theorem Since.succ {trace : ℕ → State} (since : Since trace samples r t)
    (next : trace (t + 1) = step n (trace t) (samples t))
    (moves : (trace (t + 1)).away ≠ 0) : Since trace samples r (t + 1) := by
  have moving : ∀ k, r < k → k ≤ t + 1 → (trace k).away ≠ 0 := by
    intro k above upTo
    rcases Nat.le_succ_iff.mp upTo with upTo | rfl
    · exact since.moving k above upTo
    · exact moves
  have kept (level : (trace (t + 1)).level = (trace t).level) :
      ∀ k, r ≤ k → k ≤ t + 1 → (trace k).level = (trace (t + 1)).level := by
    intro k from_ upTo
    rcases Nat.le_succ_iff.mp upTo with upTo | rfl
    · exact (since.same k from_ upTo).trans level.symm
    · rfl
  by_cases same : samples t = (trace t).level
  · have back := next.trans (step_back same)
    have level : (trace (t + 1)).level = (trace t).level := by rw [back]
    refine ⟨Nat.le_succ_of_le since.early, since.rest, moving, kept level, ?_⟩
    have here : on (trace t).level samples t = true := beq_iff_eq.mpr same
    have other : on (!(trace t).level) samples t = false := by
      rw [on, same]
      cases (trace t).level <;> rfl
    rw [level, between_succ since.early, between_succ since.early, here, other, since.count,
      if_neg Bool.false_ne_true, if_pos rfl]
    rw [back] at moves ⊢
    change (trace t).away - 1 ≠ 0 at moves
    change _ = _ + ((trace t).away - 1)
    omega
  · rcases Nat.lt_or_ge (trace t).away n with near | far
    · have onward := next.trans (step_away same near)
      have level : (trace (t + 1)).level = (trace t).level := by rw [onward]
      refine ⟨Nat.le_succ_of_le since.early, since.rest, moving, kept level, ?_⟩
      have here : on (trace t).level samples t = false := beq_eq_false_iff_ne.mpr same
      have other : on (!(trace t).level) samples t = true := beq_iff_eq.mpr (Bool.eq_not.mpr same)
      rw [level, between_succ since.early, between_succ since.early, here, other, since.count,
        if_neg Bool.false_ne_true, if_pos rfl,
        onward]
      exact Nat.add_right_comm _ 0 _
    · rw [next.trans (step_change same far)] at moves
      exact absurd rfl moves

theorem exists_since (rest : s.away = 0) (t : ℕ) : ∃ r, Since (trace (step n) s samples) samples r t := by
  induction t with
  | zero => exact ⟨0, since_rest rest⟩
  | succ t ih =>
    obtain ⟨r, since⟩ := ih
    by_cases back : (trace (step n) s samples (t + 1)).away = 0
    · exact ⟨t + 1, since_rest back⟩
    · exact ⟨r, since.succ (trace_succ t) back⟩

/-- When the level changes, the samples of the new level have been n more than those of the old one. -/
theorem exists_excess (rest : s.away = 0)
    (changes : (trace (step n) s samples (t + 1)).level ≠ (trace (step n) s samples t).level) :
    ∃ r, Since (trace (step n) s samples) samples r t ∧
      between (on (trace (step n) s samples t).level samples) r t + n ≤
        between (on (trace (step n) s samples (t + 1)).level samples) r t := by
  obtain ⟨r, since⟩ := exists_since rest t
  obtain ⟨_, far, level⟩ := level_step changes
  refine ⟨r, since, ?_⟩
  rw [trace_succ, level, since.count]
  exact Nat.add_le_add_left far _

theorem level_quiet (rest : s.away = 0) {len : ℕ} (short : len < n)
    (back : ∀ k, len ≤ k → k < t → samples k = s.level) :
    (trace (step n) s samples t).level = s.level := by
  induction t with
  | zero => rfl
  | succ t ih =>
    have before := ih fun k from_ upTo => back k from_ (Nat.lt_succ_of_lt upTo)
    by_contra changes
    rw [← before] at changes
    obtain ⟨r, since, excess⟩ := exists_excess rest changes
    have level := (level_step changes).2.2
    rw [trace_succ, level, before] at excess
    -- Only the samples of the pulse are of the other level.
    have few : between (on (!s.level) samples) r t ≤ len := by
      have mono : between (on (!s.level) samples) r t ≤ between (on (!s.level) samples) 0 t := by
        rw [between_add (Nat.zero_le r) since.early]
        exact Nat.le_add_left _ _
      apply mono.trans
      rcases Nat.le_total t len with inside | behind
      · exact (between_le (Nat.zero_le t)).trans inside
      · have none : between (on (!s.level) samples) len t = 0 := by
          apply between_quiet behind
          intro k from_ upTo
          rw [on, back k from_ (Nat.lt_succ_of_lt upTo)]
          cases s.level <;> rfl
        rw [between_add (Nat.zero_le len) behind, none, Nat.add_zero]
        exact between_le (Nat.zero_le len)
    omega

end BelProject.Library.Hysteresis
