import BelProject.Library.Hysteresis
import Mathlib.Data.BitVec
import Mathlib.Data.Nat.Log

/-! `Debounce`: an up/down counter of the samples, as wide as the logarithm of `DB_Cnt`. A count
that is a power of two does not fit into it. -/

namespace BelProject.AuxFunctions.Debounce
open Library Library.Clocks Library.Hysteresis Library.Traces

structure Generics where
  dbCnt : ℕ
  dbTstCnt : ℕ
  test : Bool

def cDbCntLen (g : Generics) : ℕ := Nat.clog 2 g.dbCnt

structure Registers (g : Generics) where
  dbInSync : Bool
  dbCnt : BitVec (cDbCntLen g)
  dbOut : Bool
  deriving DecidableEq

section
variable (g : Generics)

/-- `to_unsigned` cuts off what does not fit. -/
def dbOnCnt : BitVec (cDbCntLen g) := if g.test then BitVec.ofNat _ g.dbTstCnt else BitVec.ofNat _ g.dbCnt

def reset : Registers g := { dbInSync := false, dbCnt := 0, dbOut := false }

/-- `P_Debounce` at a rising edge. -/
def clock (r : Registers g) (dbIn : Bool) : Registers g :=
  if r.dbInSync then
    if r.dbCnt < dbOnCnt g then { r with dbInSync := dbIn, dbCnt := r.dbCnt + 1 }
    else { r with dbInSync := dbIn, dbOut := true }
  else
    if 0 < r.dbCnt then { r with dbInSync := dbIn, dbCnt := r.dbCnt - 1 }
    else { r with dbInSync := dbIn, dbOut := false }

def restValue (dbOut : Bool) : BitVec (cDbCntLen g) := if dbOut then dbOnCnt g else 0

end

variable {g : Generics}

def AtRest (r : Registers g) : Prop := r.dbCnt = restValue g r.dbOut

instance (r : Registers g) : Decidable (AtRest r) := inferInstanceAs (Decidable (r.dbCnt = restValue g r.dbOut))

def samples (s : ℕ → Registers g) (t : ℕ) : Bool := (s t).dbInSync

/-- What a debouncer is for. -/
structure Debounced (s : ℕ → Registers g) (inputs : ℕ → Bool) : Prop where
  /-- since its last rest the counter has seen the new level so many times more than the old one -/
  changes : ∀ t, (s (t + 1)).dbOut ≠ (s t).dbOut → ∃ r ≤ t, (s r).dbOut = (s t).dbOut ∧ AtRest (s r) ∧
    (∀ k, r < k → k ≤ t → (s k).dbCnt ≠ restValue g (s t).dbOut) ∧
    between (on (s t).dbOut (samples s)) r t + g.dbCnt ≤ between (on (s (t + 1)).dbOut (samples s)) r t
  /-- a pulse of the input that the counter meets at its rest -/
  quiet : ∀ a len t, AtRest (s (a + 1)) → len < g.dbCnt → a ≤ t →
    (∀ k, a + len ≤ k → k < t → inputs k = (s (a + 1)).dbOut) →
    (s (t + 1)).dbOut = (s (a + 1)).dbOut

/-- The level is the output, and the counter goes away from its rest. -/
def view (r : Registers g) : State :=
  { level := r.dbOut, away := if r.dbOut then g.dbCnt - r.dbCnt.toNat else r.dbCnt.toNat }

section
variable {r : Registers g} {dbIn : Bool} {inputs : ℕ → Bool}

theorem dbOnCnt_toNat (product : g.test = false) (fits : g.dbCnt < 2 ^ cDbCntLen g) : (dbOnCnt g).toNat = g.dbCnt := by
  rw [dbOnCnt, product, if_neg Bool.false_ne_true, BitVec.toNat_ofNat, Nat.mod_eq_of_lt fits]

theorem toNat_succ {w : ℕ} {x y : BitVec w} (below : x < y) : (x + 1).toNat = x.toNat + 1 := by
  have bound : x.toNat + 1 < 2 ^ w := Nat.lt_of_le_of_lt (BitVec.lt_def.mp below) y.isLt
  have one : (1 : BitVec w).toNat = 1 := Nat.mod_eq_of_lt (show 1 < 2 ^ w by omega)
  rw [BitVec.toNat_add, one, Nat.mod_eq_of_lt bound]

theorem toNat_pred {w : ℕ} {x : BitVec w} (positive : 0 < x) : (x - 1).toNat = x.toNat - 1 := by
  have some : (0 : BitVec w).toNat < x.toNat := BitVec.lt_def.mp positive
  have bound := x.isLt
  have one : (1 : BitVec w).toNat = 1 := Nat.mod_eq_of_lt (show 1 < 2 ^ w by omega)
  have below : 1 ≤ x := by
    rw [BitVec.le_def, one]
    omega
  rw [BitVec.toNat_sub_of_le below, one]

theorem clock_dbCnt_le (small : r.dbCnt ≤ dbOnCnt g) : (clock g r dbIn).dbCnt ≤ dbOnCnt g := by
  rw [BitVec.le_def] at small ⊢
  rw [clock]
  split_ifs with level below positive
  · have bound := BitVec.lt_def.mp below
    rw [toNat_succ below]
    exact bound
  · exact small
  · rw [toNat_pred positive]
    exact Nat.le_trans (Nat.sub_le _ _) small
  · exact small

theorem view_clock (product : g.test = false) (fits : g.dbCnt < 2 ^ cDbCntLen g) (small : r.dbCnt ≤ dbOnCnt g) :
    view (clock g r dbIn) = step g.dbCnt (view r) r.dbInSync := by
  have stop := dbOnCnt_toNat product fits
  have bound := BitVec.le_def.mp small
  rw [stop] at bound
  rw [clock]
  cases level : r.dbInSync with
  | true =>
    rw [if_pos rfl]
    by_cases below : r.dbCnt < dbOnCnt g
    · have less := BitVec.lt_def.mp below
      rw [stop] at less
      rw [if_pos below, view, toNat_succ below]
      cases out : r.dbOut with
      | true =>
        rw [step_back (by rw [view, out])]
        simp [view, out]
        omega
      | false =>
        rw [step_away (by simp [view, out]) (by simpa [view, out] using less)]
        simp [view, out]
    · have full : r.dbCnt.toNat = g.dbCnt := by
        rw [BitVec.lt_def, stop] at below
        omega
      rw [if_neg below, view]
      cases out : r.dbOut with
      | true =>
        rw [step_back (by rw [view, out])]
        simp [view, out, full]
      | false =>
        rw [step_change (by simp [view, out]) (by simp [view, out, full])]
        simp [full]
  | false =>
    rw [if_neg Bool.false_ne_true]
    by_cases positive : 0 < r.dbCnt
    · have some : (0 : BitVec (cDbCntLen g)).toNat < r.dbCnt.toNat := BitVec.lt_def.mp positive
      rw [if_pos positive, view, toNat_pred positive]
      cases out : r.dbOut with
      | true =>
        rw [step_away (by simp [view, out]) (by simp [view, out]; omega)]
        simp [view, out]
        omega
      | false =>
        rw [step_back (by rw [view, out])]
        simp [view, out]
    · have zero : r.dbCnt.toNat = 0 := by
        rw [BitVec.lt_def] at positive
        exact Nat.eq_zero_of_not_pos positive
      rw [if_neg positive, view]
      cases out : r.dbOut with
      | true =>
        rw [step_change (by simp [view, out]) (by simp [view, out, zero])]
        simp [zero]
      | false =>
        rw [step_back (by rw [view, out])]
        simp [view, out, zero]

theorem restValue_le (dbOut : Bool) : restValue g dbOut ≤ dbOnCnt g := by
  cases dbOut with
  | false => simp [restValue, BitVec.le_def]
  | true => exact BitVec.le_refl _

theorem restValue_iff (product : g.test = false) (fits : g.dbCnt < 2 ^ cDbCntLen g) (small : r.dbCnt ≤ dbOnCnt g) :
    r.dbCnt = restValue g r.dbOut ↔ (view r).away = 0 := by
  have stop := dbOnCnt_toNat product fits
  have bound := BitVec.le_def.mp small
  rw [stop] at bound
  rw [BitVec.toNat_inj.symm, restValue, view]
  cases r.dbOut with
  | true =>
    rw [if_pos rfl, stop]
    simp
    omega
  | false => simp

theorem trace_small (settled : AtRest r) (inputs : ℕ → Bool) (t : ℕ) :
    (trace (clock g) r inputs t).dbCnt ≤ dbOnCnt g := by
  induction t with
  | zero => exact (congrArg (· ≤ dbOnCnt g) settled).mpr (restValue_le _)
  | succ t ih => exact clock_dbCnt_le ih

theorem view_trace (product : g.test = false) (fits : g.dbCnt < 2 ^ cDbCntLen g) (settled : AtRest r)
    (inputs : ℕ → Bool) (t : ℕ) :
    view (trace (clock g) r inputs t) = trace (step g.dbCnt) (view r) (samples (trace (clock g) r inputs)) t := by
  induction t with
  | zero => rfl
  | succ t ih =>
    rw [trace_succ, view_clock product fits (trace_small settled inputs t), ih]
    rfl

theorem samples_succ (t : ℕ) : samples (trace (clock g) r inputs) (t + 1) = inputs t := by
  rw [samples, trace_succ, clock]
  split_ifs <;> rfl

theorem quiet_of_fits (product : g.test = false) (fits : g.dbCnt < 2 ^ cDbCntLen g) (settled : AtRest r)
    {len t : ℕ} (short : len < g.dbCnt)
    (back : ∀ k, len ≤ k → k < t → samples (trace (clock g) r inputs) k = r.dbOut) :
    (trace (clock g) r inputs t).dbOut = r.dbOut := by
  have rest : (view r).away = 0 := by
    apply (restValue_iff product fits ?_).mp settled
    exact trace_small settled inputs 0
  have level := level_quiet (n := g.dbCnt) rest short back
  rw [← view_trace product fits settled] at level
  exact level

theorem debounced_of_fits (product : g.test = false) (fits : g.dbCnt < 2 ^ cDbCntLen g)
    (settled : AtRest r) (inputs : ℕ → Bool) :
    Debounced (trace (clock g) r inputs) inputs where
  changes := by
    intro t change
    have small (k : ℕ) := trace_small settled inputs k
    have seen (k : ℕ) := view_trace product fits settled inputs k
    have rest : (view r).away = 0 := (restValue_iff product fits (small 0)).mp settled
    have level : (trace (step g.dbCnt) (view r) (samples (trace (clock g) r inputs)) (t + 1)).level ≠
        (trace (step g.dbCnt) (view r) (samples (trace (clock g) r inputs)) t).level := by
      rw [← seen, ← seen]
      exact change
    obtain ⟨last, since, excess⟩ := exists_excess rest level
    have same (k : ℕ) (from_ : last ≤ k) (upTo : k ≤ t) :
        (trace (clock g) r inputs k).dbOut = (trace (clock g) r inputs t).dbOut := by
      have levels := since.same k from_ upTo
      rw [← seen, ← seen] at levels
      exact levels
    refine ⟨last, since.early, same last (Nat.le_refl last) since.early, ?_, ?_, ?_⟩
    · apply (restValue_iff product fits (small last)).mpr
      rw [seen]
      exact since.rest
    · intro k above upTo
      rw [← same k (Nat.le_of_lt above) upTo, Ne, restValue_iff product fits (small k), seen]
      exact since.moving k above upTo
    · rw [← seen, ← seen] at excess
      exact excess
  quiet := by
    intro a len t rest short later back
    obtain ⟨d, rfl⟩ := Nat.exists_eq_add_of_le later
    have shifted (k : ℕ) : trace (clock g) r inputs (a + 1 + k) =
        trace (clock g) (trace (clock g) r inputs (a + 1)) (fun m => inputs (a + 1 + m)) k := trace_add (a + 1) k
    rw [show a + d + 1 = a + 1 + d by omega, shifted]
    apply quiet_of_fits product fits rest short
    intro k from_ upTo
    rw [samples, ← shifted, ← back (a + k) (by omega) (by omega), show a + 1 + k = a + k + 1 by omega]
    exact samples_succ (a + k)

theorem fits_iff : g.dbCnt < 2 ^ cDbCntLen g ↔ ∀ e, g.dbCnt ≠ 2 ^ e := by
  constructor
  · intro fits e power
    rw [cDbCntLen, power, Nat.clog_pow 2 e (by decide)] at fits
    exact absurd fits (Nat.lt_irrefl _)
  · intro other
    exact Nat.lt_of_le_of_ne (Nat.le_pow_clog (by decide) g.dbCnt) (other _)

theorem dbOnCnt_zero (product : g.test = false) {e : ℕ} (power : g.dbCnt = 2 ^ e) : dbOnCnt g = 0 := by
  rw [dbOnCnt, product, if_neg Bool.false_ne_true]
  apply BitVec.eq_of_toNat_eq
  rw [BitVec.toNat_ofNat, cDbCntLen, power, Nat.clog_pow 2 e (by decide), Nat.mod_self]
  rfl

section
variable (none : dbOnCnt g = 0)
include none

theorem clock_of_zero (zero : r.dbCnt = 0) : (clock g r dbIn).dbCnt = 0 ∧ (clock g r dbIn).dbOut = r.dbInSync := by
  have irrefl : ¬(0 : BitVec (cDbCntLen g)) < 0 := BitVec.lt_irrefl 0
  rw [clock, none, zero]
  cases r.dbInSync with
  | true =>
    rw [if_pos rfl, if_neg irrefl]
    exact ⟨rfl, rfl⟩
  | false =>
    rw [if_neg Bool.false_ne_true, if_neg irrefl]
    exact ⟨rfl, rfl⟩

theorem trace_of_zero (settled : AtRest r) (t : ℕ) : (trace (clock g) r inputs t).dbCnt = 0 := by
  induction t with
  | zero =>
    rw [trace, settled, restValue, none]
    exact ite_self _
  | succ t ih => exact (clock_of_zero none ih).1

theorem follows_of_zero (settled : AtRest r) (t : ℕ) :
    (trace (clock g) r inputs (t + 1)).dbOut = samples (trace (clock g) r inputs) t :=
  (clock_of_zero none (trace_of_zero none settled t)).2

theorem still_of_debounced (positive : 0 < g.dbCnt) (settled : AtRest r)
    (debounced : Debounced (trace (clock g) r inputs) inputs) (t : ℕ) :
    (trace (clock g) r inputs t).dbOut = r.dbOut := by
  induction t with
  | zero => rfl
  | succ t ih =>
    by_contra change
    obtain ⟨last, early, _, _, moving, excess⟩ := debounced.changes t (by rw [ih]; exact change)
    have rest : last = t := by
      by_contra before
      apply moving t (by omega) (Nat.le_refl t)
      rw [trace_of_zero none settled, restValue, none]
      exact (ite_self _).symm
    rw [rest, between_self, between_self, Nat.zero_add] at excess
    exact absurd excess (Nat.not_le_of_lt positive)

theorem still_of_same (settled : AtRest r) (first : r.dbInSync = r.dbOut) (rest : ∀ t, inputs t = r.dbOut) (t : ℕ) :
    (trace (clock g) r inputs t).dbOut = r.dbOut := by
  match t with
  | 0 => rfl
  | 1 => exact (follows_of_zero none settled 0).trans first
  | t + 2 => rw [follows_of_zero none settled, samples_succ, rest]

end

theorem debounced_of_still (still : ∀ t, (trace (clock g) r inputs t).dbOut = r.dbOut) :
    Debounced (trace (clock g) r inputs) inputs where
  changes := by
    intro t change
    exact absurd ((still (t + 1)).trans (still t).symm) change
  quiet := by
    intro a len t _ _ _ _
    rw [still, still]

/-- The debouncer is right if its count is not a power of two, and otherwise as long as nothing
happens at its input. -/
theorem debounced_iff (g : Generics) (product : g.test = false) (r : Registers g) (settled : AtRest r)
    (inputs : ℕ → Bool) :
    Debounced (trace (clock g) r inputs) inputs ↔
      (∀ e, g.dbCnt ≠ 2 ^ e) ∨ (r.dbInSync = r.dbOut ∧ ∀ t, inputs t = r.dbOut) := by
  by_cases other : ∀ e, g.dbCnt ≠ 2 ^ e
  · exact iff_of_true (debounced_of_fits product (fits_iff.mpr other) settled inputs) (Or.inl other)
  · obtain ⟨e, power⟩ := not_forall_not.mp other
    have none : dbOnCnt g = 0 := dbOnCnt_zero product power
    constructor
    · intro debounced
      have positive : 0 < g.dbCnt := by
        rw [power]
        exact Nat.two_pow_pos e
      have still := still_of_debounced none positive settled debounced
      right
      constructor
      · exact (follows_of_zero none settled 0).symm.trans (still 1)
      · intro t
        have sampled : samples (trace (clock g) r inputs) (t + 1) = inputs t := samples_succ t
        rw [← sampled, ← follows_of_zero none settled, still]
    · rintro (fits | ⟨first, rest⟩)
      · exact absurd fits other
      · exact debounced_of_still (still_of_same none settled first rest)

end

/-- The smallest count, and an input that bounces. -/
theorem debounced_iff_three : Debounced (trace (clock ⟨3, 3, false⟩) (reset _) fun t => t % 2 == 0)
    (fun t => t % 2 == 0) ↔
    (∀ e, 3 ≠ 2 ^ e) ∨ ((reset ⟨3, 3, false⟩).dbInSync = (reset ⟨3, 3, false⟩).dbOut ∧
      ∀ t, (t % 2 == 0) = (reset ⟨3, 3, false⟩).dbOut) :=
  debounced_iff ⟨3, 3, false⟩ rfl (reset _) rfl fun t => t % 2 == 0

/-- With a count of four, a pulse of one clock goes through. -/
theorem four_lets_pulse_through : (trace (clock ⟨4, 4, false⟩) (reset _) (fun t => t == 0) 2).dbOut = true ∧
    ¬Debounced (trace (clock ⟨4, 4, false⟩) (reset _) fun t => t == 0) (fun t => t == 0) := by
  have up : (trace (clock ⟨4, 4, false⟩) (reset _) (fun t => t == 0) 2).dbOut = true := by decide +kernel
  refine ⟨up, fun debounced => ?_⟩
  have low := debounced.quiet 0 1 1 (by decide +kernel) (by decide) (by decide) fun k from_ upTo => by omega
  rw [up] at low
  revert low
  decide +kernel

end BelProject.AuxFunctions.Debounce
