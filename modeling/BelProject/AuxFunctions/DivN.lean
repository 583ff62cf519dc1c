import BelProject.Library.Divider
import BelProject.Library.Traces
import Mathlib.Data.BitVec
import Mathlib.Data.Nat.Log

/-! `div_n`: a counter that goes down with the enable, one bit wider than its load value. The
highest bit is the output, and loads the counter again. -/

namespace BelProject.AuxFunctions.DivN
open Library.Divider Library.Traces

section
variable (n : ℕ)

/-- `integer(ceil(log2(real(n-1))))`. -/
def cDivNWidth : ℕ := Nat.clog 2 (n - 1)

def cLoadVal : BitVec (cDivNWidth n + 1) := BitVec.ofNat _ (n - 2)

def divO (sDivN : BitVec (cDivNWidth n + 1)) : Bool := sDivN.msb

/-- `p_div_n` at a rising edge. The reload does not look at the enable. -/
def clock (sDivN : BitVec (cDivNWidth n + 1)) (ena : Bool) : BitVec (cDivNWidth n + 1) :=
  if sDivN.msb then cLoadVal n
  else if ena then sDivN - 1
  else sDivN

/-- The counter as a number, below zero when the highest bit is set. -/
def count (load : ℤ) (ena : Bool) (cnt : ℤ) : ℤ := if cnt < 0 then load else if ena then cnt - 1 else cnt

def output (ena : ℕ → Bool) (t : ℕ) : Bool := divO n (trace (clock n) (cLoadVal n) ena t)

end

/-- Each divider of a chain divides what enables it, with pulses of one clock, the chain divides by
the product, and no load value has the highest bit. -/
structure Divided (ns : List ℕ) (ena : ℕ → Bool) : Prop where
  each : ∀ stage ∈ stages output ns ena, Divides stage.1 stage.2 (output stage.1 stage.2)
  whole : Divides ns.prod ena (chain output ns ena)
  single : ∀ stage ∈ stages output ns ena, Sparse (output stage.1 stage.2)
  load : ∀ n ∈ ns, (cLoadVal n).msb = false

variable {n : ℕ} {ena : ℕ → Bool}

theorem msb_left {left : ℕ} (small : left ≤ n - 1) :
    (BitVec.ofNat (cDivNWidth n + 1) left - 1).msb = decide (left = 0) := by
  cases left with
  | zero =>
    rw [decide_eq_true rfl, show BitVec.ofNat (cDivNWidth n + 1) 0 - 1 = BitVec.allOnes (cDivNWidth n + 1) from
      BitVec.zero_sub 1 ▸ BitVec.neg_one_eq_allOnes, BitVec.msb_allOnes (Nat.succ_pos _)]
  | succ m =>
    have wide : n - 1 ≤ 2 ^ cDivNWidth n := Nat.le_pow_clog (by decide) (n - 1)
    have value : (BitVec.ofNat (cDivNWidth n + 1) m).toNat = m := by
      rw [BitVec.toNat_ofNat, Nat.mod_eq_of_lt]
      rw [Nat.pow_succ]
      omega
    have less : BitVec.ofNat (cDivNWidth n + 1) (m + 1) - 1 = BitVec.ofNat (cDivNWidth n + 1) m := by
      rw [BitVec.ofNat_add]
      exact BitVec.add_sub_cancel _ _
    rw [less, BitVec.msb_eq_decide, value, decide_eq_false (Nat.succ_ne_zero m)]
    apply decide_eq_false
    rw [Nat.add_sub_cancel]
    omega

theorem cLoadVal_eq (many : 2 ≤ n) : cLoadVal n = BitVec.ofNat (cDivNWidth n + 1) (n - 1) - 1 := by
  obtain ⟨m, rfl⟩ := Nat.exists_eq_add_of_le' many
  rw [cLoadVal, show m + 2 - 1 = m + 1 by omega, BitVec.ofNat_add]
  exact (BitVec.add_sub_cancel _ _).symm

theorem cLoadVal_msb (many : 2 ≤ n) : (cLoadVal n).msb = false := by
  rw [cLoadVal_eq many, msb_left (Nat.le_refl _)]
  exact decide_eq_false (by omega)

theorem toInt_pred {w : ℕ} {cnt : BitVec (w + 1)} (high : cnt.msb = false) : (cnt - 1).toInt = cnt.toInt - 1 := by
  have low : 0 ≤ cnt.toInt := BitVec.toInt_nonneg_of_msb_false high
  have above : cnt.toInt < 2 ^ w := cnt.toInt_lt
  have one : (1 : BitVec (w + 1)).toInt = Int.bmod 1 (2 ^ (w + 1)) := BitVec.toInt_ofNat' 1
  rw [BitVec.toInt_sub, one, Int.sub_bmod_bmod]
  apply Int.bmod_eq_of_le <;> push_cast <;> rw [pow_succ] <;> omega

theorem clock_toInt (many : 2 ≤ n) (sDivN : BitVec (cDivNWidth n + 1)) (ena : Bool) :
    (clock n sDivN ena).toInt = count (n - 2) ena sDivN.toInt := by
  rw [clock, count]
  cases high : sDivN.msb with
  | true =>
    have wide : n - 1 ≤ 2 ^ cDivNWidth n := Nat.le_pow_clog (by decide) (n - 1)
    have load := BitVec.toInt_eq_toNat_of_msb (cLoadVal_msb many)
    rw [cLoadVal, BitVec.toNat_ofNat, Nat.mod_eq_of_lt (by rw [pow_succ]; omega), Nat.cast_sub many] at load
    rw [if_pos rfl, if_pos (BitVec.toInt_neg_of_msb_true high)]
    exact load
  | false =>
    rw [if_neg Bool.false_ne_true, if_neg (Int.not_lt.mpr (BitVec.toInt_nonneg_of_msb_false high))]
    cases ena with
    | true => exact toInt_pred high
    | false => rfl

theorem trace_eq (many : 2 ≤ n) (t : ℕ) :
    trace (clock n) (cLoadVal n) ena t = BitVec.ofNat (cDivNWidth n + 1) (left n ena t) - 1 := by
  induction t with
  | zero => exact cLoadVal_eq many
  | succ t ih =>
    rw [trace_succ, ih, clock, msb_left (left_le n ena t), left]
    by_cases down : left n ena t = 0
    · rw [if_pos (decide_eq_true down), if_pos down, cLoadVal_eq many]
    · obtain ⟨m, some⟩ := Nat.exists_eq_succ_of_ne_zero down
      rw [if_neg (by rw [decide_eq_false down]; exact Bool.false_ne_true), if_neg down, some, Nat.succ_sub_one]
      cases ena t with
      | false => rfl
      | true =>
        rw [if_pos rfl, if_pos rfl, Nat.succ_eq_add_one, BitVec.ofNat_add]
        exact congrArg (· - 1) (BitVec.add_sub_cancel _ _)

theorem output_eq (many : 2 ≤ n) (ena : ℕ → Bool) : output n ena = pulse n ena := by
  funext t
  rw [output, divO, trace_eq many, msb_left (left_le n ena t), pulse]

theorem chain_output {ns : List ℕ} (many : ∀ n ∈ ns, 2 ≤ n) (ena : ℕ → Bool) :
    chain output ns ena = chain pulse ns ena := by
  induction ns generalizing ena with
  | nil => rfl
  | cons n ns ih =>
    obtain ⟨head, tail⟩ := List.forall_mem_cons.mp many
    rw [chain, chain, output_eq head, ih tail]

theorem stages_output {ns : List ℕ} (many : ∀ n ∈ ns, 2 ≤ n) (ena : ℕ → Bool) :
    stages output ns ena = stages pulse ns ena := by
  induction ns generalizing ena with
  | nil => rfl
  | cons n ns ih =>
    obtain ⟨head, tail⟩ := List.forall_mem_cons.mp many
    rw [stages, stages, output_eq head, ih tail]

theorem two_le_of_stage {out : ℕ → (ℕ → Bool) → ℕ → Bool} {ns : List ℕ} (many : ∀ n ∈ ns, 2 ≤ n)
    {ena : ℕ → Bool} {stage : ℕ × (ℕ → Bool)}
    (member : stage ∈ stages out ns ena) : 2 ≤ stage.1 := by
  induction ns generalizing ena with
  | nil => exact absurd member List.not_mem_nil
  | cons n ns ih =>
    obtain ⟨head, tail⟩ := List.forall_mem_cons.mp many
    rcases List.mem_cons.mp member with rfl | member
    · exact head
    · exact ih tail member

/-- A divider alone divides if the clocks of its pulses are enabled, as they are with a permanent
enable. In a chain the second divider never comes to its second pulse without losing a clock. -/
theorem divided_iff (ns : List ℕ) (many : ∀ n ∈ ns, 2 ≤ n) (ena : ℕ → Bool) : Divided ns ena ↔ Suits ns ena := by
  have same : (∀ stage ∈ stages output ns ena, Divides stage.1 stage.2 (output stage.1 stage.2)) ↔
      ∀ stage ∈ stages pulse ns ena, Divides stage.1 stage.2 (pulse stage.1 stage.2) := by
    rw [stages_output many]
    apply forall₂_congr
    intro stage member
    rw [output_eq (two_le_of_stage many member)]
  rw [← chain_divides_iff many]
  constructor
  · intro divided
    refine ⟨same.mp divided.each, ?_⟩
    rw [← chain_output many]
    exact divided.whole
  · intro both
    constructor
    · exact same.mpr both.1
    · rw [chain_output many]
      exact both.2
    · intro stage member
      have two := two_le_of_stage many member
      rw [output_eq two]
      exact pulse_sparse two
    · exact fun n member => cLoadVal_msb (many n member)

def always : ℕ → Bool := fun _ => true

theorem divided_iff_always : Divided [125] always :=
  (divided_iff [125] (by decide) always).mpr (adjacent_always fun _ => rfl)

def everySecond (t : ℕ) : Bool := t % 2 == 0

/-- With every second clock enabled, the divider by two gives a pulse for each enabled clock, and
two dividers by two in a chain divide by two. -/
theorem reload_loses_enable :
    ¬Divides 2 everySecond (output 2 everySecond) ∧ ¬Divides (2 * 2) always (chain output [2, 2] always) := by
  constructor
  · intro divides
    have turn := divides 1 3 (by decide) (by decide +kernel) (by decide +kernel) fun k above below => by
      obtain rfl : k = 2 := by omega
      decide +kernel
    revert turn
    decide +kernel
  · intro divides
    have turn := divides 2 4 (by decide) (by decide +kernel) (by decide +kernel) fun k above below => by
      obtain rfl : k = 3 := by omega
      decide +kernel
    revert turn
    decide +kernel

end BelProject.AuxFunctions.DivN
