import BelProject.Fg.QuadDatapath
import Mathlib.Tactic.LinearCombination
import Mathlib.Tactic.Ring

/-! The values of the quadratic generator: behind the n-th addition the accumulator is the value of
a polynomial of second order. -/

namespace BelProject.Fg.Quadratic
open QuadDatapath

/-- The polynomial, with the coefficients as the shifts place them. -/
def poly (a b c : Int) (n : ℕ) : Int := c + n * b + (n * (n + 1) / 2 : ℕ) * a

theorem poly_succ (a b c : Int) (n : ℕ) : poly a b c (n + 1) = poly a b c n + (b + (n + 1 : ℕ) * a) := by
  have triangle : (n + 1) * (n + 1 + 1) / 2 = n * (n + 1) / 2 + (n + 1) := by
    have twice : (n + 1) * (n + 1 + 1) = n * (n + 1) + (n + 1) * 2 := by ring
    rw [twice, Nat.add_mul_div_right _ _ (by decide)]
  rw [poly, poly, triangle]
  push_cast
  ring

theorem shiftLeft_eq {w : ℕ} (data : BitVec w) (n : ℕ) : shiftLeft data n = BitVec.ofInt 64 (data.toInt * 2 ^ n) := by
  have power : BitVec.twoPow 64 n = BitVec.ofInt 64 (2 ^ n) := by
    have cast : (2 : Int) ^ n = (2 ^ n : ℕ) := by push_cast; rfl
    rw [cast, BitVec.ofInt_natCast]
    exact BitVec.eq_of_toNat_eq (BitVec.toNat_twoPow 64 n)
  rw [shiftLeft, BitVec.signExtend, BitVec.shiftLeft_eq_mul_twoPow, power, BitVec.ofInt_mul]

/-- The datapath with the number of additions to the output. -/
structure World where
  regs : Registers
  updates : ℕ

def step (g : Generics) (w : World) (i : Inputs) : World where
  regs := clock g w.regs i
  updates := w.updates + if w.regs.addLinQuad then 1 else 0

/-- The coefficient is not rewritten, and nothing is loaded. -/
structure Held (a : BitVec 16) (sa : ℕ) (i : Inputs) : Prop where
  free : resets i = false
  loadStart : i.loadStart = false
  dataA : i.dataA = a
  shiftA : i.shiftA = sa

/-- The linear term has grown one step further than the output. -/
def ahead (r : Registers) : ℕ := if r.controlState = .addXQ ∨ r.addLinQuad = true then 1 else 0

structure Pulses (r : Registers) : Prop where
  incQuad : r.incQuad = true ↔ r.controlState = .linInc
  addLinQuad : r.addLinQuad = true → r.controlState = .quadInc

structure Follows (a b c : Int) (w : World) : Prop where
  pulses : Pulses w.regs
  aReg : w.regs.aReg = BitVec.ofInt 64 a
  qReg : w.regs.qReg = BitVec.ofInt 64 (b + (w.updates + ahead w.regs : ℕ) * a)
  xReg : w.regs.xReg = BitVec.ofInt 64 (poly a b c w.updates)

variable {g : Generics} {r : Registers} {w : World} {i : Inputs}

section
variable (free : resets i = false)
include free

theorem clock_eq :
    (clock g r i).controlState = controlNext g r i ∧ (clock g r i).incQuad = (reloads r || advances g r i) ∧
      (clock g r i).addLinQuad = (r.controlState == .addXQ) := by
  rw [clock, free]
  exact ⟨rfl, rfl, rfl⟩

theorem begins_iff : (clock g r i).incQuad = true ↔ (clock g r i).controlState = .linInc := by
  obtain ⟨state, pulse, _⟩ := clock_eq (g := g) (r := r) free
  rw [state, pulse, reloads, advances, controlNext]
  cases r.controlState with
  | quadInc => cases stpReached r <;> cases r.coeffRcvd <;> cases freqEn g r i <;> simp
  | idle => cases i.syncStart <;> simp
  | _ => simp

theorem adds_iff : (clock g r i).controlState = .addXQ ↔ r.controlState = .linInc := by
  rw [(clock_eq free).1, controlNext]
  cases r.controlState with
  | quadInc => cases stpReached r <;> cases r.coeffRcvd <;> cases freqEn g r i <;> simp
  | idle => cases i.syncStart <;> simp
  | _ => simp

theorem pulses_clock : Pulses (clock g r i) where
  incQuad := begins_iff free
  addLinQuad := by
    obtain ⟨state, _, pulse⟩ := clock_eq (g := g) (r := r) free
    intro on
    rw [pulse, beq_iff_eq] at on
    rw [state, controlNext, on]

theorem ahead_clock (pulses : Pulses r) :
    ahead (clock g r i) + (if r.addLinQuad then 1 else 0) = ahead r + if r.incQuad then 1 else 0 := by
  have next : ahead (clock g r i) = if r.controlState = .linInc ∨ r.controlState = .addXQ then 1 else 0 := by
    rw [ahead]
    apply if_congr _ rfl rfl
    rw [adds_iff free, (clock_eq free).2.2, beq_iff_eq]
  have add : r.controlState ≠ .quadInc → r.addLinQuad = false := by
    intro other
    exact Bool.eq_false_iff.mpr fun on => other (pulses.addLinQuad on)
  rw [next, ahead, if_congr pulses.incQuad rfl rfl]
  by_cases first : r.controlState = .linInc
  · rw [add (by rw [first]; exact CntrlType.noConfusion), first]
    rfl
  · rw [if_neg first]
    by_cases second : r.controlState = .addXQ
    · rw [add (by rw [second]; exact CntrlType.noConfusion), second]
      rfl
    · rw [if_neg (not_or_intro first second), Nat.zero_add, Nat.add_zero]
      exact if_congr ⟨Or.inr, fun some => some.resolve_left second⟩ rfl rfl

end

theorem Follows.step {a : BitVec 16} {sa : ℕ} {b c : Int} (follows : Follows (a.toInt * 2 ^ sa) b c w)
    (held : Held a sa i) :
    Follows (a.toInt * 2 ^ sa) b c (step g w i) := by
  have grows := ahead_clock (g := g) held.free follows.pulses
  refine ⟨pulses_clock held.free, ?_, ?_, ?_⟩
  · change (clock g w.regs i).aReg = _
    rw [clock, held.free, if_neg Bool.false_ne_true]
    dsimp only
    rw [held.dataA, held.shiftA, shiftLeft_eq, follows.aReg]
    exact ite_self _
  · have next : (clock g w.regs i).qReg = if w.regs.incQuad then w.regs.qReg + w.regs.aReg else w.regs.qReg := by
      rw [clock, held.free, if_neg Bool.false_ne_true]
      dsimp only
      rw [held.loadStart, if_neg Bool.false_ne_true]
    have total : (Quadratic.step g w i).updates + ahead (Quadratic.step g w i).regs =
        w.updates + ahead w.regs + if w.regs.incQuad then 1 else 0 := by
      change w.updates + (if w.regs.addLinQuad then 1 else 0) + ahead (clock g w.regs i) = _
      omega
    change (clock g w.regs i).qReg = _
    rw [next, total, follows.qReg, follows.aReg]
    cases w.regs.incQuad with
    | false => rfl
    | true =>
      rw [if_pos rfl, if_pos rfl, ← BitVec.ofInt_add]
      congr 1
      push_cast
      ring
  · have next : (clock g w.regs i).xReg = if w.regs.addLinQuad then w.regs.xReg + w.regs.qReg else w.regs.xReg := by
      rw [clock, held.free, if_neg Bool.false_ne_true]
      dsimp only
      rw [held.loadStart, if_neg Bool.false_ne_true]
    change (clock g w.regs i).xReg = BitVec.ofInt 64 (poly _ _ _ (w.updates + if w.regs.addLinQuad then 1 else 0))
    rw [next, follows.xReg]
    cases add : w.regs.addLinQuad with
    | false => rfl
    | true =>
      have one : ahead w.regs = 1 := if_pos (Or.inr add)
      rw [if_pos rfl, if_pos rfl, follows.qReg, one, ← BitVec.ofInt_add, poly_succ]

theorem follows_load {before : Registers} {first : Inputs} (idle : before.controlState = .idle)
    (free : resets first = false)
    (here : r = clock g before first) (settled : r.controlState = .idle) (loadFree : resets i = false)
    (load : i.loadStart = true) {a : Int}
    (coefficient : (clock g r i).aReg = BitVec.ofInt 64 a) :
    Follows a (i.dataB.toInt * 2 ^ i.shiftB) (i.dataC.toInt * 2 ^ 40) ⟨clock g r i, 0⟩ := by
  obtain ⟨_, inc, add⟩ := clock_eq (g := g) (r := before) free
  have quiet : r.incQuad = false ∧ r.addLinQuad = false := by
    rw [here, inc, add, reloads, advances, idle]
    exact ⟨rfl, rfl⟩
  obtain ⟨state, _, later⟩ := clock_eq (g := g) (r := r) loadFree
  have none : ahead (clock g r i) = 0 := by
    rw [ahead, state, later, controlNext, settled]
    cases i.syncStart <;> rfl
  refine ⟨pulses_clock loadFree, coefficient, ?_, ?_⟩
  · rw [none, Nat.add_zero, Nat.cast_zero, zero_mul, add_zero, ← shiftLeft_eq]
    change (clock g r i).qReg = _
    rw [clock, loadFree, if_neg Bool.false_ne_true]
    dsimp only
    rw [quiet.1, load, if_neg Bool.false_ne_true, if_pos rfl]
  · have start : poly a (i.dataB.toInt * 2 ^ i.shiftB) (i.dataC.toInt * 2 ^ 40) 0 = i.dataC.toInt * 2 ^ 40 := by
      rw [poly]
      simp
    rw [start, ← shiftLeft_eq]
    change (clock g r i).xReg = _
    rw [clock, loadFree, if_neg Bool.false_ne_true]
    dsimp only
    rw [quiet.2, load, if_neg Bool.false_ne_true, if_pos rfl]

/-- Behind the n-th addition since the start values were loaded, the accumulator is the value of the
polynomial, whatever the steps and their timing are. -/
theorem accumulator_poly (g : Generics) (before : Registers) (first i : Inputs) (a : BitVec 16) (sa : ℕ)
    (inputs : List Inputs)
    (idle : before.controlState = .idle) (free : resets first = false)
    (settled : (clock g before first).controlState = .idle)
    (loadFree : resets i = false) (load : i.loadStart = true)
    (coefficient : (clock g (clock g before first) i).aReg = shiftLeft a sa) (held : ∀ i ∈ inputs, Held a sa i) :
    let w := inputs.foldl (step g) ⟨clock g (clock g before first) i, 0⟩
    w.regs.xReg = BitVec.ofInt 64 (i.dataC.toInt * 2 ^ 40 + w.updates * (i.dataB.toInt * 2 ^ i.shiftB) +
      (w.updates * (w.updates + 1) / 2 : ℕ) * (a.toInt * 2 ^ sa)) := by
  rw [shiftLeft_eq] at coefficient
  have loaded := follows_load idle free rfl settled loadFree load coefficient
  have run : ∀ (inputs : List Inputs) (w : World),
    Follows (a.toInt * 2 ^ sa) (i.dataB.toInt * 2 ^ i.shiftB) (i.dataC.toInt * 2 ^ 40) w →
      (∀ i ∈ inputs, Held a sa i) →
      Follows (a.toInt * 2 ^ sa) (i.dataB.toInt * 2 ^ i.shiftB) (i.dataC.toInt * 2 ^ 40) (inputs.foldl (step g) w) := by
    intro inputs
    induction inputs with
    | nil => exact fun _ follows _ => follows
    | cons next inputs ih =>
      intro w follows held
      exact ih _ (follows.step (held next List.mem_cons_self)) fun other later =>
        held other (List.mem_cons_of_mem _ later)
  exact (run inputs _ loaded held).xReg

def blank : Registers :=
  { aReg := 0, qReg := 0, xReg := 0, freqCnt := 0, controlState := .idle, incQuad := false,
    incLin := false, addLinQuad := false
    coeffRcvd := false, freqCntEn := true, stepCnt := 0, stopped := false, running := false }

def waits : Inputs :=
  { dataA := 3, dataB := -1, dataC := 5, nrst := true, syncRst := false, aEn := false,
    loadStart := false, syncStart := false
    stepSel := 0, shiftA := 1, shiftB := 0, freqSel := 7 }

def loads : Inputs := { waits with aEn := true, loadStart := true, syncStart := true }

/-- At 50 MHz, with a tick in 25 clocks. -/
theorem accumulator_poly_twice :
    ((List.replicate 60 waits).foldl (step ⟨50000000⟩)
      ⟨clock ⟨50000000⟩ (clock ⟨50000000⟩ blank waits) loads, 0⟩).updates = 2 ∧
      ((List.replicate 60 waits).foldl (step ⟨50000000⟩)
        ⟨clock ⟨50000000⟩ (clock ⟨50000000⟩ blank waits) loads, 0⟩).regs.xReg =
        BitVec.ofInt 64 (5 * 2 ^ 40 + 2 * -1 + 3 * 6) := by
  have updates : ((List.replicate 60 waits).foldl (step ⟨50000000⟩)
      ⟨clock ⟨50000000⟩ (clock ⟨50000000⟩ blank waits) loads, 0⟩).updates = 2 := by decide +kernel
  have value := accumulator_poly ⟨50000000⟩ blank waits loads 3 1 (List.replicate 60 waits) rfl rfl
    (by decide) rfl rfl (by decide)
    (fun i member => by rw [List.eq_of_mem_replicate member]; exact ⟨rfl, rfl, rfl, rfl⟩)
  dsimp only at value
  rw [updates] at value
  exact ⟨updates, value.trans (by decide)⟩

end BelProject.Fg.Quadratic
