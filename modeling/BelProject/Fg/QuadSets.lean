import BelProject.Fg.Quadratic

/-! The sets of the quadratic generator, with the increments and the distance of the strobes. A set
counts one step less than is selected before it ends, and the next one begins with an increment at
once. -/

namespace BelProject.Fg.QuadSets
open QuadDatapath Quadratic Library.Runs
open CntrlType (noConfusion)

/-- The datapath with what the host had written when the running set began, the increments of that
set, the strobes, and the clocks since the last one. -/
structure World where
  regs : Registers
  own : Inputs
  increments : ℕ
  strobes : ℕ
  since : ℕ

section
variable (g : Generics) (w : World) (i : Inputs)

/-- The start, or a new coefficient at the end of a set. -/
def begins (r : Registers) (i : Inputs) : Bool := (r.controlState == .idle && i.syncStart) || reloads r

def ends (r : Registers) : Bool := r.controlState == .quadInc && stpReached r

def step : World where
  regs := clock g w.regs i
  own := if begins w.regs i then i else w.own
  increments := (if begins w.regs i then 0 else w.increments) + if reloads w.regs || advances g w.regs i then 1 else 0
  strobes := w.strobes + if w.regs.addLinQuad then 1 else 0
  since := if w.regs.addLinQuad then 1 else w.since + 1

/-- The linear increment and the start value of the linear term, where the shifts place them. -/
def a (own : Inputs) : BitVec 64 := shiftLeft own.dataA own.shiftA
def b (own : Inputs) : BitVec 64 := shiftLeft own.dataB own.shiftB

/-- What is asked of a clock: a set that ends has made its selected number of increments, they are
made with its own coefficients, and the strobes are one period apart. -/
structure Correct : Prop where
  number : ends w.regs = true → w.increments = cStepCnt w.own.stepSel + 2
  aReg : w.regs.incQuad = true → w.regs.aReg = a w.own
  qReg : w.regs.addLinQuad = true → w.regs.qReg = b w.own + BitVec.ofNat 64 w.increments * a w.own
  period : w.regs.addLinQuad = true → 0 < w.strobes → w.since = cFreqCnt g w.own.freqSel + 2

/-- No reset, no other start, and the start values stay. -/
structure Undisturbed : Prop where
  free : resets i = false
  loadStart : i.loadStart = false
  syncStart : i.syncStart = false

/-- The coefficient and the frequency are still those of the set, where they are taken over. -/
structure Kept : Prop where
  aEn : i.aEn = true → a i = a w.own
  freqSel : freqEn g w.regs i = true → cFreqCnt g i.freqSel = cFreqCnt g w.own.freqSel

end

/-- A start in idle with the coefficients in their registers, of a frequency that leaves the three
clocks of a step and the high bit of the divider. -/
structure Started (g : Generics) (r : Registers) (first : Inputs) : Prop where
  idle : r.controlState = .idle
  free : resets first = false
  syncStart : first.syncStart = true
  aReg : (clock g r first).aReg = a first
  qReg : (clock g r first).qReg = b first
  three : 1 ≤ cFreqCnt g first.freqSel
  high : cFreqCnt g first.freqSel < 2 ^ (cFreqCntWidth g - 1)

def start (g : Generics) (r : Registers) (first : Inputs) : World := ⟨clock g r first, first, 0, 0, 0⟩

variable {g : Generics} {r : Registers} {w : World} {i : Inputs} {k : ℕ}

def Left (g : Generics) (r : Registers) (k : ℕ) :
    Prop := r.freqCnt = (k + 2 ^ cFreqCntWidth g - 1) % 2 ^ cFreqCntWidth g

theorem width_pos (g : Generics) : 2 ^ cFreqCntWidth g = 2 * 2 ^ (cFreqCntWidth g - 1) := by
  rw [cFreqCntWidth, Nat.add_sub_cancel, Nat.pow_succ, Nat.mul_comm]

theorem Left.eq (left : Left g r k) (small : k ≤ 2 ^ (cFreqCntWidth g - 1)) :
    r.freqCnt = if k = 0 then 2 ^ cFreqCntWidth g - 1 else k - 1 := by
  have width := width_pos g
  have some : 0 < 2 ^ (cFreqCntWidth g - 1) := Nat.two_pow_pos _
  rw [left]
  by_cases now : k = 0
  · rw [if_pos now, now, Nat.zero_add]
    exact Nat.mod_eq_of_lt (by omega)
  · rw [if_neg now, show k + 2 ^ cFreqCntWidth g - 1 = k - 1 + 2 ^ cFreqCntWidth g by omega, Nat.add_mod_right]
    exact Nat.mod_eq_of_lt (by omega)

theorem Left.freqEn (left : Left g r k) (small : k ≤ 2 ^ (cFreqCntWidth g - 1))
    (free : resets i = false) (quiet : i.syncStart = false) :
    freqEn g r i = true ↔ k = 0 := by
  have width := width_pos g
  have some : 0 < 2 ^ (cFreqCntWidth g - 1) := Nat.two_pow_pos _
  have value := left.eq small
  rw [QuadDatapath.freqEn, freqCntNow, free, quiet, if_neg (by decide), decide_eq_true_iff, value]
  by_cases now : k = 0
  · rw [if_pos now]
    omega
  · rw [if_neg now]
    omega

theorem Left.load {c : ℕ} (load : r.freqCnt = c % 2 ^ cFreqCntWidth g) : Left g r (c + 1) := by
  rw [Left, load, show c + 1 + 2 ^ cFreqCntWidth g - 1 = c + 2 ^ cFreqCntWidth g by omega, Nat.add_mod_right]

theorem Left.down (left : Left g r (k + 1)) {r' : Registers}
    (next : r'.freqCnt = (r.freqCnt + 2 ^ cFreqCntWidth g - 1) % 2 ^ cFreqCntWidth g) : Left g r' k := by
  have some : 0 < 2 ^ cFreqCntWidth g := Nat.two_pow_pos _
  rw [Left, next, left, show k + 1 + 2 ^ cFreqCntWidth g - 1 = k + 2 ^ cFreqCntWidth g by omega, Nat.add_mod_right,
    Nat.add_sub_assoc some, Nat.add_sub_assoc some, Nat.mod_add_mod]

def busy (r : Registers) : Prop := r.controlState = .quadInc ∨ r.controlState = .linInc ∨ r.controlState = .addXQ

theorem reloads_none (last : ends r = false) : reloads r = false := by
  rw [reloads]
  rw [ends] at last
  rw [last, Bool.false_and]

theorem begins_none (undisturbed : Undisturbed i) (last : ends r = false) : begins r i = false := by
  rw [begins, reloads_none last, undisturbed.syncStart, Bool.and_false, Bool.or_false]

theorem control_clock (free : resets i = false) (last : ends r = false) :
    (r.controlState = .quadInc → (clock g r i).controlState = if freqEn g r i then .linInc else .quadInc) ∧
      (r.controlState = .linInc → (clock g r i).controlState = .addXQ) ∧
      (r.controlState = .addXQ → (clock g r i).controlState = .quadInc) := by
  rw [(clock_eq free).1, controlNext]
  refine ⟨fun here => ?_, fun here => by rw [here], fun here => by rw [here]⟩
  rw [ends, here, beq_self_eq_true, Bool.true_and] at last
  rw [here, last]
  rfl

theorem busy_clock (free : resets i = false) (last : ends r = false) (here : busy r) : busy (clock g r i) := by
  obtain ⟨waits, adds, returns⟩ := control_clock (g := g) free last
  rcases here with here | here | here
  · rw [busy, waits here]
    cases freqEn g r i with
    | false => exact Or.inl rfl
    | true => exact Or.inr (Or.inl rfl)
  · exact Or.inr (Or.inr (adds here))
  · exact Or.inl (returns here)

theorem freqCnt_clock (undisturbed : Undisturbed i) : (clock g r i).freqCnt =
    if freqEn g r i then freqLoad g i
    else if r.freqCntEn then (r.freqCnt + 2 ^ cFreqCntWidth g - 1) % 2 ^ cFreqCntWidth g
    else r.freqCnt := by
  rw [clock, undisturbed.free, if_neg Bool.false_ne_true]
  dsimp only
  rw [freqCntNext, undisturbed.free, undisturbed.syncStart, Bool.false_or, if_neg Bool.false_ne_true]

theorem freqCntEn_clock (free : resets i = false) (here : busy r) : (clock g r i).freqCntEn = true := by
  rw [clock, free, if_neg Bool.false_ne_true]
  dsimp only
  rcases here with here | here | here
  all_goals rw [here]; rfl

theorem advances_iff (last : ends r = false) :
    advances g r i = true ↔ r.controlState = .quadInc ∧ freqEn g r i = true := by
  rw [advances, Bool.and_eq_true, Bool.and_eq_true, beq_iff_eq, Bool.not_eq_true']
  constructor
  · rintro ⟨⟨state, _⟩, tick⟩
    exact ⟨state, tick⟩
  · rintro ⟨state, tick⟩
    rw [ends, state, beq_self_eq_true, Bool.true_and] at last
    exact ⟨⟨state, last⟩, tick⟩

def stepping (r : Registers) : Prop := r.controlState = .linInc ∨ r.controlState = .addXQ ∨ r.addLinQuad = true

/-- With a tick in k clocks and c clocks to load, the last strobe has been a fixed time ago. -/
structure Paced (g : Generics) (c : ℕ) (w : World) (k : ℕ) : Prop where
  left : Left g w.regs k
  most : k ≤ c + 1
  held : w.regs.freqCntEn = false → w.regs.controlState = .quadInc ∧ w.regs.addLinQuad = false ∧
    w.strobes = 0 ∧ k = c + 1
  linInc : w.regs.controlState = .linInc → k = c + 1
  addXQ : w.regs.controlState = .addXQ → k = c
  strobe : w.regs.addLinQuad = true → k + 1 = c
  underway : 0 < w.strobes → stepping w.regs → k + w.since = 2 * c + 1
  waiting : 0 < w.strobes → ¬ stepping w.regs → k + w.since + 1 = c

theorem Paced.on {c : ℕ} (paced : Paced g c w (k + 1)) (small : c < 2 ^ (cFreqCntWidth g - 1))
    (undisturbed : Undisturbed i) (counts : w.regs.freqCntEn = true) :
    Left g (clock g w.regs i) k := by
  have tick := paced.left.freqEn (by have := paced.most; omega) undisturbed.free undisturbed.syncStart
  apply paced.left.down
  rw [freqCnt_clock undisturbed, if_neg (by rw [tick]; omega), if_pos counts]

theorem strobes_clock (pulses : Pulses w.regs) (other : w.regs.controlState ≠ .quadInc) :
    (step g w i).strobes = w.strobes ∧ (step g w i).since = w.since + 1 := by
  have off : w.regs.addLinQuad = false := Bool.eq_false_iff.mpr fun on => other (pulses.addLinQuad on)
  rw [step, off]
  exact ⟨rfl, rfl⟩

section
variable {c : ℕ}

theorem Paced.tick (paced : Paced g c w 0) (here : w.regs.controlState = .quadInc) (last : ends w.regs = false)
    (undisturbed : Undisturbed i) (kept : freqEn g w.regs i = true → cFreqCnt g i.freqSel = c) :
    Paced g c (step g w i) (c + 1) := by
  have now := (paced.left.freqEn (Nat.zero_le _) undisturbed.free undisturbed.syncStart).mpr rfl
  have state := (control_clock (g := g) undisturbed.free last).1 here
  rw [now, if_pos rfl] at state
  have strobe : (clock g w.regs i).addLinQuad = false := by rw [(clock_eq undisturbed.free).2.2, here]; rfl
  have counts := freqCntEn_clock (g := g) undisturbed.free (Or.inl here)
  constructor
  · apply Left.load
    change (clock g w.regs i).freqCnt = _
    rw [freqCnt_clock undisturbed, now, if_pos rfl, freqLoad, kept now]
  · exact le_rfl
  · exact fun off => absurd (counts.symm.trans off) Bool.noConfusion
  · exact fun _ => rfl
  · exact fun back => absurd (state.symm.trans back) noConfusion
  · exact fun on => absurd (strobe.symm.trans on) Bool.noConfusion
  · intro some _
    change c + 1 + (if w.regs.addLinQuad then 1 else w.since + 1) = 2 * c + 1
    change 0 < w.strobes + (if w.regs.addLinQuad then 1 else 0) at some
    cases on : w.regs.addLinQuad with
    | true =>
      have := paced.strobe on
      rw [if_pos rfl]
      omega
    | false =>
      rw [on, if_neg Bool.false_ne_true] at some
      rw [if_neg Bool.false_ne_true]
      have waited := paced.waiting some (by rw [stepping, here, on]; decide)
      omega
  · exact fun _ away => absurd (Or.inl state) away

theorem Paced.wait (paced : Paced g c w (k + 1)) (small : c < 2 ^ (cFreqCntWidth g - 1))
    (here : w.regs.controlState = .quadInc)
    (last : ends w.regs = false) (undisturbed : Undisturbed i) (counts : w.regs.freqCntEn = true) :
    Paced g c (step g w i) k := by
  have later : freqEn g w.regs i = false := by
    apply Bool.eq_false_iff.mpr
    rw [Ne, paced.left.freqEn (by have := paced.most; omega) undisturbed.free undisturbed.syncStart]
    omega
  have state := (control_clock (g := g) undisturbed.free last).1 here
  rw [later, if_neg Bool.false_ne_true] at state
  have strobe : (clock g w.regs i).addLinQuad = false := by rw [(clock_eq undisturbed.free).2.2, here]; rfl
  have on := freqCntEn_clock (g := g) undisturbed.free (Or.inl here)
  constructor
  · exact paced.on small undisturbed counts
  · exact Nat.le_of_succ_le paced.most
  · exact fun off => absurd (on.symm.trans off) Bool.noConfusion
  · exact fun back => absurd (state.symm.trans back) noConfusion
  · exact fun back => absurd (state.symm.trans back) noConfusion
  · exact fun on => absurd (strobe.symm.trans on) Bool.noConfusion
  · rintro _ (back | back | back)
    · exact absurd (state.symm.trans back) noConfusion
    · exact absurd (state.symm.trans back) noConfusion
    · exact absurd (strobe.symm.trans back) Bool.noConfusion
  · intro some _
    change k + (if w.regs.addLinQuad then 1 else w.since + 1) + 1 = c
    change 0 < w.strobes + (if w.regs.addLinQuad then 1 else 0) at some
    cases on : w.regs.addLinQuad with
    | true =>
      have := paced.strobe on
      rw [if_pos rfl]
      omega
    | false =>
      rw [on, if_neg Bool.false_ne_true] at some
      rw [if_neg Bool.false_ne_true]
      have waited := paced.waiting some (by rw [stepping, here, on]; decide)
      omega

theorem Paced.stand (paced : Paced g c w k) (small : c < 2 ^ (cFreqCntWidth g - 1)) (last : ends w.regs = false)
    (undisturbed : Undisturbed i) (held : w.regs.freqCntEn = false) : Paced g c (step g w i) k := by
  obtain ⟨here, quiet, none, full⟩ := paced.held held
  have later : freqEn g w.regs i = false := by
    apply Bool.eq_false_iff.mpr
    rw [Ne, paced.left.freqEn (by omega) undisturbed.free undisturbed.syncStart]
    omega
  have state := (control_clock (g := g) undisturbed.free last).1 here
  rw [later, if_neg Bool.false_ne_true] at state
  have strobe : (clock g w.regs i).addLinQuad = false := by rw [(clock_eq undisturbed.free).2.2, here]; rfl
  have on := freqCntEn_clock (g := g) undisturbed.free (Or.inl here)
  have still : (step g w i).strobes = 0 := by
    change w.strobes + (if w.regs.addLinQuad then 1 else 0) = 0
    rw [none, quiet]
    rfl
  constructor
  · change (clock g w.regs i).freqCnt = _
    rw [freqCnt_clock undisturbed, later, held, if_neg Bool.false_ne_true, if_neg Bool.false_ne_true, paced.left]
  · exact paced.most
  · exact fun off => absurd (on.symm.trans off) Bool.noConfusion
  · exact fun back => absurd (state.symm.trans back) noConfusion
  · exact fun back => absurd (state.symm.trans back) noConfusion
  · exact fun on => absurd (strobe.symm.trans on) Bool.noConfusion
  · exact fun some => absurd still (Nat.ne_of_gt some)
  · exact fun some => absurd still (Nat.ne_of_gt some)

theorem Paced.add (paced : Paced g c w k) (small : c < 2 ^ (cFreqCntWidth g - 1)) (pulses : Pulses w.regs)
    (here : w.regs.controlState = .linInc) (last : ends w.regs = false) (undisturbed : Undisturbed i) :
    Paced g c (step g w i) c := by
  have full := paced.linInc here
  subst full
  have other : w.regs.controlState ≠ .quadInc := by rw [here]; exact noConfusion
  have counts : w.regs.freqCntEn = true := by
    by_contra off
    exact other (paced.held (Bool.eq_false_iff.mpr off)).1
  have state := (control_clock (g := g) undisturbed.free last).2.1 here
  have strobe : (clock g w.regs i).addLinQuad = false := by rw [(clock_eq undisturbed.free).2.2, here]; rfl
  have on := freqCntEn_clock (g := g) undisturbed.free (Or.inr (Or.inl here))
  obtain ⟨strobes, since⟩ := strobes_clock (g := g) (i := i) pulses other
  constructor
  · exact paced.on small undisturbed counts
  · exact Nat.le_succ c
  · exact fun off => absurd (on.symm.trans off) Bool.noConfusion
  · exact fun back => absurd (state.symm.trans back) noConfusion
  · exact fun _ => rfl
  · exact fun on => absurd (strobe.symm.trans on) Bool.noConfusion
  · intro some _
    rw [strobes] at some
    have before := paced.underway some (Or.inl here)
    rw [since]
    omega
  · exact fun _ away => absurd (Or.inr (Or.inl state)) away

theorem Paced.back (paced : Paced g (c + 1) w k) (small : c + 1 < 2 ^ (cFreqCntWidth g - 1)) (pulses : Pulses w.regs)
    (here : w.regs.controlState = .addXQ) (last : ends w.regs = false) (undisturbed : Undisturbed i) :
    Paced g (c + 1) (step g w i) c := by
  have full := paced.addXQ here
  subst full
  have other : w.regs.controlState ≠ .quadInc := by rw [here]; exact noConfusion
  have counts : w.regs.freqCntEn = true := by
    by_contra off
    exact other (paced.held (Bool.eq_false_iff.mpr off)).1
  have state := (control_clock (g := g) undisturbed.free last).2.2 here
  have strobe : (clock g w.regs i).addLinQuad = true := by rw [(clock_eq undisturbed.free).2.2, here]; rfl
  have on := freqCntEn_clock (g := g) undisturbed.free (Or.inr (Or.inr here))
  obtain ⟨strobes, since⟩ := strobes_clock (g := g) (i := i) pulses other
  constructor
  · exact paced.on small undisturbed counts
  · omega
  · exact fun off => absurd (on.symm.trans off) Bool.noConfusion
  · exact fun back => absurd (state.symm.trans back) noConfusion
  · exact fun back => absurd (state.symm.trans back) noConfusion
  · exact fun _ => rfl
  · intro some _
    rw [strobes] at some
    have before := paced.underway some (Or.inr (Or.inl here))
    rw [since]
    omega
  · exact fun _ away => absurd (Or.inr (Or.inr strobe)) away

theorem Paced.step (paced : Paced g c w k) (three : 1 ≤ c) (small : c < 2 ^ (cFreqCntWidth g - 1))
    (pulses : Pulses w.regs)
    (here : busy w.regs) (last : ends w.regs = false) (undisturbed : Undisturbed i)
    (kept : freqEn g w.regs i = true → cFreqCnt g i.freqSel = c) : ∃ k, Paced g c (step g w i) k := by
  rcases here with here | here | here
  · cases held : w.regs.freqCntEn with
    | false => exact ⟨k, paced.stand small last undisturbed held⟩
    | true =>
      cases k with
      | zero => exact ⟨c + 1, paced.tick here last undisturbed kept⟩
      | succ k => exact ⟨k, paced.wait small here last undisturbed held⟩
  · exact ⟨c, paced.add small pulses here last undisturbed⟩
  · cases c with
    | zero => exact absurd three (Nat.not_succ_le_zero 0)
    | succ c => exact ⟨c, paced.back small pulses here last undisturbed⟩

end

theorem cStepCnt_bound (sel : BitVec 3) : cStepCnt sel ≤ 31998 := by
  revert sel
  decide

theorem expired_iff {n count : ℕ} (few : n ≤ count + 1) (small : count ≤ 31998) :
    (BitVec.ofInt 16 (count - n)).msb = true ↔ n = count + 1 := by
  rw [BitVec.msb_eq_toInt, decide_eq_true_iff, BitVec.toInt_ofInt]
  have value : Int.bmod (count - n) (2 ^ 16) = count - n := Int.bmod_eq_of_le (by omega) (by omega)
  rw [value]
  omega

/-- The first set, as long as it runs. -/
structure Running (g : Generics) (first : Inputs) (w : World) : Prop where
  own : w.own = first
  busy : busy w.regs
  pulses : Pulses w.regs
  paced : ∃ k, Paced g (cFreqCnt g first.freqSel) w k
  few : w.increments ≤ cStepCnt first.stepSel + 1
  stepCnt : w.regs.stepCnt = BitVec.ofInt 16 (cStepCnt first.stepSel - w.increments)
  aReg : stpReached w.regs = false ∨ w.regs.incQuad = true → w.regs.aReg = a first
  qReg : w.regs.qReg + (if w.regs.incQuad then a first else 0) = b first + BitVec.ofNat 64 w.increments * a first

variable {first : Inputs}

theorem Running.expired (running : Running g first w) :
    stpReached w.regs = true ↔ w.increments = cStepCnt first.stepSel + 1 := by
  rw [stpReached, running.stepCnt]
  exact expired_iff running.few (cStepCnt_bound _)

theorem increments_step (undisturbed : Undisturbed i) (last : ends w.regs = false) :
    (step g w i).increments = w.increments + if advances g w.regs i then 1 else 0 := by
  rw [step, begins_none undisturbed last, reloads_none last]
  rfl

theorem incQuad_clock (undisturbed : Undisturbed i) (last : ends r = false) :
    (clock g r i).incQuad = advances g r i := by
  rw [(clock_eq undisturbed.free).2.1, reloads_none last, Bool.false_or]

theorem stepCnt_clock (undisturbed : Undisturbed i) (last : ends r = false) (here : busy r) :
    (clock g r i).stepCnt = if advances g r i then r.stepCnt - 1 else r.stepCnt := by
  have running : (r.controlState == .idle) = false := by
    rcases here with here | here | here
    all_goals rw [here]; rfl
  rw [clock, undisturbed.free, if_neg Bool.false_ne_true]
  dsimp only
  rw [stepCntNext, running, reloads_none last, Bool.false_or, if_neg Bool.false_ne_true]

section
variable (running : Running g first w)
include running

section
variable (last : ends w.regs = false)
include last

section
variable (undisturbed : Undisturbed i)
include undisturbed

theorem Running.stepCnt_step :
    (step g w i).regs.stepCnt = BitVec.ofInt 16 (cStepCnt first.stepSel - (step g w i).increments) := by
  change (clock g w.regs i).stepCnt = _
  rw [stepCnt_clock undisturbed last running.busy, increments_step undisturbed last, running.stepCnt]
  cases advances g w.regs i with
  | false => rfl
  | true =>
    rw [if_pos rfl, if_pos rfl, Nat.cast_add, ← Int.sub_sub, Int.sub_eq_add_neg (b := (1 : ℕ)),
      BitVec.ofInt_add, BitVec.sub_eq_add_neg]
    rfl

theorem Running.few_step : (step g w i).increments ≤ cStepCnt first.stepSel + 1 := by
  have few := running.few
  rw [increments_step undisturbed last]
  cases go : advances g w.regs i with
  | false => exact few
  | true =>
    have state := ((advances_iff last).mp go).1
    rw [ends, state, beq_self_eq_true, Bool.true_and] at last
    have more : w.increments ≠ cStepCnt first.stepSel + 1 :=
      fun all => Bool.false_ne_true (last.symm.trans (running.expired.mpr all))
    rw [if_pos rfl]
    omega

theorem Running.aReg_step (kept : i.aEn = true → a i = a first)
    (now : stpReached (step g w i).regs = false ∨ (step g w i).regs.incQuad = true) :
    (step g w i).regs.aReg = a first := by
  change (clock g w.regs i).aReg = _
  change stpReached (clock g w.regs i) = false ∨ (clock g w.regs i).incQuad = true at now
  have going : stpReached w.regs = false := by
    apply Bool.eq_false_iff.mpr
    intro expired
    have away : w.regs.controlState ≠ .quadInc := by
      intro state
      rw [ends, state, expired] at last
      exact Bool.noConfusion last
    have stay : advances g w.regs i = false := Bool.eq_false_iff.mpr fun go => away ((advances_iff last).mp go).1
    rw [stpReached, stepCnt_clock undisturbed last running.busy, incQuad_clock undisturbed last, stay,
      if_neg Bool.false_ne_true] at now
    rcases now with now | now
    · exact Bool.false_ne_true (now.symm.trans expired)
    · exact Bool.false_ne_true now
  rw [clock, undisturbed.free, if_neg Bool.false_ne_true]
  dsimp only
  rw [going, Bool.or_false]
  cases write : i.aEn with
  | false => exact running.aReg (Or.inl going)
  | true => exact kept write

theorem Running.qReg_step :
    (step g w i).regs.qReg + (if (step g w i).regs.incQuad then a first else 0) =
      b first + BitVec.ofNat 64 (step g w i).increments * a first := by
  have sum : (clock g w.regs i).qReg = w.regs.qReg + if w.regs.incQuad then a first else 0 := by
    rw [clock, undisturbed.free, if_neg Bool.false_ne_true]
    dsimp only
    rw [undisturbed.loadStart, if_neg Bool.false_ne_true]
    cases add : w.regs.incQuad with
    | false => exact (BitVec.add_zero _).symm
    | true => rw [if_pos rfl, if_pos rfl, running.aReg (Or.inr add)]
  change (clock g w.regs i).qReg + (if (clock g w.regs i).incQuad then _ else _) = _
  rw [sum, running.qReg, incQuad_clock undisturbed last, increments_step undisturbed last]
  cases advances g w.regs i with
  | false => exact BitVec.add_zero _
  | true =>
    rw [if_pos rfl, if_pos rfl, BitVec.ofNat_add, BitVec.add_mul, BitVec.one_mul, BitVec.add_assoc]

theorem Running.step (kept : Kept g w i)
    (three : 1 ≤ cFreqCnt g first.freqSel) (high : cFreqCnt g first.freqSel < 2 ^ (cFreqCntWidth g - 1)) :
    Running g first (step g w i) where
  own := by
    change (if begins w.regs i then i else w.own) = first
    rw [begins_none undisturbed last]
    exact running.own
  busy := busy_clock undisturbed.free last running.busy
  pulses := pulses_clock undisturbed.free
  paced := by
    obtain ⟨k, paced⟩ := running.paced
    apply paced.step three high running.pulses running.busy last undisturbed
    intro tick
    rw [← running.own]
    exact kept.freqSel tick
  few := running.few_step last undisturbed
  stepCnt := running.stepCnt_step last undisturbed
  aReg := by
    apply running.aReg_step last undisturbed
    rw [← running.own]
    exact kept.aEn
  qReg := running.qReg_step last undisturbed

end

end

theorem Running.correct_iff : Correct g w ↔ ends w.regs = false := by
  obtain ⟨k, paced⟩ := running.paced
  constructor
  · intro correct
    by_contra now
    rw [Bool.not_eq_false] at now
    have number := correct.number now
    rw [ends, Bool.and_eq_true] at now
    rw [running.expired.mp now.2, running.own] at number
    omega
  · intro last
    constructor
    · exact fun now => absurd (last.symm.trans now) Bool.noConfusion
    · intro add
      rw [running.own]
      exact running.aReg (Or.inr add)
    · intro add
      have state := running.pulses.addLinQuad add
      have off : w.regs.incQuad = false := by
        apply Bool.eq_false_iff.mpr
        rw [Ne, running.pulses.incQuad, state]
        exact noConfusion
      have sum := running.qReg
      rw [off, if_neg Bool.false_ne_true, add_zero] at sum
      rw [running.own, sum]
    · intro add some
      have left := paced.strobe add
      have ago := paced.underway some (Or.inr (Or.inr add))
      rw [running.own]
      omega

end

theorem Started.running (started : Started g r first) : Running g first (start g r first) := by
  have state : (clock g r first).controlState = .quadInc := by
    rw [(clock_eq started.free).1, controlNext, started.idle, started.syncStart]
    rfl
  have quiet : (clock g r first).incQuad = false ∧ (clock g r first).addLinQuad = false := by
    rw [(clock_eq started.free).2.1, (clock_eq started.free).2.2, reloads, advances, started.idle]
    exact ⟨rfl, rfl⟩
  have freqCnt : (clock g r first).freqCnt = cFreqCnt g first.freqSel % 2 ^ cFreqCntWidth g := by
    rw [clock, started.free, if_neg Bool.false_ne_true]
    dsimp only
    rw [freqCntNext, started.syncStart, Bool.or_true, if_pos rfl, freqLoad]
  constructor
  · rfl
  · exact Or.inl state
  · exact pulses_clock started.free
  · refine ⟨cFreqCnt g first.freqSel + 1, ?_⟩
    constructor
    · exact Left.load freqCnt
    · exact le_rfl
    · exact fun _ => ⟨state, quiet.2, rfl, rfl⟩
    · exact fun back => absurd (state.symm.trans back) noConfusion
    · exact fun back => absurd (state.symm.trans back) noConfusion
    · exact fun on => absurd (quiet.2.symm.trans on) Bool.noConfusion
    · exact fun some => absurd some (Nat.lt_irrefl 0)
    · exact fun some => absurd some (Nat.lt_irrefl 0)
  · exact Nat.zero_le _
  · change (clock g r first).stepCnt = _
    rw [clock, started.free, if_neg Bool.false_ne_true]
    dsimp only
    rw [stepCntNext, started.idle, beq_self_eq_true, Bool.true_or, if_pos rfl]
    exact (BitVec.ofInt_natCast 16 _).symm
  · exact fun _ => started.aReg
  · change (clock g r first).qReg + (if (clock g r first).incQuad then _ else _) = b first + BitVec.ofNat 64 0 * _
    rw [quiet.1, started.qReg, if_neg Bool.false_ne_true]
    simp

theorem Running.along_iff (running : Running g first w) (three : 1 ≤ cFreqCnt g first.freqSel)
    (high : cFreqCnt g first.freqSel < 2 ^ (cFreqCntWidth g - 1)) {inputs : List Inputs}
    (along : Along (QuadSets.step g) (fun w i => Undisturbed i ∧ Kept g w i) w inputs) :
    Along (QuadSets.step g) (fun w _ => Correct g w) w inputs ↔
      Along (QuadSets.step g) (fun w _ => ends w.regs = false) w inputs := by
  apply along.congr (Running g first) running
  · exact fun running _ => running.correct_iff
  · intro w i running both correct
    exact running.step (running.correct_iff.mp correct) both.1 both.2 three high

/-- From a start on, with the coefficient and the frequency kept while they are in use, every clock
is right exactly as long as the set does not come to its end. -/
theorem correct_until_end (g : Generics) (r : Registers) (first : Inputs) (started : Started g r first)
    (inputs : List Inputs)
    (along : Along (step g) (fun w i => Undisturbed i ∧ Kept g w i) (start g r first) inputs) :
    Along (step g) (fun w _ => Correct g w) (start g r first) inputs ↔
      Along (step g) (fun w _ => ends w.regs = false) (start g r first) inputs :=
  started.running.along_iff started.three started.high along

instance : Decidable (Undisturbed i) :=
  decidable_of_iff (resets i = false ∧ i.loadStart = false ∧ i.syncStart = false)
    ⟨fun ⟨free, load, sync⟩ => ⟨free, load, sync⟩, fun ⟨free, load, sync⟩ => ⟨free, load, sync⟩⟩

instance : Decidable (Kept g w i) :=
  decidable_of_iff ((i.aEn = true → a i = a w.own) ∧
    (freqEn g w.regs i = true → cFreqCnt g i.freqSel = cFreqCnt g w.own.freqSel))
    ⟨fun ⟨aEn, freqSel⟩ => ⟨aEn, freqSel⟩, fun ⟨aEn, freqSel⟩ => ⟨aEn, freqSel⟩⟩

def written : Registers := clock ⟨50000000⟩ blank { waits with aEn := true, loadStart := true }

def starts : Inputs := { waits with syncStart := true }

theorem started_written : Started ⟨50000000⟩ written starts :=
  ⟨rfl, rfl, rfl, by decide, by decide, by decide, by decide⟩

theorem correct_until_end_sixty :
    Along (step ⟨50000000⟩) (fun w _ => Correct ⟨50000000⟩ w) (start ⟨50000000⟩ written starts)
      (List.replicate 60 waits) :=
  (correct_until_end ⟨50000000⟩ written starts started_written (List.replicate 60 waits)
    (by decide +kernel)).mpr (by decide +kernel)

def set250 : List Inputs := List.replicate 100 waits ++ { waits with aEn := true } :: List.replicate 6128 waits

/-- The set ends with its 249th increment. -/
theorem set_one_short : ¬ Along (step ⟨50000000⟩) (fun w _ => Correct ⟨50000000⟩ w)
    (start ⟨50000000⟩ written starts) set250 := by
  have kept : test (step ⟨50000000⟩) (fun w i => decide (Undisturbed i ∧ Kept ⟨50000000⟩ w i))
    (start ⟨50000000⟩ written starts) set250 = true := by
    decide +kernel
  have closed : test (step ⟨50000000⟩) (fun w _ => !ends w.regs) (start ⟨50000000⟩ written starts) set250 = false := by
    decide +kernel
  intro correct
  rw [started_written.running.along_iff started_written.three started_written.high
    ((test_iff.mp kept).mono of_decide_eq_true)] at correct
  have running : Along (step ⟨50000000⟩) (fun w _ => (!ends w.regs) = true) (start ⟨50000000⟩ written starts) set250 :=
    correct.mono fun going => by rw [going]; rfl
  exact Bool.false_ne_true (closed.symm.trans (test_iff.mpr running))

end BelProject.Fg.QuadSets
