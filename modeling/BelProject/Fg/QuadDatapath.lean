import BelProject.Library.Runs
import Mathlib.Data.BitVec
import Mathlib.Data.Nat.Log
import Mathlib.Tactic.Common

/-! `fg_quad_datapath`: with each tick of the divided clock the linear term grows by the quadratic
coefficient and the output by the linear term, in three clocks. Behind the last step of a set the
machine goes on with a new coefficient, or stops. -/

namespace BelProject.Fg.QuadDatapath

structure Generics where
  clkInHz : ℕ

inductive CntrlType where
  | idle | load | quadInc | linInc | addXQ | stopped
  deriving DecidableEq, Repr

structure Inputs where
  dataA : BitVec 16
  dataB : BitVec 16
  dataC : BitVec 32
  nrst : Bool
  syncRst : Bool
  aEn : Bool
  loadStart : Bool
  syncStart : Bool
  stepSel : BitVec 3
  shiftA : ℕ
  shiftB : ℕ
  freqSel : BitVec 3

structure Registers where
  -- `reg_file`
  aReg : BitVec 64
  qReg : BitVec 64
  xReg : BitVec 64
  -- `freq_cnt`
  freqCnt : ℕ
  -- `control_sm`
  controlState : CntrlType
  incQuad : Bool
  incLin : Bool
  addLinQuad : Bool
  coeffRcvd : Bool
  freqCntEn : Bool
  stepCnt : BitVec 16
  stopped : Bool
  running : Bool

/-- The clocks between two ticks, less two. -/
def cFreqCnt (g : Generics) (sel : BitVec 3) : ℕ :=
  match sel.toNat with
  | 7 => g.clkInHz / 2000000 - 2
  | 6 => g.clkInHz / 1000000 - 2
  | 5 => g.clkInHz / 500000 - 2
  | 4 => g.clkInHz / 250000 - 2
  | 3 => g.clkInHz / 125000 - 2
  | 2 => g.clkInHz / 64000 - 2
  | 1 => g.clkInHz / 32000 - 2
  | _ => g.clkInHz / 16000 - 2

def cStepCnt (sel : BitVec 3) : ℕ :=
  match sel.toNat with
  | 7 => 32000 - 2
  | 6 => 16000 - 2
  | 5 => 8000 - 2
  | 4 => 4000 - 2
  | 3 => 2000 - 2
  | 2 => 1000 - 2
  | 1 => 500 - 2
  | _ => 250 - 2

def cFreqCntWidth (g : Generics) : ℕ := Nat.clog 2 (cFreqCnt g 0) + 1

section
variable (g : Generics) (r : Registers) (i : Inputs)

def resets : Bool := !i.nrst || i.syncRst

/-- `to_unsigned(c_freq_cnt(freq_sel), c_freq_cnt_width)` -/
def freqLoad : ℕ := cFreqCnt g i.freqSel % 2 ^ cFreqCntWidth g

/-- The divider is loaded as long as there is a start. -/
def freqCntNow : ℕ := if resets i || i.syncStart then freqLoad g i else r.freqCnt

/-- `s_freq_en` -/
def freqEn : Bool := decide (2 ^ (cFreqCntWidth g - 1) ≤ freqCntNow g r i)

/-- `s_stp_reached` -/
def stpReached : Bool := r.stepCnt.msb

/-- `shift_left(resize(signed(data), 64), n)` -/
def shiftLeft {w : ℕ} (data : BitVec w) (n : ℕ) : BitVec 64 := data.signExtend 64 <<< n

def freqCntNext : ℕ :=
  if resets i || i.syncStart then freqLoad g i
  else if freqEn g r i then freqLoad g i
  else if r.freqCntEn then (r.freqCnt + 2 ^ cFreqCntWidth g - 1) % 2 ^ cFreqCntWidth g
  else r.freqCnt

/-- In a clock of `quad_inc` the step counter has expired, and there is a new coefficient or none. -/
def reloads : Bool := r.controlState == .quadInc && stpReached r && r.coeffRcvd

def advances : Bool := r.controlState == .quadInc && !stpReached r && freqEn g r i

def controlNext : CntrlType :=
  match r.controlState with
  | .idle => if i.syncStart then .quadInc else .idle
  | .quadInc =>
    if stpReached r then (if r.coeffRcvd then .linInc else .stopped)
    else if freqEn g r i then .linInc
    else .quadInc
  | .linInc => .addXQ
  | .addXQ => .quadInc
  | s => s

def stepCntNext : BitVec 16 :=
  if r.controlState == .idle || reloads r then BitVec.ofNat 16 (cStepCnt i.stepSel)
  else if advances g r i then r.stepCnt - 1
  else r.stepCnt

def coeffRcvdNext : Bool :=
  if (r.controlState == .idle && i.syncStart) || reloads r then false else i.aEn || r.coeffRcvd

/-- One rising edge. A reset takes the registers and the state back, the pulses stay as they are. -/
def clock : Registers :=
  if resets i then
    { r with aReg := 0, qReg := 0, xReg := 0, freqCnt := freqCntNext g r i, controlState := .idle }
  else
    { aReg := if i.aEn || stpReached r then shiftLeft i.dataA i.shiftA else r.aReg
      qReg := if r.incQuad then r.qReg + r.aReg else if i.loadStart then shiftLeft i.dataB i.shiftB else r.qReg
      xReg := if r.addLinQuad then r.xReg + r.qReg else if i.loadStart then shiftLeft i.dataC 40 else r.xReg
      freqCnt := freqCntNext g r i
      controlState := controlNext g r i
      incQuad := reloads r || advances g r i
      incLin := r.controlState == .linInc
      addLinQuad := r.controlState == .addXQ
      coeffRcvd := coeffRcvdNext r i
      freqCntEn := r.controlState != .idle
      stepCnt := stepCntNext g r i
      stopped := r.controlState == .stopped
      running := r.controlState == .quadInc || r.controlState == .linInc || r.controlState == .addXQ }

def run (inputs : List Inputs) : Registers := inputs.foldl (clock g) r

end

/-- `dreq`, `sw_out`, `sw_strobe` -/
def dreq (r : Registers) (i : Inputs) : Bool := stpReached r || i.syncStart
def swOut (r : Registers) : BitVec 32 := r.xReg.extractLsb' 32 32
def swStrobe (r : Registers) : Bool := r.addLinQuad

theorem swOut_strobe {g : Generics} {r : Registers} {i : Inputs} (free : resets i = false) (kept : i.loadStart = false)
    (still : swStrobe r = false) : swOut (clock g r i) = swOut r := by
  change r.addLinQuad = false at still
  rw [clock, free, swOut, still, kept]
  rfl

/-- Without a reset and a load the output stays the same from one strobe to the next. -/
theorem swOut_run {g : Generics} {r : Registers} {inputs : List Inputs}
    (still : Library.Runs.Along (clock g) (fun r i => resets i = false ∧ i.loadStart = false ∧
      swStrobe r = false) r inputs) :
    swOut (run g r inputs) = swOut r := by
  apply still.invariant (fun s => swOut s = swOut r) rfl
  rintro s i same ⟨free, kept, still⟩
  exact (swOut_strobe free kept still).trans same

end BelProject.Fg.QuadDatapath
