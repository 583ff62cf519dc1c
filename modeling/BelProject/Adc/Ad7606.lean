import Mathlib.Data.BitVec
import Mathlib.Data.Nat.Log
import Mathlib.Data.Rat.Floor
import Mathlib.Logic.Function.Basic

/-! The controller of an ADC that is read out over a parallel bus or over two serial lines. Its
waits are counted in registers whose widths and limits come from times in nanoseconds. -/

namespace BelProject.Adc.Ad7606

structure Generics where
  clkInHz : ℕ
  sclkInHz : ℕ
  csDelayInNs : ℕ
  csHighInNs : ℕ
  rdLowInNs : ℕ
  resetDelayInNs : ℕ
  convWaitInNs : ℕ
  interCycleInNs : ℕ
  clocks : 0 < clkInHz ∧ 0 < sclkInHz
  waits : 0 < csDelayInNs ∧ 0 < csHighInNs ∧ 0 < rdLowInNs ∧ 0 < resetDelayInNs ∧ 0 < convWaitInNs ∧ 0 < interCycleInNs

def Generics.defaults : Generics where
  clkInHz := 50000000
  sclkInHz := 14500000
  csDelayInNs := 16
  csHighInNs := 22
  rdLowInNs := 16
  resetDelayInNs := 50
  convWaitInNs := 25
  interCycleInNs := 6000
  clocks := by decide
  waits := by decide

structure Constants where
  waitDReady : ℕ
  waitCsHigh : ℕ
  waitRdLow : ℕ
  resetDelay : ℕ
  convWait : ℕ
  interCycle : ℕ
  sclkCnt : ℕ

def Generics.cycles (g : Generics) (ns : ℕ) : ℕ := ⌈(g.clkInHz : ℚ) / 1000000000 * ns⌉₊

def Generics.constants (g : Generics) : Constants where
  waitDReady := g.cycles g.csDelayInNs
  waitCsHigh := g.cycles g.csHighInNs
  waitRdLow := g.cycles g.rdLowInNs
  resetDelay := g.cycles g.resetDelayInNs
  convWait := g.cycles g.convWaitInNs
  interCycle := g.cycles g.interCycleInNs
  sclkCnt := ⌈(g.clkInHz : ℚ) / g.sclkInHz / 2⌉₊

def length (limit : ℕ) : ℕ := Nat.log 2 limit + 1

def toUnsigned (n length : ℕ) : ℕ := n % 2 ^ length

inductive State where
  | reset | idle | convTrigger | convSt | waitForBusy | waitForConvFin | readPar | readSer | dataReady | waitRdLow | waitCsHigh
  deriving DecidableEq

/-- The registers of `conv_cycle`. -/
structure Cycle where
  convState : State
  convst : Bool
  nCs : Bool
  nRd : Bool
  adcReset : Bool
  resetDelay : ℕ
  convWait : ℕ
  waitDReady : ℕ
  waitRdLow : ℕ
  waitCsHigh : ℕ
  interCycle : ℕ
  channelCnt : ℕ
  parSerSel : Bool
  hben : Bool
  byteSel : Bool
  channelLatch : Bool
  busy : Bool
  deriving DecidableEq

structure Serial where
  sclkCnt : ℕ
  sclkEn : Bool
  sclk : Bool
  deriving DecidableEq

/-- The registers of `shift_reg`. -/
structure Shift where
  bitCount : ℕ
  shiftRegA : BitVec 64
  shiftRegB : BitVec 64
  shadowRegs : ℕ → BitVec 16

structure Registers where
  cycle : Cycle
  serial : Serial
  shift : Shift
  syncBusy1 : Bool
  syncBusy2 : Bool

def Registers.zero : Registers where
  cycle := ⟨.reset, true, true, true, false, 0, 0, 0, 0, 0, 0, 0, false, false, false, false, false⟩
  serial := ⟨0, false, true⟩
  shift := ⟨0, 0, 0, fun _ => 0⟩
  syncBusy1 := false
  syncBusy2 := false

/-- With the lines that the converter drives, as the bus is read. -/
structure Inputs where
  nrst : Bool
  syncRst : Bool
  transferMode : BitVec 2
  busy : Bool
  bus : BitVec 16

def Cycle.cleared (c : Cycle) : Cycle :=
  { c with
    convState := .reset
    convst := true
    nCs := true
    nRd := true
    adcReset := false
    resetDelay := 0
    convWait := 0
    waitDReady := 0
    waitRdLow := 0
    waitCsHigh := 0
    interCycle := 0
    channelCnt := 0
    parSerSel := false
    hben := false
    byteSel := false
    channelLatch := false
    busy := false }

def expired (limit count : ℕ) : Bool := count == toUnsigned limit (length limit)

def advance (limit count : ℕ) : ℕ := if expired limit count then 0 else toUnsigned (count + 1) (length limit)

/-- `c_ser_length` -/
def serLength : ℕ := 64 * 2

def convCycle (k : Constants) (c : Cycle) (sclk : Bool) (bitCount : ℕ) (syncBusy2 : Bool)
    (transferMode : BitVec 2) : Cycle :=
  let d := { c with
    convst := true, nCs := true, nRd := true, adcReset := false, hben := false, byteSel :=
      false, channelLatch := false, busy := false }
  match c.convState with
  | .reset => { d with
      adcReset := true
      convState := if expired k.resetDelay c.resetDelay then .idle else .reset
      resetDelay := advance k.resetDelay c.resetDelay }
  | .idle => { d with
      convState := if expired k.interCycle c.interCycle then .convSt else .idle
      interCycle := advance k.interCycle c.interCycle }
  | .convSt => { d with
      convst := false
      convState := if expired k.convWait c.convWait then .waitForBusy else .convSt
      convWait := advance k.convWait c.convWait }
  | .waitForBusy => { d with convState := if syncBusy2 then .waitForConvFin else .waitForBusy }
  | .waitForConvFin => { d with
      convState :=
        if syncBusy2 then .waitForConvFin
        else if transferMode = 0 then .readPar
        else if transferMode = 1 then .readSer
        else .waitForConvFin }
  | .readSer => { d with
      parSerSel := true
      nCs := false
      nRd := sclk
      convState := if bitCount = serLength then .idle else .readSer }
  | .readPar => { d with
      busy := true
      parSerSel := false
      convState := if expired k.waitDReady c.waitDReady then .dataReady else .readPar
      waitDReady := advance k.waitDReady c.waitDReady }
  | .dataReady =>
    if c.channelCnt < 8 then
      { d with
        busy := true, parSerSel := false, nCs := false, nRd := false, channelCnt := c.channelCnt + 1
        convState := .waitRdLow }
    else { d with busy := true, parSerSel := false, channelCnt := 0, convState := .idle }
  | .waitRdLow => { d with
      busy := true
      parSerSel := false
      nCs := false
      nRd := false
      convState := if expired k.waitRdLow c.waitRdLow then .waitCsHigh else .waitRdLow
      waitRdLow := advance k.waitRdLow c.waitRdLow
      channelLatch := expired k.waitRdLow c.waitRdLow }
  | .waitCsHigh => { d with
      busy := true
      parSerSel := false
      convState := if expired k.waitCsHigh c.waitCsHigh then .dataReady else .waitCsHigh
      waitCsHigh := advance k.waitCsHigh c.waitCsHigh }
  | .convTrigger => { d with convState := .reset }

/-- `serial_clk_en` and `serial_clk`. -/
def Serial.clock (k : Constants) (s : Serial) : Serial :=
  let last := s.sclkCnt == toUnsigned (k.sclkCnt - 1) (length k.sclkCnt)
  { sclkCnt := if last then 0 else toUnsigned (s.sclkCnt + 1) (length k.sclkCnt)
    sclkEn := last
    sclk := if s.sclkEn then !s.sclk else s.sclk }

def unpack (a b : BitVec 64) (n : ℕ) : BitVec 16 :=
  if n < 4 then a.extractLsb' (48 - 16 * n) 16 else b.extractLsb' (48 - 16 * (n - 4)) 16

/-- The process `shift_reg`. -/
def Shift.clock (s : Shift) (c : Cycle) (sclkEn : Bool) (dbIn : BitVec 16) : Shift :=
  if c.convState = .readSer then
    if sclkEn && s.bitCount < serLength then
      if s.bitCount % 2 = 0 then
        { s with
          shiftRegA := (s.shiftRegA.setWidth 63).concat (dbIn.getLsbD 7)
          shiftRegB := (s.shiftRegB.setWidth 63).concat (dbIn.getLsbD 8)
          bitCount := s.bitCount + 1 }
      else { s with bitCount := s.bitCount + 1 }
    else if s.bitCount = serLength then
      { s with shadowRegs := fun n => if n < 8 then unpack s.shiftRegA s.shiftRegB n
        else s.shadowRegs n, bitCount := 0 }
    else s
  else if c.channelLatch then { s with shadowRegs := Function.update s.shadowRegs (c.channelCnt - 1) dbIn }
  else s

/-- The resets work without the clock: the synchronous one only on the state machine. -/
def settle (r : Registers) (nrst syncRst : Bool) : Registers :=
  if nrst then if syncRst then { r with cycle := r.cycle.cleared } else r
  else { r with
    cycle := r.cycle.cleared
    serial := { r.serial with sclkCnt := 0, sclk := true }
    shift := { r.shift with bitCount := 0 } }

/-- The bus with the lines that the controller drives for itself in a serial read. -/
def dbIn (c : Cycle) (bus : BitVec 16) : BitVec 16 :=
  if c.parSerSel then (BitVec.ofBool c.byteSel ++ BitVec.ofBool c.hben : BitVec 2) ++ bus.extractLsb' 0 14 else bus

def clock (k : Constants) (r : Registers) (i : Inputs) : Registers :=
  let r := settle r i.nrst i.syncRst
  { cycle :=
      if i.nrst && !i.syncRst then convCycle k r.cycle r.serial.sclk r.shift.bitCount r.syncBusy2 i.transferMode
      else r.cycle
    serial := if i.nrst then r.serial.clock k else r.serial
    shift := if i.nrst then r.shift.clock r.cycle r.serial.sclkEn (dbIn r.cycle i.bus) else r.shift
    syncBusy1 := i.busy
    syncBusy2 := r.syncBusy1 }

section
variable {k : Constants} {r : Registers} {i : Inputs} {nrst syncRst : Bool}

theorem settle_free (free : nrst = true ∧ syncRst = false) : settle r nrst syncRst = r := by
  rw [settle, free.1, free.2]
  rfl

theorem settle_reset (asserted : ¬(nrst = true ∧ syncRst = false)) : (settle r nrst syncRst).cycle = r.cycle.cleared := by
  rw [settle]
  cases nrst with
  | false => rfl
  | true =>
    cases syncRst with
    | false => exact absurd ⟨rfl, rfl⟩ asserted
    | true => rfl

theorem clock_free (free : i.nrst = true ∧ i.syncRst = false) : clock k r i =
    ⟨convCycle k r.cycle r.serial.sclk r.shift.bitCount r.syncBusy2 i.transferMode, r.serial.clock k,
      r.shift.clock r.cycle r.serial.sclkEn (dbIn r.cycle i.bus), i.busy, r.syncBusy1⟩ := by
  rw [clock, settle_free free, free.1, free.2]
  rfl

theorem clock_reset (asserted : ¬(i.nrst = true ∧ i.syncRst = false)) : (clock k r i).cycle = r.cycle.cleared := by
  have quiet : ¬(i.nrst && !i.syncRst) = true := by
    rw [Bool.and_eq_true, Bool.not_eq_true']
    exact asserted
  exact (if_neg quiet).trans (settle_reset asserted)

end

theorem toUnsigned_of_le {n limit : ℕ} (small : n ≤ limit) : toUnsigned n (length limit) = n :=
  Nat.mod_eq_of_lt (small.trans_lt (Nat.lt_pow_succ_log_self (by decide) limit))

theorem expired_iff {limit count : ℕ} : expired limit count = true ↔ count = limit := by
  rw [expired, toUnsigned_of_le le_rfl, beq_iff_eq]

theorem advance_of_lt {limit count : ℕ} (before : count < limit) :
    expired limit count = false ∧ advance limit count = count + 1 := by
  have running : ¬expired limit count = true := fun last => absurd (expired_iff.mp last) before.ne
  exact ⟨Bool.eq_false_iff.mpr running, (if_neg running).trans (toUnsigned_of_le before)⟩

theorem advance_limit (limit : ℕ) : expired limit limit = true ∧ advance limit limit = 0 := by
  have last : expired limit limit = true := expired_iff.mpr rfl
  exact ⟨last, if_pos last⟩

def Constants.Fits (k : Constants) : Prop :=
  (∀ limit ∈ [k.waitDReady, k.waitCsHigh, k.waitRdLow, k.resetDelay, k.convWait, k.interCycle],
    toUnsigned limit (length limit) = limit) ∧ toUnsigned (k.sclkCnt - 1) (length k.sclkCnt) = k.sclkCnt - 1

theorem Constants.fits (k : Constants) : k.Fits :=
  ⟨fun _ _ => toUnsigned_of_le le_rfl, toUnsigned_of_le (Nat.sub_le _ _)⟩

def Generics.Lasts (g : Generics) (clocks ns : ℕ) : Prop := g.clkInHz * ns ≤ clocks * 1000000000

instance (g : Generics) (clocks ns : ℕ) : Decidable (g.Lasts clocks ns) := inferInstanceAs (Decidable (_ ≤ _))

theorem Generics.lasts_cycles (g : Generics) (ns : ℕ) : g.Lasts (g.cycles ns) ns := by
  have above : (g.clkInHz : ℚ) / 1000000000 * ns ≤ g.cycles ns := Nat.le_ceil _
  rw [div_mul_eq_mul_div, div_le_iff₀ (by norm_num)] at above
  exact_mod_cast above

theorem Generics.Lasts.mono {g : Generics} {clocks more ns : ℕ} (lasts : g.Lasts clocks ns)
    (later : clocks ≤ more) : g.Lasts more ns :=
  lasts.trans (Nat.mul_le_mul_right _ later)

theorem Generics.cycles_pos (g : Generics) {ns : ℕ} (some : 0 < ns) : 0 < g.cycles ns := by
  have clock := g.clocks.1
  exact Nat.ceil_pos.mpr (by positivity)

end BelProject.Adc.Ad7606
