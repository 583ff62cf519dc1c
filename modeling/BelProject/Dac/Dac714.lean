import BelProject.AuxFunctions.DivN
import Mathlib.Tactic.Common

/-! `dac714`: words from the bus or from a function generator go to a DAC over a serial line, and
the load line takes them over, at once or with an external trigger. Reading back is left out. -/

namespace BelProject.Dac.Dac714

structure Generics where
  baseAddr : BitVec 16
  clkInHz : ℕ
  spiClkInHz : ℕ
  /-- The range of the generic of `div_n`. -/
  divides : 2 ≤ clkInHz / spiClkInHz / 2

def Generics.cSpiClkEnaCnt (g : Generics) : ℕ := g.clkInHz / g.spiClkInHz / 2

/-- `T_SPI_SM` -/
inductive SpiSm where
  | idle | selOn | clkLo | clkHi | selOff | load | loadWait | loadEnd
  deriving DecidableEq, Repr

structure Inputs where
  adr : BitVec 16
  data : BitVec 16
  extAdrVal : Bool
  extWrActive : Bool
  nReset : Bool
  nExtTrigDac : Bool
  fgData : BitVec 16
  fgStrobe : Bool

/-- What `P_SPI_SM` resets. -/
structure Spi where
  spiSm : SpiSm
  bitCnt : ℕ
  nCs : Bool
  spiClk : Bool
  nLd : Bool
  spiTrm : Bool
  clearSpiClk : Bool
  shiftReg : BitVec 16
  newTrmDuringTrmActive : Bool
  extTrigValid : Bool

def Spi.reset : Spi where
  spiSm := .idle
  bitCnt := 0
  nCs := true
  spiClk := true
  nLd := true
  spiTrm := false
  clearSpiClk := true
  shiftReg := 0
  newTrmDuringTrmActive := false
  extTrigValid := false

/-- A word is taken in `Idle`, and in software mode while the machine waits for the external
trigger. -/
def Spi.takes (r : Spi) (fgMode convExtern : Bool) : Bool :=
  r.spiSm == .idle || !fgMode && convExtern && (r.spiSm == .load || r.spiSm == .loadWait)

/-- The first half of a clock, for a new word. -/
def Spi.word (r : Spi) (fgMode convExtern : Bool) : Option (BitVec 16) → Spi
  | none => r
  | some data =>
    if r.takes fgMode convExtern then { r with shiftReg := data, clearSpiClk := true, spiTrm := true }
    else { r with newTrmDuringTrmActive := true }

/-- The second half, with `spi_clk_ena`. It looks at the old registers and assigns after the first
half. -/
def Spi.advance (old : Spi) (convExtern trigDac : Bool) (r : Spi) : Spi :=
  match old.spiSm with
  | .idle =>
    { r with bitCnt := 0, nCs := true, spiClk := true, nLd := true, spiSm := if old.spiTrm then .selOn else .idle }
  | .selOn => { r with nCs := false, spiSm := .clkLo }
  | .clkLo =>
    if old.bitCnt ≤ 15 then
      { r with shiftReg := if 0 < old.bitCnt then old.shiftReg <<< 1 else r.shiftReg, spiClk := false, spiSm := .clkHi }
    else { r with spiClk := false, nCs := true, spiSm := .selOff }
  | .clkHi => { r with spiClk := true, bitCnt := (old.bitCnt + 1) % 32, spiSm := .clkLo }
  | .selOff => { r with spiClk := true, spiTrm := if convExtern then false else r.spiTrm, spiSm := .load }
  | .load =>
    if !convExtern then { r with spiClk := false, nLd := false, spiTrm := false, spiSm := .loadEnd }
    else if trigDac then { r with spiClk := false, extTrigValid := true, nLd := false, spiTrm := false, spiSm := .loadEnd }
    else { r with spiClk := false, spiSm := .loadWait }
  | .loadWait => { r with spiClk := true, spiSm := if old.spiTrm then .idle else .load }
  | .loadEnd => { r with spiClk := true, nLd := false, spiSm := .idle }

def Spi.clock (r : Spi) (fgMode convExtern trigDac ena : Bool) (offered : Option (BitVec 16)) : Spi :=
  let first :=
    Spi.word { r with clearSpiClk := false, newTrmDuringTrmActive := false, extTrigValid := false } fgMode convExtern offered
  if ena then r.advance convExtern trigDac first else first

/-- The registers of `P_Ext_Trig`. -/
structure Trig where
  buildEdge0 : Bool
  buildEdge1 : Bool
  buildEdge2 : Bool
  trigDacWithOldData : Bool
  trigDacDuringShift : Bool
  waitForEndOfShift : Bool
  trigDac : Bool

def Trig.reset : Trig := ⟨false, false, false, false, false, false, false⟩

def Trig.edge (t : Trig) : Bool := !t.buildEdge2 && t.buildEdge1

/-- `(SPI_SM = Sel_On) or (SPI_SM = Clk_Lo) or (SPI_SM = Clk_Hi)` -/
def shifting (sm : SpiSm) : Bool := sm == .selOn || sm == .clkLo || sm == .clkHi

/-- The answer to an edge. The fourth branch is behind one for the same state. -/
def Trig.event (t : Trig) (sm : SpiSm) : Trig :=
  if sm = .idle then { t with trigDacWithOldData := true }
  else if shifting sm then { t with waitForEndOfShift := true, trigDacDuringShift := true }
  else if sm = .selOff ∨ sm = .load ∨ sm = .loadWait then { t with trigDac := true }
  else if t.waitForEndOfShift ∧ sm = .selOff then { t with waitForEndOfShift := false, trigDac := true }
  else if sm = .loadEnd then { t with trigDac := false }
  else t

def Trig.clock (t : Trig) (sm : SpiSm) (convExtern level : Bool) : Trig :=
  let next := { t with
    buildEdge0 := level, buildEdge1 := t.buildEdge0, buildEdge2 := t.buildEdge1
    trigDacWithOldData := false, trigDacDuringShift := false }
  if convExtern then (if t.edge then next.event sm else next)
  else { next with buildEdge0 := false, buildEdge1 := false, buildEdge2 := false, trigDac := false }

/-- The registers of `P_DAC_Cntrl`. -/
structure Cntrl where
  nClrDac : Bool
  nClrDacDly : Bool
  dacConvExtern : Bool
  dacNegEdgeConv : Bool
  fgMode : Bool
  clrCnt : ℕ

def Cntrl.reset : Cntrl := ⟨false, false, false, false, false, 0⟩

def Cntrl.clock (c : Cntrl) (wrDacCntrl : Bool) (data : BitVec 16) (ena : Bool) : Cntrl :=
  if wrDacCntrl then
    { nClrDac := if data.getLsbD 1 then false else c.nClrDac
      nClrDacDly := c.nClrDac
      dacConvExtern := data.getLsbD 2 && !c.fgMode
      dacNegEdgeConv := data.getLsbD 3 && !c.fgMode
      fgMode := data.getLsbD 4
      clrCnt := if data.getLsbD 1 then 0 else c.clrCnt }
  else if !c.nClrDac && ena then
    { c with
      nClrDac := if c.clrCnt < 3 then c.nClrDac else true
      nClrDacDly := c.nClrDac
      clrCnt := if c.clrCnt < 3 then c.clrCnt + 1 else c.clrCnt }
  else { c with nClrDacDly := c.nClrDac }

/-- One of the counters of `P_error_stat`. -/
def errCnt (count : ℕ) (clear event : Bool) : ℕ :=
  if clear then 0 else if event && decide (count < 2 ^ 8 - 1) then count + 1 else count

structure Registers where
  -- `P_dac714_Adr_Deco`
  wrDacCntrl : Bool
  wrShiftReg : Bool
  wrShiftRegDly : Bool
  clrShiftErrCnt : Bool
  clrOldDataErrCnt : Bool
  clrTrmDuringTrmActiveErrCnt : Bool
  -- `P_reset`
  nResetSync0 : Bool
  nResetSync1 : Bool
  nResetFf : Bool
  -- `P_SPI_SM`
  spi : Spi
  fgStrobeDly : Bool
  dacConvert : Bool
  trig : Trig
  cntrl : Cntrl
  -- `P_error_stat`
  trigDacDuringShiftErrCnt : ℕ
  trigDacWithOldDataErrCnt : ℕ
  newTrmDuringTrmActiveErrCnt : ℕ
  -- `div_n`, which is negative when it runs over
  divN : ℤ

section
variable (g : Generics) (s : Registers) (i : Inputs)

def writes (offset : BitVec 16) : Bool := i.extAdrVal && i.adr == g.baseAddr + offset && i.extWrActive

def spiClkEna : Bool := decide (s.divN < 0)

/-- Behind an edge `nReset_ff` is low for a reset, and for a write that clears the DAC. -/
def nResetFfNext : Bool := s.nResetSync1 && !(!s.cntrl.nClrDac && s.cntrl.nClrDacDly)

/-- No reset of `nReset_ff`, neither at the edge nor behind it. -/
def running : Bool := s.nResetFf && nResetFfNext s

def offered : Option (BitVec 16) :=
  if s.cntrl.fgMode then (if i.fgStrobe && !s.fgStrobeDly then some i.fgData else none)
  else if s.wrShiftReg && !s.wrShiftRegDly then some i.data else none

def spiNext : Spi :=
  if running s then s.spi.clock s.cntrl.fgMode s.cntrl.dacConvExtern s.trig.trigDac (spiClkEna s)
    (offered s i) else Spi.reset

/-- `div_n` with its asynchronous load. -/
def divNext : ℤ :=
  if s.spi.clearSpiClk || (spiNext s i).clearSpiClk then g.cSpiClkEnaCnt - 2
  else AuxFunctions.DivN.count (g.cSpiClkEnaCnt - 2) true s.divN

def clock : Registers :=
  let decodes := s.nResetSync1 && s.nResetSync0
  { wrDacCntrl := decodes && writes g i 0
    wrShiftReg := decodes && (writes g i 1 && !s.cntrl.fgMode)
    wrShiftRegDly := decodes && s.wrShiftReg
    clrShiftErrCnt := decodes && writes g i 2
    clrOldDataErrCnt := decodes && writes g i 3
    clrTrmDuringTrmActiveErrCnt := decodes && writes g i 4
    nResetSync0 := i.nReset
    nResetSync1 := s.nResetSync0
    nResetFf := nResetFfNext s
    spi := spiNext s i
    fgStrobeDly := if s.nResetFf then i.fgStrobe else s.fgStrobeDly
    dacConvert := if s.nResetFf then s.spi.spiSm == .loadEnd else s.dacConvert
    trig :=
      if running s then s.trig.clock s.spi.spiSm s.cntrl.dacConvExtern
        (s.cntrl.dacNegEdgeConv ^^ i.nExtTrigDac) else Trig.reset
    cntrl := if running s then s.cntrl.clock s.wrDacCntrl i.data (spiClkEna s) else Cntrl.reset
    trigDacDuringShiftErrCnt :=
      if running s then errCnt s.trigDacDuringShiftErrCnt s.clrShiftErrCnt s.trig.trigDacDuringShift else 0
    trigDacWithOldDataErrCnt :=
      if running s then errCnt s.trigDacWithOldDataErrCnt s.clrOldDataErrCnt s.trig.trigDacWithOldData else 0
    newTrmDuringTrmActiveErrCnt :=
      if running s then errCnt s.newTrmDuringTrmActiveErrCnt s.clrTrmDuringTrmActiveErrCnt
        s.spi.newTrmDuringTrmActive else 0
    divN := divNext g s i }

def start : Registers where
  wrDacCntrl := false
  wrShiftReg := false
  wrShiftRegDly := false
  clrShiftErrCnt := false
  clrOldDataErrCnt := false
  clrTrmDuringTrmActiveErrCnt := false
  nResetSync0 := true
  nResetSync1 := true
  nResetFf := true
  spi := Spi.reset
  fgStrobeDly := false
  dacConvert := false
  trig := Trig.reset
  cntrl := Cntrl.reset
  trigDacDuringShiftErrCnt := 0
  trigDacWithOldDataErrCnt := 0
  newTrmDuringTrmActiveErrCnt := 0
  divN := g.cSpiClkEnaCnt - 2

end

def defaults : Generics := ⟨0x0300, 100000000, 10000000, by decide⟩

end BelProject.Dac.Dac714
