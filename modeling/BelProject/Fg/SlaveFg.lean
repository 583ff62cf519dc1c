import BelProject.Library.Runs
import Mathlib.Data.BitVec
import Mathlib.Tactic.Common

/-! `SCU_Slave_FG`: a write is accepted with the next edge of the function generator clock. In ramp
mode a divided clock adds the step value to the accumulator, a counter of the additions finds the
data points, and at each of them the next step value is taken over. The output register, the read
ports and the watch on the external clock only look on and are left out. -/

namespace BelProject.Fg.SlaveFg
open Library.Runs

structure Generics where
  broadcastStartAddr : BitVec 16
  baseAddr : BitVec 16

/-- `fg_sm_type`. -/
inductive FgSm where
  | idle | drq | run | err
  deriving DecidableEq, Repr

inductive WrReg where
  | broadcast | reset | sw1 | sw2 | sw3 | sw4 | sw5
  deriving DecidableEq, Repr

structure Inputs where
  fgClk : Bool
  adr : BitVec 16
  extAdrVal : Bool
  extRdActive : Bool
  extWrActive : Bool
  data : BitVec 16
  nPowerupRes : Bool
  nStartSignal : Bool

structure Registers where
  -- `p_adr_deco`, of the reads only the one that clears the errors
  wr : Option WrReg
  status1Rd : Bool
  -- `p_sys_clk_sync_res`
  resSysClkSync : Bool
  sysClkResetCnt : BitVec 3
  resetWrDtack : Bool
  -- `p_fg_clk_edge_detect`
  sync0 : Bool
  sync1 : Bool
  sync2 : Bool
  fgClkEdgeDetect : Bool
  -- `freq_cnt`, `add_cnt`
  freqEn : Bool
  freqCnt : BitVec 10
  addCnt : BitVec 16
  -- `p_fg_sm`
  fgSm : FgSm
  rampModus : Bool
  dreq : Bool
  nextStepValueEn : Bool
  -- `p_reg_sw3`
  sw3Reg : BitVec 16
  rawStepValue : BitVec 16
  -- `status_1_2`
  status1 : BitVec 16
  status2 : BitVec 16
  -- `p_accu_reg`
  accuReg : BitVec 32

section
variable (r : Registers)

/-- `s_add_sel`. -/
def addSel : BitVec 3 := r.status1.extractLsb' 0 3

/-- `s_freq_sel`. -/
def freqSel : BitVec 3 := r.status1.extractLsb' 3 3

def sw3MulBy32 : Bool := r.status2.getLsbD 1

def broadcastEn : Bool := r.status2.getLsbD 2

/-- `s_twos_comp`. -/
def twosComp : Bool := r.status2.getLsbD 3

end

def cFreqCnt (sel : BitVec 3) : BitVec 10 := BitVec.ofNat 10 (2 ^ (9 - sel.toNat) - 2)

def cAddCnt (sel : BitVec 3) : BitVec 16 := BitVec.ofNat 16 (2 ^ (15 - sel.toNat) - 1)

/-- `calc_step_value`. -/
def stepValue (mulBy32 twos : Bool) (raw : BitVec 16) : BitVec 32 :=
  let low := if twos then false else raw.msb
  if mulBy32 then BitVec.replicate 12 (BitVec.ofBool raw.msb) ++ raw.extractLsb' 0 15 ++
    BitVec.replicate 5 (BitVec.ofBool low)
  else BitVec.replicate 16 (BitVec.ofBool raw.msb) ++ raw.extractLsb' 0 15 ++ BitVec.ofBool low

/-- What `p_adder` adds: in the ones' complement a negative step brings a carry. -/
def increment (mulBy32 twos : Bool) (raw : BitVec 16) : BitVec 32 :=
  stepValue mulBy32 twos raw + if !twos && (stepValue mulBy32 twos raw).msb then 1 else 0

section
variable (g : Generics) (r : Registers) (i : Inputs)

/-- The write that `p_adr_deco` finds. -/
def decodeWr : Option WrReg :=
  if !(i.extAdrVal && i.extWrActive && i.nPowerupRes) then none
  else if i.adr = g.broadcastStartAddr then some .broadcast
  else if i.adr = g.baseAddr + 0x8 then some .reset
  else if i.adr = g.baseAddr + 0x1 then some .sw1
  else if i.adr = g.baseAddr + 0x2 then some .sw2
  else if i.adr = g.baseAddr + 0x3 then some .sw3
  else if i.adr = g.baseAddr + 0x4 then some .sw4
  else if i.adr = g.baseAddr + 0x5 then some .sw5
  else none

def decodeStatus1Rd : Bool := i.extAdrVal && i.extRdActive && i.nPowerupRes && i.adr == g.baseAddr + 0x6

/-- `sw1_wr_fg` and the others. -/
def accepts (reg : WrReg) : Bool := r.wr == some reg && r.fgClkEdgeDetect

def status1RdFg : Bool := r.status1Rd && r.fgClkEdgeDetect

def directSet : Bool := accepts r .sw1 || accepts r .sw2

/-- A write to the reset address that is not answered yet. -/
def resetWrites : Bool := r.wr == some .reset && !r.resSysClkSync && !r.resetWrDtack

/-- The clock that sets `res_sys_clk_sync`. -/
def resets : Bool := !i.nPowerupRes || resetWrites r

def resSysClkSyncNext : Bool := if resets r i then true else if r.sysClkResetCnt.msb then false else r.resSysClkSync

def sysClkResetCntNext : BitVec 3 :=
  if !i.nPowerupRes then r.sysClkResetCnt
  else if resetWrites r then 3
  else if r.sysClkResetCnt.msb then r.sysClkResetCnt
  else r.sysClkResetCnt - 1

def resetWrDtackNext : Bool := if resets r i || !r.sysClkResetCnt.msb then r.resetWrDtack else r.wr == some .reset

def dataPointReached : Bool := r.addCnt.msb

/-- The start in idle: a write to the broadcast address or the external signal. -/
def starts : Bool := broadcastEn r && (accepts r .broadcast || !i.nStartSignal)

def adds : Bool := r.rampModus && r.freqEn

def freqCntNext : BitVec 10 :=
  if r.fgClkEdgeDetect then (if r.freqCnt.msb || !r.rampModus then cFreqCnt (freqSel r)
    else r.freqCnt - 1) else r.freqCnt

def addCntNext : BitVec 16 :=
  if dataPointReached r || !r.rampModus then cAddCnt (addSel r) else if r.freqEn then r.addCnt - 1 else r.addCnt

/-- A data point goes before a write of the accumulator. -/
def fgSmNext : FgSm :=
  match r.fgSm with
  | .idle => if starts r i then .drq else .idle
  | .drq => .run
  | .run => if dataPointReached r then (if r.dreq then .err else .drq) else if directSet r then .idle else .run
  | .err => if status1RdFg r then .idle else .err

def dreqNext : Bool :=
  match r.fgSm with
  | .idle => false
  | .drq => true
  | .run => r.dreq && !accepts r .sw3
  | .err => r.dreq

def status2Next : BitVec 16 :=
  if accepts r .sw5 then i.data else if directSet r then r.status2 &&& ~~~4 else r.status2

def accuRegNext : BitVec 32 :=
  let sum := if adds r then r.accuReg + increment (sw3MulBy32 r) (twosComp r) r.rawStepValue else r.accuReg
  if accepts r .sw1 then i.data ++ sum.extractLsb' 0 16
    else if accepts r .sw2 then sum.extractLsb' 16 16 ++ i.data else sum

/-- What `res_sys_clk_sync` holds. The other registers stay as they are. -/
def held : Registers :=
  { r with
    sync0 := false, sync1 := false, sync2 := false, fgClkEdgeDetect := false, freqCnt := 0, addCnt := 0, fgSm := .idle
    sw3Reg := 0, rawStepValue := 0, status1 := 0, status2 := 0, accuReg := 0 }

/-- The processes that `res_sys_clk_sync` resets, without it. -/
def advance : Registers :=
  { r with
    sync0 := i.fgClk
    sync1 := r.sync0
    sync2 := r.sync1
    fgClkEdgeDetect := !r.sync2 && r.sync1
    freqEn := r.fgClkEdgeDetect && r.freqCnt.msb
    freqCnt := freqCntNext r
    addCnt := addCntNext r
    fgSm := fgSmNext r i
    rampModus := r.fgSm == .drq || r.fgSm == .run
    dreq := dreqNext r
    nextStepValueEn := r.fgSm == .drq
    sw3Reg := if accepts r .sw3 then i.data else r.sw3Reg
    rawStepValue := if r.nextStepValueEn then r.sw3Reg else r.rawStepValue
    status1 := if accepts r .sw4 then i.data else r.status1
    status2 := status2Next r i
    accuReg := accuRegNext r i }

def control (next : Registers) : Registers :=
  { next with
    wr := decodeWr g i
    status1Rd := decodeStatus1Rd g i
    resSysClkSync := resSysClkSyncNext r i
    sysClkResetCnt := sysClkResetCntNext r i
    resetWrDtack := resetWrDtackNext r i }

def settle : Registers := if r.resSysClkSync then held r else r

def clock : Registers := settle (control g r i (if r.resSysClkSync then held r else advance r i))

end

def run (g : Generics) (r : Registers) (inputs : List Inputs) : Registers := inputs.foldl (clock g) r

/-- The first clock, in which the FPGA is powered up. -/
def powerup (g : Generics) (junk : Registers) (first : Inputs) : Registers :=
  clock g junk { first with nPowerupRes := false }

variable {g : Generics} {r : Registers} {i : Inputs}

theorem accepts_edge {reg : WrReg} (accepted : accepts r reg = true) : r.wr = some reg ∧ r.fgClkEdgeDetect = true := by
  rw [accepts, Bool.and_eq_true, beq_iff_eq] at accepted
  exact accepted

theorem accepts_other {reg other : WrReg} (accepted : accepts r reg = true) (apart : other ≠ reg) :
    accepts r other = false := by
  rw [accepts, (accepts_edge accepted).1, Bool.and_eq_false_iff]
  exact Or.inl (beq_eq_false_iff_ne.mpr fun same => apart (Option.some.inj same).symm)

theorem directSet_cases (set : directSet r = true) : accepts r .sw1 = true ∨ accepts r .sw2 = true :=
  Bool.or_eq_true_iff.mp set

theorem directSet_edge (set : directSet r = true) : r.fgClkEdgeDetect = true := by
  rcases directSet_cases set with sw1 | sw2
  · exact (accepts_edge sw1).2
  · exact (accepts_edge sw2).2

theorem run_append (past more : List Inputs) : run g r (past ++ more) = run g (run g r past) more :=
  List.foldl_append ..

theorem clock_reset (reset : resSysClkSyncNext r i = true) :
    clock g r i = held (control g r i (if r.resSysClkSync then held r else advance r i)) := if_pos reset

theorem clock_free (before : r.resSysClkSync = false) (behind : resSysClkSyncNext r i = false) :
    clock g r i = control g r i (advance r i) := by
  rw [clock, before]
  exact if_neg (ne_true_of_eq_false behind)

theorem clock_leaves (before : r.resSysClkSync = true) (behind : resSysClkSyncNext r i = false) :
    clock g r i = control g r i (held r) := by
  rw [clock, before]
  exact if_neg (ne_true_of_eq_false behind)

/-- While the reset is active the registers hold its values. -/
def Settled (r : Registers) : Prop := r.resSysClkSync = true → held r = r

theorem settled_clock : Settled (clock g r i) := by
  intro reset
  have active : resSysClkSyncNext r i = true := by
    by_contra free
    have off := Bool.eq_false_of_not_eq_true free
    cases before : r.resSysClkSync with
    | false =>
      rw [clock_free before off] at reset
      exact free reset
    | true =>
      rw [clock_leaves before off] at reset
      exact free reset
  rw [clock_reset active]
  rfl

theorem Settled.edge (settled : Settled r) (reset : r.resSysClkSync = true) : r.fgClkEdgeDetect = false := by
  rw [← settled reset]
  rfl

theorem Settled.free (settled : Settled r) (edge : r.fgClkEdgeDetect = true) : r.resSysClkSync = false := by
  by_contra reset
  exact absurd (edge.symm.trans (settled.edge (Bool.eq_true_of_not_eq_false reset))) Bool.noConfusion

theorem Settled.run {inputs : List Inputs} (settled : Settled r) : Settled (run g r inputs) :=
  (along_true (clock g) r inputs).invariant Settled settled fun _ _ => settled_clock

end BelProject.Fg.SlaveFg
