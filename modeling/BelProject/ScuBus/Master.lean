import Mathlib.Data.BitVec

/-! `wb_scu_bus`: the Wishbone side takes an access and raises a start request for one clock,
the SCU bus machine runs the cycle and waits for `dtack`. The timing cycle of the machine is
left out, because nothing ever raises `S_Start_Ti_Cy`; the service requests come in as they
are after their own process. -/

namespace BelProject.ScuBus.Master

/-- The delays in clocks, as `set_ge_1` gives them. -/
structure Generics where
  selDly : Nat
  selRelease : Nat
  dValidToDS : Nat
  timeOut : Nat
  dlyMulticastDt : Nat

/-- `set_ge_1(delay_in_ns * 1000 / Clk_in_ps)`. -/
def setGe1 (delayInNs clkInPs : Nat) : Nat := if 1 < delayInNs * 1000 / clkInPs then delayInNs * 1000 / clkInPs else 1

/-- A counter starts two below the number of clocks and stops when it is negative. -/
def cntStart (clocks : Nat) : Int := clocks - 2

/-- The bit above the counter, set by the underflow. -/
def high (cnt : Int) : Bool := decide (cnt < 0)

/-- `IF cnt(cnt'high) = '0' THEN cnt <= cnt - 1`. -/
def countDown (cnt : Int) : Int := if high cnt then cnt else cnt - 1

/-- `T_SCUB_SM`. -/
inductive ScubSM where
  | idle | sRdCyc | rdCyc | eRdCyc | fRdCyc | toRdCyc | sWrCyc | wrCyc | eWrCyc | fWrCyc | toWrCyc
  deriving DecidableEq, Repr

/-- `wb_ctrl_type`. -/
inductive WbCtrl where
  | idle | cycStart | intAcc | extStall | extErr | extAcc | invalidSlave
  deriving DecidableEq, Repr

structure Inputs where
  cyc : Bool
  stb : Bool
  we : Bool
  adr : BitVec 32
  dat : BitVec 32
  sel : BitVec 4
  nDtack : Bool
  /-- what is on the SCU data bus -/
  scubData : BitVec 16
  srqSync : BitVec 12
  srqActive : BitVec 12
  oneOrMoreSRQs : Bool

structure Registers where
  -- `p_wb_ctrl`
  wbState : WbCtrl
  adr : BitVec 16
  slaveNr : BitVec 4
  stall : Bool
  ack : Bool
  err : Bool
  rdData : BitVec 16
  startRd : Bool
  startWr : Bool
  multiWr : Bool
  wrData : BitVec 16
  -- `int_regs`
  rdErr : Bool
  wrErr : Bool
  invalidIntern : Bool
  intAck : Bool
  intRdData : BitVec 16
  multiSel : BitVec 12
  srqEna : BitVec 12
  internEcho1 : BitVec 16
  globalIntrEna : BitVec 16
  -- `P_SCUB_SM`
  sm : ScubSM
  sync0 : Bool
  sync1 : Bool
  extAck : Bool
  extRdData : BitVec 16
  selDlyCnt : Int
  dValidCnt : Int
  releaseCnt : Int
  scubAddr : BitVec 16
  rdnwr : Bool
  ds : Bool
  scubSel : BitVec 12
  selExtDrv : Bool
  -- `p_board_sel`, `p_time_out`, `p_delay_multicast_dt`
  slaveSel : BitVec 12
  timeOutCnt : Int
  multicastCnt : Int

/-- `Wr_Data`. -/
def wrDataIn (i : Inputs) : BitVec 16 := if i.sel.getLsbD 0 then i.dat.extractLsb' 0 16 else i.dat.extractLsb' 16 16

/-- `Adr`, with the fix for the LM32. -/
def adrIn (i : Inputs) : BitVec 16 :=
  if i.sel.getLsbD 0 && !i.adr.getLsbD 1 then i.adr.extractLsb' 1 16 + 1 else i.adr.extractLsb' 1 16

/-- `Slave_Nr`. -/
def slaveNrIn (i : Inputs) : BitVec 4 := i.adr.extractLsb' 17 4

def external (slaveNr : BitVec 4) : Bool := decide (1 ≤ slaveNr) && decide (slaveNr ≤ 12)

/-- `c_multicast_slave_acc`. -/
def multicast (slaveNr : BitVec 4) : Bool := slaveNr == 13

variable (g : Generics) (r : Registers) (i : Inputs)

def accepts : Bool := r.wbState == .idle && i.cyc && i.stb

def wbNext : WbCtrl :=
  match r.wbState with
  | .idle => if i.cyc && i.stb then .cycStart else .idle
  | .cycStart =>
    if r.slaveNr = 0 then .intAcc
    else if external r.slaveNr then .extStall
    else if multicast r.slaveNr then (if i.we then .extStall else .extErr)
    else .invalidSlave
  | .extStall => if r.rdErr || r.wrErr then .extErr else if r.extAck then .extAcc else .extStall
  | .intAcc | .extAcc | .extErr | .invalidSlave => .idle

/-- The clock that raises a start request for a write. -/
def raisesWr : Bool := r.wbState == .cycStart && i.we && (external r.slaveNr || multicast r.slaveNr)

def raisesRd : Bool := r.wbState == .cycStart && !i.we && external r.slaveNr

def rdDataNext : BitVec 16 :=
  match r.wbState with
  | .intAcc => if r.invalidIntern then 0xdead else if r.intAck then r.intRdData else r.rdData
  | .extStall => if !(r.rdErr || r.wrErr) && r.extAck then r.extRdData else r.rdData
  | .extErr | .invalidSlave => 0xdead
  | _ => r.rdData

/-- `S_Status`. Nothing sets the bits for the timing cycle and the slave number. -/
def status : BitVec 16 :=
  0#10 ++ BitVec.ofBool i.oneOrMoreSRQs ++ 0#1 ++ BitVec.ofBool r.invalidIntern ++ 0#1 ++ BitVec.ofBool r.rdErr ++
    BitVec.ofBool r.wrErr

/-- `C_SCUB_Version & C_SCUB_Revision`. -/
def versRevi : BitVec 16 := 0x0202

/-- The addresses of `int_regs`. -/
inductive InternReg where
  | status | globalIntrEna | versRevi | srqEna | srqActive | srqIn | multiSlaveSel | echo1 | others
  deriving DecidableEq, Repr

def internReg (adr : BitVec 16) : InternReg :=
  if adr = 0x0 then .status
  else if adr = 0x2 then .globalIntrEna
  else if adr = 0x4 then .versRevi
  else if adr = 0x6 then .srqEna
  else if adr = 0x8 then .srqActive
  else if adr = 0xA then .srqIn
  else if adr = 0xC then .multiSlaveSel
  else if adr = 0xE then .echo1
  else .others

def readOnly : InternReg → Bool
  | .versRevi | .srqActive | .srqIn => true
  | _ => false

/-- The register an access is to; the process does not look at the slave number. -/
def wrAcc : Option InternReg := if r.wbState == .cycStart && i.we then some (internReg r.adr) else none

def rdAcc : Option InternReg := if r.wbState == .cycStart && !i.we then some (internReg r.adr) else none

def intRdDataNext : BitVec 16 :=
  match rdAcc r i with
  | some .status => status r i
  | some .globalIntrEna => r.globalIntrEna
  | some .versRevi => versRevi
  | some .srqEna => 0#4 ++ r.srqEna
  | some .srqActive => 0#4 ++ i.srqActive
  | some .srqIn => 0#4 ++ i.srqSync
  | some .multiSlaveSel => 0#4 ++ r.multiSel
  | some .echo1 => r.internEcho1
  | _ => r.intRdData

/-- An access that `int_regs` answers. -/
def intAckNext : Bool :=
  match rdAcc r i, wrAcc r i with
  | some reg, _ => reg != .others || (r.intAck && r.wbState != .idle)
  | _, some reg => (reg != .others && !readOnly reg) || (r.intAck && r.wbState != .idle)
  | none, none => r.intAck && r.wbState != .idle

def invalidInternNext : Bool :=
  match rdAcc r i, wrAcc r i with
  | some reg, _ => reg == .others || (r.invalidIntern && r.wbState != .idle)
  | _, some reg =>
    reg == .others || readOnly reg ||
      (r.invalidIntern && r.wbState != .idle && !(reg == .status && (wrDataIn i).getLsbD 3))
  | none, none => r.invalidIntern && r.wbState != .idle

/-- A write to the status register clears the error flag of its bit. -/
def clears (bit : Nat) : Bool := wrAcc r i == some .status && (wrDataIn i).getLsbD bit

/-- `dtack` ends the data phase of a write, in a multicast after a delay. -/
def wrDtack : Bool := !r.sync0 && (!r.multiWr || high r.multicastCnt)

def smNext : ScubSM :=
  match r.sm with
  | .idle => if r.startRd then .sRdCyc else if r.startWr then .sWrCyc else .idle
  | .sRdCyc => if high r.selDlyCnt then .rdCyc else .sRdCyc
  | .rdCyc =>
    if high r.dValidCnt then (if !r.sync0 then .eRdCyc else if high r.timeOutCnt then .toRdCyc else .rdCyc) else .rdCyc
  | .toRdCyc => .eRdCyc
  | .eRdCyc => if high r.releaseCnt then .fRdCyc else .eRdCyc
  | .fRdCyc => .idle
  | .sWrCyc => if high r.selDlyCnt then .wrCyc else .sWrCyc
  | .wrCyc =>
    if high r.dValidCnt && (wrDtack r || high r.timeOutCnt) then (if high r.timeOutCnt then .toWrCyc
      else .eWrCyc) else .wrCyc
  | .toWrCyc => .eWrCyc
  | .eWrCyc => if high r.releaseCnt then .fWrCyc else .eWrCyc
  | .fWrCyc => .idle

def endsData : Bool := (r.sm == .rdCyc || r.sm == .wrCyc) && smNext r != r.sm

def dsNext : Bool :=
  match r.sm with
  | .idle => false
  | .rdCyc | .wrCyc => if high r.dValidCnt then !endsData r else r.ds
  | _ => r.ds

def scubSelNext : BitVec 12 :=
  match r.sm with
  | .idle => 0
  | .sRdCyc | .sWrCyc => if high r.selDlyCnt then r.slaveSel else r.scubSel
  | .rdCyc | .wrCyc => if endsData r then 0 else r.scubSel
  | _ => r.scubSel

def scubAddrNext : BitVec 16 :=
  match r.sm with
  | .idle => if r.startRd || r.startWr then r.adr else 0xffff
  | _ => r.scubAddr

def rdnwrNext : Bool :=
  match r.sm with
  | .idle => !(!r.startRd && r.startWr)
  | .toWrCyc => true
  | .eWrCyc => if high r.releaseCnt then true else r.rdnwr
  | _ => r.rdnwr

def selExtDrvNext : Bool :=
  match r.sm with
  | .idle => false
  | .sRdCyc | .sWrCyc => true
  | .eRdCyc => false
  | .wrCyc => if endsData r then false else r.selExtDrv
  | _ => r.selExtDrv

/-- `p_board_sel`. -/
def boardSel : BitVec 12 :=
  if external r.slaveNr then 1#12 <<< (r.slaveNr.toNat - 1)
  else if multicast r.slaveNr && r.startWr then r.multiSel
  else 0

/-- `P_SCUB_Tri_State`: what the master drives on the data bus. -/
def scubDataOut : Option (BitVec 16) := if r.sm == .sWrCyc || r.sm == .wrCyc then some r.wrData else none

def clock : Registers :=
  { wbState := wbNext r i
    adr := if accepts r i then adrIn i else r.adr
    slaveNr := if accepts r i then slaveNrIn i else r.slaveNr
    stall := accepts r i || r.wbState == .cycStart || r.wbState == .extStall
    ack := (r.wbState == .intAcc && !r.invalidIntern && r.intAck) || r.wbState == .extAcc
    err := (r.wbState == .intAcc && r.invalidIntern) || r.wbState == .extErr || r.wbState == .invalidSlave
    rdData := rdDataNext r
    startRd := raisesRd r i
    startWr := raisesWr r i
    multiWr := raisesWr r i && multicast r.slaveNr
    wrData := if raisesWr r i then wrDataIn i else r.wrData
    rdErr := r.sm == .toRdCyc && !clears r i 1
    wrErr := r.sm == .toWrCyc && !clears r i 0
    invalidIntern := invalidInternNext r i
    intAck := intAckNext r i
    intRdData := intRdDataNext r i
    multiSel := if wrAcc r i = some .multiSlaveSel then (wrDataIn i).extractLsb' 0 12 else r.multiSel
    srqEna := if wrAcc r i = some .srqEna then (wrDataIn i).extractLsb' 0 12 else r.srqEna
    internEcho1 := if wrAcc r i = some .echo1 then wrDataIn i else r.internEcho1
    globalIntrEna := if wrAcc r i = some .globalIntrEna then 0#10 ++ (wrDataIn i).extractLsb' 0 6 else r.globalIntrEna
    sm := smNext r
    sync0 := i.nDtack
    sync1 := r.sync0
    extAck := !r.sync1 && r.sync0
    extRdData := if r.sm == .rdCyc && high r.dValidCnt && !r.sync0 then i.scubData else r.extRdData
    selDlyCnt := match r.sm with
      | .idle => cntStart g.selDly
      | .sRdCyc | .sWrCyc => countDown r.selDlyCnt
      | _ => r.selDlyCnt
    dValidCnt := match r.sm with
      | .idle => cntStart g.dValidToDS
      | .rdCyc | .wrCyc => countDown r.dValidCnt
      | _ => r.dValidCnt
    releaseCnt := match r.sm with
      | .idle => cntStart g.selRelease
      | .eRdCyc | .eWrCyc => countDown r.releaseCnt
      | _ => r.releaseCnt
    scubAddr := scubAddrNext r
    rdnwr := rdnwrNext r
    ds := dsNext r
    scubSel := scubSelNext r
    selExtDrv := selExtDrvNext r
    slaveSel := boardSel r
    timeOutCnt := if r.sm == .rdCyc || r.sm == .wrCyc then countDown r.timeOutCnt else cntStart g.timeOut
    multicastCnt := if r.sm == .wrCyc && r.multiWr then countDown r.multicastCnt else cntStart g.dlyMulticastDt }

theorem selDlyCnt_clock : (clock g r i).selDlyCnt = match r.sm with
    | .idle => cntStart g.selDly
    | .sRdCyc | .sWrCyc => countDown r.selDlyCnt
    | _ => r.selDlyCnt := rfl

theorem dValidCnt_clock : (clock g r i).dValidCnt = match r.sm with
    | .idle => cntStart g.dValidToDS
    | .rdCyc | .wrCyc => countDown r.dValidCnt
    | _ => r.dValidCnt := rfl

theorem releaseCnt_clock : (clock g r i).releaseCnt = match r.sm with
    | .idle => cntStart g.selRelease
    | .eRdCyc | .eWrCyc => countDown r.releaseCnt
    | _ => r.releaseCnt := rfl

def run (r : Registers) (inputs : List Inputs) : Registers := inputs.foldl (clock g) r

/-- What no reset touches. -/
structure Junk where
  adr : BitVec 16
  slaveNr : BitVec 4
  rdData : BitVec 16
  wrData : BitVec 16
  intRdData : BitVec 16
  sync0 : Bool
  sync1 : Bool
  extAck : Bool
  extRdData : BitVec 16
  cnt : Int
  scubAddr : BitVec 16

def start (junk : Junk) : Registers :=
  { wbState := .idle, adr := junk.adr, slaveNr := junk.slaveNr, stall := false, ack := false,
    err := false, rdData := junk.rdData
    startRd := false, startWr := false, multiWr := false, wrData := junk.wrData, rdErr := false, wrErr := false
    invalidIntern := false, intAck := false, intRdData := junk.intRdData, multiSel := 0, srqEna := 0, internEcho1 := 0
    globalIntrEna := 0, sm := .idle, sync0 := junk.sync0, sync1 := junk.sync1, extAck :=
      junk.extAck, extRdData := junk.extRdData
    selDlyCnt := junk.cnt, dValidCnt := junk.cnt, releaseCnt := junk.cnt, scubAddr :=
      junk.scubAddr, rdnwr := true, ds := false
    scubSel := 0, selExtDrv := false, slaveSel := 0, timeOutCnt := cntStart g.timeOut, multicastCnt :=
      cntStart g.dlyMulticastDt }

end BelProject.ScuBus.Master
