import Mathlib.Data.BitVec
import Mathlib.Logic.Function.Basic

/-! The event filter of `wb_mil_scu`: the part of the Wishbone process that serves the filter
range, and `event_processing` with the filter RAM behind it. What the decoder of the timing
line and the event FIFO show comes in from outside, and so does the answer of the other
registers. -/

namespace BelProject.MilScu.EventProcessing

/-- `t_filt_cntrl_sm`. -/
inductive FiltCntrl where
  | fiIdle | fiWr | fiRd | evRd | evRdFin
  deriving DecidableEq, Repr

abbrev Ram := BitVec 12 → BitVec 6

structure Inputs where
  cyc : Bool
  stb : Bool
  we : Bool
  adr : BitVec 32
  dat : BitVec 32
  sel : BitVec 4
  /-- `timing_rcv and timing_cmd` -/
  timingReceived : Bool
  eventD : BitVec 16
  eventO : BitVec 16
  /-- the answer of another register to a strobe: an ack or an err with its data, or a stall -/
  others : Option (Bool × BitVec 32)
  /-- what the RAM shows after a clock that writes -/
  conflict : BitVec 6

structure Registers where
  -- `wb_mil_scu`
  exStall : Bool
  exAck : Bool
  exErr : Bool
  wrFiltRam : Bool
  rdFiltRam : Bool
  dat : BitVec 32
  -- `event_processing`
  sm : FiltCntrl
  lastAccEvent : Bool
  eventFin : Bool
  fiStall : Bool
  -- `filter_ram`
  ram : Ram
  filtDataO : BitVec 6

/-- `ev_filt_first_a to ev_filt_last_a`. -/
def inFilter (adr : BitVec 32) : Bool :=
  decide (0x1000 ≤ adr.extractLsb' 2 13) && decide (adr.extractLsb' 2 13 ≤ 0x1fff)

variable (r : Registers) (i : Inputs)

def filtAddr : BitVec 12 := i.adr.extractLsb' 2 12

def filtDataI : BitVec 6 := i.dat.extractLsb' 0 6

def begins : Bool := i.cyc && i.stb && r.exStall

def filterAccess : Bool := begins r i && inFilter i.adr && i.sel == 15

def smNext : FiltCntrl :=
  match r.sm with
  | .fiIdle =>
    if i.timingReceived && !r.wrFiltRam && !r.rdFiltRam then .evRd
    else if !i.timingReceived && r.wrFiltRam then .fiWr
    else if !i.timingReceived && r.rdFiltRam then .fiRd
    else if i.timingReceived && r.wrFiltRam then (if r.lastAccEvent then .fiWr else .evRd)
    else if i.timingReceived && r.rdFiltRam then (if r.lastAccEvent then .fiRd else .evRd)
    else .fiIdle
  | .evRd => .evRdFin
  | .evRdFin => .fiIdle
  | .fiWr => if r.wrFiltRam then .fiWr else .fiIdle
  | .fiRd => if r.rdFiltRam then .fiRd else .fiIdle

/-- `p_mux_filter_addr`. -/
def filterAddr : BitVec 12 :=
  if r.sm == .evRd || r.sm == .evRdFin then i.eventD.extractLsb' 0 12 else filtAddr i

def filtWr : Bool := r.sm == .fiWr

/-- `p_mux_read_port`. -/
def readPort : BitVec 16 := if r.sm == .fiRd then 0#10 ++ r.filtDataO else i.eventO

/-- What the Wishbone process answers in the next clock: stall, ack, err and data. -/
def answer : Bool × Bool × Bool × BitVec 32 :=
  if begins r i then
    if inFilter i.adr then
      if i.sel == 15 then (r.fiStall, !r.fiStall, false, if i.we then 0 else 0#16 ++ readPort r i)
      else (false, false, true, 0)
    else
      match i.others with
      | none => (true, false, false, 0)
      | some (ack, dat) => (false, ack, !ack, dat)
  else (true, false, false, 0)

def clock : Registers :=
  { exStall := (answer r i).1
    exAck := (answer r i).2.1
    exErr := (answer r i).2.2.1
    wrFiltRam := filterAccess r i && i.we
    rdFiltRam := filterAccess r i && !i.we
    dat := (answer r i).2.2.2
    sm := smNext r i
    lastAccEvent := match r.sm with
      | .evRd => true
      | .fiWr | .fiRd => false
      | _ => r.lastAccEvent
    eventFin := r.sm == .evRd
    fiStall := !(r.sm == .fiWr || r.sm == .fiRd)
    ram := if filtWr r then Function.update r.ram (filterAddr r i) (filtDataI i) else r.ram
    filtDataO := if filtWr r then i.conflict else r.ram (filterAddr r i) }

theorem lastAccEvent_clock : (clock r i).lastAccEvent = match r.sm with
    | .evRd => true
    | .fiWr | .fiRd => false
    | _ => r.lastAccEvent := rfl

/-- The state a reset leaves; the RAM keeps what is in it. -/
def reset (ram : Ram) (filtDataO : BitVec 6) : Registers :=
  { exStall := true, exAck := false, exErr := false, wrFiltRam := false, rdFiltRam := false, dat := 0
    sm := .fiIdle, lastAccEvent := false, eventFin := false, fiStall := true, ram := ram, filtDataO := filtDataO }

end BelProject.MilScu.EventProcessing
