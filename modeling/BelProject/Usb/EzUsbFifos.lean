import Mathlib.Data.BitVec
import Mathlib.Data.Fin.Basic
import Mathlib.Tactic.SplitIfs
import Mathlib.Logic.Function.Basic

/-! `ez_usb_fifos`: a Wishbone port for each FIFO of the EZ-USB chip, and one machine that takes
turns with them on the chip's bus. The counter of the machine stays below the longest of its
times and is a natural number. -/

namespace BelProject.Usb.EzUsbFifos

structure Generics where
  clockPeriod : Int
  boardDelay : Int
  margin : Int
  positive : 0 < clockPeriod

/-- `t_state`. -/
inductive FsmState where
  | latchFlags | dispatch | setAddr | driveRead | latchData | idleRead | driveWrite
  | idleWrite | idleData | drivePktend | idlePktend
  deriving DecidableEq, Repr

def fCycles (g : Generics) (x : Int) : Int :=
  if x + g.margin ≤ 0 then 1 else (x + g.margin + g.clockPeriod - 1) / g.clockPeriod

def fNs (g : Generics) (x : Int) : Int := x * g.clockPeriod

def cLatchFlags : Int := 2

def cDispatch : Int := 1

section
variable (g : Generics)

def cSetAddr : Int := fCycles g (max (11 + g.boardDelay * 2) (10 - fNs g (cLatchFlags + cDispatch)))

def cDriveRead : Int := fCycles g (max 11 15 + g.boardDelay * 2)

def cLatchData : Int := fCycles g (50 - fNs g (cDriveRead g))

def cIdleRead : Int :=
  fCycles g (max (50 - fNs g (cLatchFlags + cDispatch))
    (max (70 + 10 + g.boardDelay * 2 - fNs g (cDriveRead g + cLatchData g))
      (max (11 - fNs g (cLatchData g + cLatchFlags + cDispatch)) (10 - fNs g (cLatchFlags + cDispatch)))))

def cDriveWrite : Int := fCycles g (max 50 10)

def cIdleWrite : Int := fCycles g 10

def cIdleData : Int :=
  fCycles g (max (70 - fNs g (cLatchFlags + cDispatch + cIdleWrite g))
    (max (70 + 10 + g.boardDelay * 2 - fNs g (cDriveWrite g + cIdleWrite g))
      (10 - fNs g (cIdleWrite g + cLatchFlags + cDispatch))))

def cDrivePktend : Int := fCycles g 50

def cIdlePktend : Int :=
  fCycles g (max (50 - fNs g (cLatchFlags + cDispatch))
    (max (115 + g.boardDelay * 2 - fNs g (cDrivePktend g)) (10 - fNs g (cLatchFlags + cDispatch))))

def cycles : FsmState → Nat
  | .latchFlags => cLatchFlags.toNat
  | .dispatch => cDispatch.toNat
  | .setAddr => (cSetAddr g).toNat
  | .driveRead => (cDriveRead g).toNat
  | .latchData => (cLatchData g).toNat
  | .idleRead => (cIdleRead g).toNat
  | .driveWrite => (cDriveWrite g).toNat
  | .idleWrite => (cIdleWrite g).toNat
  | .idleData => (cIdleData g).toNat
  | .drivePktend => (cDrivePktend g).toNat
  | .idlePktend => (cIdlePktend g).toNat

end

theorem fCycles_pos (g : Generics) (x : Int) : 0 < fCycles g x := by
  unfold fCycles
  split_ifs with low
  · decide
  · have positive := g.positive
    have whole : 1 ≤ (x + g.margin + g.clockPeriod - 1) / g.clockPeriod := Int.le_ediv_of_mul_le positive (by omega)
    omega

theorem cycles_pos (g : Generics) (state : FsmState) : 0 < cycles g state := by
  have some := fCycles_pos g
  cases state with
  | latchFlags => exact Nat.zero_lt_two
  | dispatch => exact Nat.zero_lt_one
  | _ => exact Int.pos_iff_toNat_pos.mp (some _)

structure SlaveIn where
  cyc : Bool
  stb : Bool
  we : Bool
  dat : BitVec 32

structure Inputs (num width : Nat) where
  slave : Fin num → SlaveIn
  readyn : Bool
  fulln : Bool
  emptyn : Bool
  fd : BitVec width

/-- The registers. Each of the three flags has two for the synchronisation, the older one second. -/
structure Registers (num width : Nat) where
  state : FsmState
  notready : Bool × Bool
  notempty : Bool × Bool
  notfull : Bool × Bool
  count : Nat
  addr : Fin num
  fdR : BitVec width
  dat4usb : Fin num → BitVec width
  dat4wb : Fin num → BitVec width
  needend : Fin num → Bool
  request : Fin num → Bool
  write : Fin num → Bool
  stall : Fin num → Bool
  ack : Fin num → Bool
  sloen : Bool
  slrdn : Bool
  slwrn : Bool
  pktendn : Bool
  fdO : BitVec width
  fdOen : Bool

open Function (update)

variable {num width : Nat} [NeZero num] (g : Generics) (r : Registers num width) (i : Inputs num width)

def accepts (port : Fin num) : Bool := !r.stall port && (i.slave port).cyc && (i.slave port).stb

def expires : Bool := decide (r.count + 1 = cycles g r.state)

def countNext : Nat := if expires g r then 0 else r.count + 1

def allowed : Bool := if r.write r.addr then r.notfull.2 && !r.notready.2 else r.notempty.2 && !r.notready.2

/-- The process `fsm`, but for the reset. -/
def fsm : Registers num width :=
  match r.state with
  | .latchFlags =>
    let taken := accepts r i r.addr
    { r with
      ack := update r.ack r.addr false
      stall := update r.stall r.addr (if expires g r then true else if taken then true else r.request r.addr)
      request := if taken then update r.request r.addr true else r.request
      write := if taken then update r.write r.addr (i.slave r.addr).we else r.write
      dat4usb := if taken then update r.dat4usb r.addr ((i.slave r.addr).dat.setWidth width) else r.dat4usb
      state := if expires g r then .dispatch else .latchFlags
      count := countNext g r }
  | .dispatch =>
    { r with
      state :=
        if r.request r.addr then (if allowed r then (if r.write r.addr then .driveWrite else .driveRead) else .setAddr)
        else if r.needend r.addr then .drivePktend else .setAddr
      request := if r.request r.addr && allowed r then update r.request r.addr false else r.request
      count := 0 }
  | .setAddr =>
    { r with
      addr := if r.count = 0 then r.addr + 1 else r.addr
      state := if expires g r then .latchFlags else .setAddr
      count := countNext g r }
  | .driveRead =>
    { r with
      sloen := false
      slrdn := false
      state := if expires g r then .latchData else .driveRead
      count := countNext g r }
  | .latchData =>
    { r with
      sloen := true
      fdR := if r.count = 0 then i.fd else r.fdR
      state := if expires g r then .idleRead else .latchData
      count := countNext g r }
  | .idleRead =>
    { r with
      dat4wb := update r.dat4wb r.addr r.fdR
      slrdn := true
      ack := if expires g r then update r.ack r.addr true else r.ack
      state := if expires g r then .latchFlags else .idleRead
      count := countNext g r }
  | .driveWrite =>
    { r with
      slwrn := false
      fdOen := true
      fdO := r.dat4usb r.addr
      needend := update r.needend r.addr true
      state := if expires g r then .idleWrite else .driveWrite
      count := countNext g r }
  | .idleWrite =>
    { r with
      slwrn := true
      state := if expires g r then .idleData else .idleWrite
      count := countNext g r }
  | .idleData =>
    { r with
      fdOen := false
      ack := if expires g r then update r.ack r.addr true else r.ack
      state := if expires g r then .latchFlags else .idleData
      count := countNext g r }
  | .drivePktend =>
    { r with
      pktendn := false
      needend := update r.needend r.addr false
      state := if expires g r then .idlePktend else .drivePktend
      count := countNext g r }
  | .idlePktend =>
    { r with
      pktendn := true
      state := if expires g r then .latchFlags else .idlePktend
      count := countNext g r }

/-- One rising edge: `fsm` and `sync`. -/
def clock : Registers num width :=
  { fsm g r i with
    notready := (i.readyn, r.notready.1)
    notfull := (i.fulln, r.notfull.1)
    notempty := (i.emptyn, r.notempty.1) }

/-- The state a reset leaves. The flags in the synchronisation are not reset. -/
def reset (notready notempty notfull : Bool × Bool) : Registers num width :=
  { state := .latchFlags, notready := notready, notempty := notempty, notfull := notfull, count := 0,
    addr := 0, fdR := 0
    dat4usb := fun _ => 0, dat4wb := fun _ => 0, needend := fun _ => false, request :=
      fun _ => false, write := fun _ => false
    stall := fun _ => true, ack := fun _ => false, sloen := true, slrdn := true, slwrn :=
      true, pktendn := true, fdO := 0
    fdOen := false }

end BelProject.Usb.EzUsbFifos
