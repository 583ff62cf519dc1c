import Mathlib.Data.Bool.Basic
import Mathlib.Algebra.Group.Nat.Defs

/-! `Mil_dec_edge_timed`: the receiver for one lane of the MIL bus. It measures the time between
two edges of the Manchester code, tells short, long and sync gaps apart by flags that are up while
the counter is inside a window, and follows the edges with a state machine. -/

namespace BelProject.Mil.Decoder

def deltaInNs : Nat := 200

def clkInPs (hz : Nat) : Nat := 1000000000 / (hz / 1000)

def cnt (hz ns : Nat) : Nat := ns * 1000 / clkInPs hz

def bitShortStandardNs : Nat := 500

/-- `Timeout_Time_cnt`, two tolerances behind the longest gap. -/
def timeoutTimeCnt (hz : Nat) : Nat := cnt hz (2000 + deltaInNs + deltaInNs)

/-- `How_many_Bits`, for integers of 32 bits. -/
def howManyBits : Nat → Nat → Nat
  | 0, _ => 0
  | i + 1, int => if int = 0 then 0 else howManyBits i (int / 2) + 1

/-- The windows: `Bit_short_time`, `Bit_long_time`, `Sync` and `Sync_with_bit`. -/
inductive Gap where
  | short | long | sync | syncWithBit
  deriving DecidableEq, Repr

instance (p : Gap → Prop) [DecidablePred p] : Decidable (∀ g, p g) :=
  decidable_of_iff (p .short ∧ p .long ∧ p .sync ∧ p .syncWithBit)
    ⟨fun ⟨short, long, sync, syncWithBit⟩ g => by cases g <;> assumption, fun all => ⟨all _, all _, all _, all _⟩⟩

def Gap.ns : Gap → Nat
  | .short => 500
  | .long => 1000
  | .sync => 1500
  | .syncWithBit => 2000

def Gap.halves : Gap → Nat
  | .short => 1
  | .long => 2
  | .sync => 3
  | .syncWithBit => 4

def minCnt (hz : Nat) (g : Gap) : Nat := cnt hz (g.ns - deltaInNs)

def maxCnt (hz : Nat) (g : Gap) : Nat := cnt hz (g.ns + deltaInNs)

/-- `T_RCV_SM`. -/
inductive State where
  | idle | sync1or2 | sync2orData | data | parity | err
  deriving DecidableEq, Repr

/-- The registers of `P_RCV_SM`: the state, and the signals it gives. `clr` are the `S_Clr_Is_`
signals. -/
structure Machine where
  state : State
  nextShort : Bool
  isCmd : Bool
  shiftEna : Bool
  parityOk : Bool
  clr : Gap → Bool

structure Registers where
  machine : Machine
  /-- `S_Manchester_Sync`, from the newest -/
  sync0 : Bool
  sync1 : Bool
  sync2 : Bool
  /-- `S_Time_between_2_Edges_cnt` -/
  count : Nat
  /-- `S_Is_Sync` and so on -/
  isGap : Gap → Bool
  waitShort : Bool
  leaveParityTst : Bool
  isTimeout : Bool
  shift : BitVec 18
  parityTst : Bool
  rcvData : BitVec 16
  rcvError : Bool
  rcvRdy : Bool
  rcvRdyDelayed : Bool
  isCmdMemory : Bool

structure Inputs where
  manchesterIn : Bool
  rdMil : Bool
  res : Bool

/-- A flag is up in these states only. -/
def opens (s : State) : Gap → Bool
  | .short => s == .data || s == .sync2orData
  | .long => s == .data
  | .sync | .syncWithBit => s == .sync1or2 || s == .sync2orData

section
variable (hz : Nat) (posLane : Bool) (r : Registers) (i : Inputs)

/-- `S_Edge_Detect`. -/
def edgeDetect : Bool := (!r.sync2 && r.sync1) || (r.sync2 && !r.sync1)

/-- The reset of `P_RCV_SM`. -/
def Machine.reset (m : Machine) : Machine :=
  { m with state := .idle, shiftEna := false, parityOk := false, clr := fun _ => true, isCmd := false }

/-- `Res` and a timeout act at once. -/
def settle (res : Bool) : Registers :=
  { r with
    machine := if res || r.isTimeout then r.machine.reset else r.machine
    rcvData := if res then 0 else r.rcvData
    rcvError := if res then false else r.rcvError
    rcvRdy := if res then false else r.rcvRdy
    isCmdMemory := if res then false else r.isCmdMemory }

/-- `P_Time_between_2_Edges_cnt`. The counter stops at its highest bit. -/
def nextCount : Nat :=
  if edgeDetect r || r.machine.state == .idle then 0
  else if r.count.testBit (howManyBits 32 (timeoutTimeCnt hz)) then r.count
  else r.count + 1

/-- `P_Is_Sync`, `P_Is_Sync_with_bit`, `P_Is_Bit_short` and `P_Is_Bit_long`. -/
def nextIsGap (g : Gap) : Bool :=
  if r.count = minCnt hz g ∧ opens r.machine.state g = true then true
  else if r.count = maxCnt hz g ∨ r.machine.clr g = true then false
  else r.isGap g

def Machine.lower (m : Machine) : Machine := { m with shiftEna := false, parityOk := false, clr := fun _ => false }

def only (g : Gap) : Gap → Bool := fun other => decide (other = g)

/-- `P_RCV_SM`. -/
def nextMachine : Machine :=
  let m := r.machine.lower
  match r.machine.state with
  | .idle => { m with nextShort := false, state := if edgeDetect r then .sync1or2 else .idle }
  | .sync1or2 =>
    if edgeDetect r then
      if r.isGap .syncWithBit then { m with clr := only .syncWithBit, shiftEna := true, isCmd := !posLane, state := .data }
      else if r.isGap .sync then { m with clr := only .sync, state := .sync2orData }
      else { m with state := .idle }
    else m
  | .sync2orData =>
    if edgeDetect r then
      if r.isGap .syncWithBit then { m with clr := only .syncWithBit, shiftEna := true, isCmd := posLane, state := .data }
      else if r.isGap .sync then { m with clr := only .sync, isCmd := posLane, nextShort := true, state := .data }
      else if r.isGap .short then { m with clr := only .short, isCmd := !posLane, shiftEna := true, state := .data }
      else { m with state := .err }
    else m
  | .data =>
    if r.shift.msb then { m with state := .parity }
    else if edgeDetect r then
      if (r.isGap .short && r.machine.nextShort) || (r.isGap .long && !r.machine.nextShort) then
        { m with clr := fun g => g == .long || g == .short, shiftEna := true, nextShort := false }
      else if r.isGap .short && !r.machine.nextShort then { m with clr := only .short, nextShort := true }
      else { m with clr := only .long, state := .err }
    else m
  | .parity =>
    let last := r.shift.getLsbD 0
    -- One more edge comes behind a last bit that does not end at the level of the line at rest.
    if last = !posLane then
      if edgeDetect r || r.leaveParityTst then
        if r.parityTst = (if posLane then !last else last) then { m with parityOk := true, state := .idle }
        else { m with state := .err }
      else m
    else if r.waitShort then
      if r.parityTst = (if posLane then last else !last) then { m with parityOk := true, state := .idle }
      else { m with state := .err }
    else m
  | .err => { m with state := .idle }

def bitIn : Bool := if posLane then r.sync2 else !r.sync2

def edge : Registers :=
  { machine := if i.res || r.isTimeout then r.machine else nextMachine posLane r
    sync0 := !i.manchesterIn
    sync1 := r.sync0
    sync2 := r.sync1
    count := nextCount hz r
    isGap := nextIsGap hz r
    waitShort := decide (r.count = cnt hz bitShortStandardNs - 1 ∧ r.machine.state = .parity)
    leaveParityTst :=
      if r.count = timeoutTimeCnt hz - 3 ∧ r.machine.state = .parity then true
      else if r.count = timeoutTimeCnt hz then r.leaveParityTst
      else if r.machine.state = .idle then false else r.leaveParityTst
    isTimeout :=
      if r.count = timeoutTimeCnt hz - 3 ∧ r.machine.state = .parity then r.isTimeout
      else if r.count = timeoutTimeCnt hz then true
      else if r.machine.state = .idle then false else r.isTimeout
    shift :=
      if r.machine.state = .idle then 1
      else if r.machine.shiftEna then r.shift.shiftConcat (bitIn posLane r) else r.shift
    parityTst :=
      if r.machine.state = .idle then false
      else if r.machine.shiftEna && bitIn posLane r then !r.parityTst else r.parityTst
    rcvData := if r.machine.parityOk then r.shift.extractLsb' 1 16 else r.rcvData
    rcvError := !i.res && (r.machine.state == .err || r.isTimeout)
    rcvRdy := if i.rdMil || r.machine.state == .err then false else if r.machine.parityOk then true else r.rcvRdy
    rcvRdyDelayed := if i.res then r.rcvRdyDelayed else r.rcvRdy
    isCmdMemory := if i.rdMil || r.machine.state == .err then false
      else if r.machine.parityOk then r.machine.isCmd else r.isCmdMemory }

def clock : Registers := edge hz posLane (settle r i.res) i

end

end BelProject.Mil.Decoder
