import BelProject.Heap.Pathfinder

/-! `heap_writer`: the half of the heap that copies the entries. Two clocks behind the
pathfinder, it writes every entry of the path to the place before it, and the moving entry to
the last place; then it presents the first entry, and keeps a copy of the last one. -/

namespace BelProject.Heap.Writer
open Pathfinder (fGetParent dpramRead dpramWrite)

/-- `t_data`: a key and its payload. -/
structure Entry (k v : Nat) where
  key : BitVec k
  val : BitVec v
  deriving DecidableEq

/-- `t_op_state`. -/
inductive OpState where
  | idle | setup | copy | setAdr1st | setAdrLastCpy1st | cpyLast | dbgRdC | dbgRdP | dbgVer | dbgWait
  deriving DecidableEq, Repr

/-- `r_rd_adr_mode`. -/
inductive RdAdrMode where
  | inp | output | update | dbg
  deriving DecidableEq, Repr

variable {k v : Nat}

structure Registers (k v : Nat) where
  state : OpState
  rdAdrMode : RdAdrMode
  mov : Entry k v
  wrIdx0 : Nat
  wrIdx1 : Nat
  fin0 : Bool
  fin1 : Bool
  fin2 : Bool
  en0 : Bool
  en1 : Bool
  ram : Nat → Entry k v
  rdVal : Entry k v
  busy : Bool
  out : Bool
  data : Entry k v
  dbgOk : Bool
  dbgErr : Bool
  dbgPtr : Nat
  dbgAdr : Nat
  dbgCmp : Entry k v

structure Inputs (k v : Nat) where
  push : Bool
  dbgShow : Bool
  data : Entry k v
  idx : Nat
  last : Nat
  final : Bool
  en : Bool
  clash : Entry k v

variable (r : Registers k v)

/-- `s_wr_val`: behind the last place of a path comes the moving entry. -/
def wrVal : Entry k v := if r.fin1 && !r.fin0 then r.mov else r.rdVal

def done : Bool := r.fin2 && !r.fin1

def rdIdx (i : Inputs k v) : Nat :=
  match r.rdAdrMode with
  | .output => 1
  | .update => i.last
  | .dbg => r.dbgAdr
  | .inp => i.idx

/-- The order is broken at the pair the check looks at. -/
def broken : Bool := decide (r.dbgCmp.key < r.rdVal.key)

/-- The next state, `v_state`. -/
def nextState (i : Inputs k v) : OpState :=
  match r.state with
  | .idle => if i.dbgShow then .dbgRdC else if i.en then .copy else .idle
  | .copy => if done r then .setAdr1st else .copy
  | .setAdr1st => .setAdrLastCpy1st
  | .setAdrLastCpy1st => .cpyLast
  | .cpyLast => .idle
  | .dbgRdC => .dbgRdP
  | .dbgRdP => .dbgWait
  | .dbgWait => .dbgVer
  | .dbgVer => if i.last = 0 || broken r || r.dbgPtr = 1 then .setAdr1st else .dbgRdC
  | .setup => .idle

def rdAdrModeOf : OpState → RdAdrMode
  | .setAdr1st => .output
  | .setAdrLastCpy1st => .update
  | .dbgRdC | .dbgRdP | .dbgVer | .dbgWait => .dbg
  | _ => .inp

/-- One rising edge. The pointer of the check runs down from the last place. -/
def clock (w : Nat) (i : Inputs k v) : Registers k v :=
  { state := nextState r i
    rdAdrMode := rdAdrModeOf (nextState r i)
    mov := if r.state = .idle && i.push then i.data else if r.state = .cpyLast then r.rdVal else r.mov
    wrIdx0 := i.idx
    wrIdx1 := r.wrIdx0
    fin0 := i.final
    fin1 := r.fin0
    fin2 := r.fin1
    en0 := i.en
    en1 := r.en0
    ram := dpramWrite r.ram r.en1 r.wrIdx1 (wrVal r)
    rdVal := dpramRead r.ram (rdIdx r i) r.en1 r.wrIdx1 i.clash
    busy := nextState r i != .idle
    out := r.state == .setAdrLastCpy1st
    data := r.rdVal
    dbgOk := r.state == .dbgVer && (r.dbgPtr == 1 || i.last == 0)
    dbgErr := r.state == .dbgVer && i.last != 0 && broken r
    dbgPtr := if r.state = .idle && i.dbgShow then i.last
      else if r.state = .dbgVer then (r.dbgPtr + 2 ^ w - 1) % 2 ^ w else r.dbgPtr
    dbgAdr := if r.state = .idle && i.dbgShow then i.last
      else if r.state = .dbgRdP then fGetParent r.dbgPtr
      else if r.state = .dbgVer then (r.dbgPtr + 2 ^ w - 1) % 2 ^ w else r.dbgAdr
    dbgCmp := if r.state = .dbgWait then r.rdVal else r.dbgCmp }

end BelProject.Heap.Writer
