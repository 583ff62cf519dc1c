import Mathlib.Data.Nat.Basic
import Mathlib.Logic.Function.Basic
import Mathlib.Algebra.Group.Nat.Defs

/-! `heap_pathfinder`: the half of the heap that walks along the keys. It presents the places
of a path one a clock, and tells which of them is the last. Indices are numbers below
2^g_idx_width; where the source cuts them to their width, so does the model. -/

namespace BelProject.Heap.Pathfinder

def fGetParent (idxChild : Nat) : Nat := if idxChild = 1 then idxChild else idxChild / 2

def fGetLChild (width idxParent : Nat) : Nat := 2 * idxParent % 2 ^ width

def fGetRChild (width idxParent : Nat) : Nat := (2 * idxParent % 2 ^ width + 1) % 2 ^ width

/-- The bit of `ptr` at the highest one of `last`; the loop runs down from the width. -/
def fIsLowestLevel : Nat → Nat → Nat → Bool
  | 0, _, _ => false
  | i + 1, ptr, last => if last.testBit i then ptr.testBit i else fIsLowestLevel i ptr last

/-- The read port of `generic_dpram` in a clock. What a place reads as while it is written is
not defined, and so comes from outside. -/
def dpramRead {α : Type} (ram : Nat → α) (adr : Nat) (we : Bool) (wrAdr : Nat) (clash : α) : α :=
  if we && adr == wrAdr then clash else ram adr

def dpramWrite {α : Type} (ram : Nat → α) (we : Bool) (wrAdr : Nat) (dat : α) : Nat → α :=
  if we then Function.update ram wrAdr dat else ram

/-- `t_op_state`. -/
inductive OpState where
  | idle | heapUp | heapUpSetup | heapDown | heapDownSetup | update
  deriving DecidableEq, Repr

/-- `s_adr_mode`. -/
inductive AdrMode where
  | default | down | up
  deriving DecidableEq, Repr

variable {k : Nat}

/-- The registers of the machine, the two copies of the keys and their read ports. -/
structure Registers (k : Nat) where
  state : OpState
  ptr : Nat
  last : Nat
  newLast : Nat
  mov : BitVec k
  adrMode : AdrMode
  busy : Bool
  posFound : Bool
  ram0 : Nat → BitVec k
  ram1 : Nat → BitVec k
  qa0 : BitVec k
  qa1 : BitVec k

structure Inputs (k : Nat) where
  push : Bool
  pop : Bool
  movkey : BitVec k
  wrKey : BitVec k
  wrIdx : Nat
  we : Bool
  clash0 : BitVec k
  clash1 : BitVec k
  /-- what the second port reads while its address is not driven -/
  undriven : BitVec k

variable (w : Nat) (r : Registers k)

def aGreB : Bool := decide (r.qa1 ≤ r.qa0) && decide (fGetRChild w r.ptr ≤ r.newLast)

def aGreMov : Bool := decide (r.mov ≤ r.qa0)

def bGreMov : Bool := decide (r.mov ≤ r.qa1) && decide (fGetRChild w r.ptr ≤ r.newLast)

def full : Bool := r.last == 2 ^ w - 1

def empty : Bool := r.last == 0

def ptrDown : Nat :=
  if r.state = .heapDownSetup then 1
  else if !aGreB w r && !aGreMov r then fGetLChild w r.ptr
  else if aGreB w r && !bGreMov w r then fGetRChild w r.ptr
  else r.ptr

def parentLeChildren : Bool :=
  (bGreMov w r || decide (r.newLast < fGetRChild w r.ptr)) && (aGreMov r || decide (r.newLast < fGetLChild w r.ptr)) &&
    r.state == .heapDown

def lowestLevel : Bool := fIsLowestLevel w r.ptr r.newLast && r.state == .heapDown

/-- In the setup state this is the last place before the new one is counted. -/
def ptrUp : Nat :=
  if r.state = .heapUpSetup then r.last
  else if aGreMov r then fGetParent r.ptr
  else r.ptr

def childGreParent : Bool := !aGreMov r && r.state == .heapUp

def highestLevel : Bool := ptrUp r == 1 && r.state == .heapUp

/-- `s_pos_found`, which is `final_o`. -/
def posFound : Bool := parentLeChildren w r || lowestLevel w r || (childGreParent r || highestLevel r)

/-- `s_valid`, which is `valid_o`. -/
def valid : Bool := r.state == .heapDown || r.state == .heapUp

def adr0 : Nat :=
  match r.adrMode with
  | .down => fGetLChild w (ptrDown w r)
  | .up => fGetParent (ptrUp r)
  | .default => 1

/-- The address of the second read port; going up nothing drives it. -/
def adr1 : Option Nat :=
  match r.adrMode with
  | .down => some (fGetRChild w (ptrDown w r))
  | .up => none
  | .default => some r.last

/-- The next state, `v_state`. -/
def nextState (i : Inputs k) : OpState :=
  match r.state with
  | .idle =>
    match i.push, i.pop with
    | true, false => if full w r then .idle else .heapUpSetup
    | false, true => if empty r then .idle else if r.last = 1 then .update else .heapDownSetup
    | true, true => .heapDownSetup
    | false, false => .idle
  | .heapUpSetup => .heapUp
  | .heapDownSetup => .heapDown
  | .heapDown => if posFound w r then .update else .heapDown
  | .heapUp => if r.posFound then .update else .heapUp
  | .update => .idle

/-- The other registers of the process `main`. In the idle state the moving key follows the
last entry, unless an operation starts. -/
def main (i : Inputs k) : Registers k :=
  match r.state with
  | .idle =>
    match i.push, i.pop with
    | true, false =>
      if full w r then { r with mov := r.qa1 }
      else { r with mov := i.movkey, ptr := (r.last + 1) % 2 ^ w, newLast := (r.last + 1) % 2 ^ w }
    | false, true =>
      if empty r then { r with mov := r.qa1 }
      else { r with newLast := r.last - 1, ptr := 1 }
    | true, true => { r with mov := i.movkey, newLast := r.last, ptr := 1 }
    | false, false => { r with mov := r.qa1 }
  | .heapUpSetup => { r with last := r.newLast }
  | .heapDownSetup => r
  | .heapDown => { r with ptr := ptrDown w r }
  | .heapUp => { r with ptr := ptrUp r }
  | .update => { r with last := r.newLast }

def adrModeOf : OpState → AdrMode
  | .heapDownSetup | .heapDown => .down
  | .heapUpSetup | .heapUp => .up
  | _ => .default

def clock (i : Inputs k) : Registers k :=
  { main w r i with
    state := nextState w r i
    adrMode := adrModeOf (nextState w r i)
    busy := nextState w r i != .idle
    posFound := posFound w r
    ram0 := dpramWrite r.ram0 i.we i.wrIdx i.wrKey
    ram1 := dpramWrite r.ram1 i.we i.wrIdx i.wrKey
    qa0 := dpramRead r.ram0 (adr0 w r) i.we i.wrIdx i.clash0
    qa1 := match adr1 w r with
      | some adr => dpramRead r.ram1 adr i.we i.wrIdx i.clash1
      | none => i.undriven }

theorem clock_qa1 (i : Inputs k) : (clock w r i).qa1 = match adr1 w r with
    | some adr => dpramRead r.ram1 adr i.we i.wrIdx i.clash1
    | none => i.undriven := rfl

section States
variable {w : Nat} {r : Registers k} {i : Inputs k}

theorem main_upSetup (state : r.state = .heapUpSetup) : main w r i = { r with last := r.newLast } := by
  unfold main
  split <;> simp_all

theorem main_downSetup (state : r.state = .heapDownSetup) : main w r i = r := by
  unfold main
  split <;> simp_all

theorem main_up (state : r.state = .heapUp) : main w r i = { r with ptr := ptrUp r } := by
  unfold main
  split <;> simp_all

theorem main_down (state : r.state = .heapDown) : main w r i = { r with ptr := ptrDown w r } := by
  unfold main
  split <;> simp_all

theorem main_update (state : r.state = .update) : main w r i = { r with last := r.newLast } := by
  unfold main
  split <;> simp_all

section
variable (state : r.state = .idle)
include state

theorem main_idle (push : i.push = false) (pop : i.pop = false) : main w r i = { r with mov := r.qa1 } := by
  unfold main
  rw [push, pop]
  split <;> simp_all

theorem main_push (push : i.push = true) (pop : i.pop = false) (room : full w r = false) :
    main w r i = { r with mov := i.movkey, ptr := (r.last + 1) % 2 ^ w, newLast := (r.last + 1) % 2 ^ w } := by
  unfold main
  rw [push, pop]
  split <;> simp_all

theorem main_pop (push : i.push = false) (pop : i.pop = true) (some : empty r = false) :
    main w r i = { r with newLast := r.last - 1, ptr := 1 } := by
  unfold main
  rw [push, pop]
  split <;> simp_all

theorem main_replace (push : i.push = true) (pop : i.pop = true) :
    main w r i = { r with mov := i.movkey, newLast := r.last, ptr := 1 } := by
  unfold main
  rw [push, pop]
  split <;> simp_all

theorem nextState_wait (push : i.push = false) (pop : i.pop = false) : nextState w r i = .idle := by
  unfold nextState
  rw [push, pop]
  split <;> simp_all

theorem nextState_push (push : i.push = true) (pop : i.pop = false) (room : full w r = false) :
    nextState w r i = .heapUpSetup := by
  unfold nextState
  rw [push, pop]
  split <;> simp_all

theorem nextState_pop (push : i.push = false) (pop : i.pop = true) (some : empty r = false) :
    nextState w r i = if r.last = 1 then .update else .heapDownSetup := by
  unfold nextState
  rw [push, pop]
  split <;> simp_all

theorem nextState_replace (push : i.push = true) (pop : i.pop = true) : nextState w r i = .heapDownSetup := by
  unfold nextState
  rw [push, pop]
  split <;> simp_all

end

end States

end BelProject.Heap.Pathfinder
