import Mathlib.Data.Multiset.AddSub
import BelProject.Library.BinaryHeap
import BelProject.Heap.Writer

/-! `heap_top`: pathfinder and writer, as the source connects them. Beside the registers runs
the multiset the heap stands for, and the entry it presented last. -/

namespace BelProject.Heap.HeapTop
open BelProject.Library.BinaryHeap
open Writer (Entry)

variable {k v : Nat}

/-- The inputs of a clock, and what the RAMs read where the source leaves it open. -/
structure Event (k v : Nat) where
  push : Bool
  pop : Bool
  dbgShow : Bool
  data : Entry k v
  clash0 : BitVec k
  clash1 : BitVec k
  undriven : BitVec k
  clash : Entry k v

structure World (k v : Nat) where
  pf : Pathfinder.Registers k
  wr : Writer.Registers k v
  /-- the abstract queue -/
  bag : Multiset (Entry k v)
  /-- `data_o` when `out_o` was up last: the entry the next pop or replace removes -/
  shown : Entry k v

variable (w : Nat)

/-- `busy_o`. -/
def busy (h : World k v) : Bool := h.pf.busy || h.wr.busy

/-- `s_push`, `s_pop` and `s_dbg`: requests to a busy heap are ignored. -/
def push (h : World k v) (e : Event k v) : Bool := e.push && !busy h

def pop (h : World k v) (e : Event k v) : Bool := e.pop && !busy h

def dbg (h : World k v) (e : Event k v) : Bool := e.dbgShow && !busy h

def pfIn (h : World k v) (e : Event k v) : Pathfinder.Inputs k :=
  { push := push h e
    pop := pop h e
    movkey := e.data.key
    wrKey := (Writer.wrVal h.wr).key
    wrIdx := h.wr.wrIdx1
    we := h.wr.en1
    clash0 := e.clash0
    clash1 := e.clash1
    undriven := e.undriven }

def wrIn (h : World k v) (e : Event k v) : Writer.Inputs k v :=
  { push := push h e
    dbgShow := dbg h e
    data := e.data
    idx := h.pf.ptr
    last := h.pf.last
    final := Pathfinder.posFound w h.pf
    en := Pathfinder.valid h.pf
    clash := e.clash }

def bagAfter (h : World k v) (e : Event k v) : Multiset (Entry k v) :=
  match push h e, pop h e with
  | true, false => e.data ::ₘ h.bag
  | false, true => h.bag.erase h.shown
  | true, true => e.data ::ₘ h.bag.erase h.shown
  | false, false => h.bag

def step (h : World k v) (e : Event k v) : World k v :=
  { pf := Pathfinder.clock w h.pf (pfIn h e)
    wr := Writer.clock h.wr w (wrIn w h e)
    bag := bagAfter h e
    shown := if h.wr.out then h.wr.data else h.shown }

def run (h : World k v) (events : List (Event k v)) : World k v := events.foldl (step w) h

/-- What nothing resets: the RAMs, their read ports, and the registers without a reset. -/
structure Junk (k v : Nat) where
  ram0 : Nat → BitVec k
  ram1 : Nat → BitVec k
  ram : Nat → Entry k v
  qa0 : BitVec k
  qa1 : BitVec k
  rdVal : Entry k v
  entry : Entry k v
  idx : Nat
  posFound : Bool
  rdAdrMode : Writer.RdAdrMode
  fin0 : Bool
  fin1 : Bool
  fin2 : Bool
  en0 : Bool
  en1 : Bool
  busy : Bool

def start (junk : Junk k v) : World k v :=
  { pf := { state := .idle, ptr := 0, last := 0, newLast := 0, mov := 0, adrMode := .default, busy := false
            posFound := junk.posFound, ram0 := junk.ram0, ram1 := junk.ram1, qa0 := junk.qa0, qa1 := junk.qa1 }
    wr := { state := .idle, rdAdrMode := junk.rdAdrMode, mov := junk.entry, wrIdx0 := junk.idx, wrIdx1 := junk.idx
            fin0 := junk.fin0, fin1 := junk.fin1, fin2 := junk.fin2, en0 := junk.en0, en1 := junk.en1, ram := junk.ram
            rdVal := junk.rdVal, busy := junk.busy, out := false, data := junk.entry, dbgOk := false, dbgErr := false
            dbgPtr := junk.idx, dbgAdr := junk.idx, dbgCmp := junk.entry }
    bag := 0
    shown := junk.entry }

/-- `empty_o` and `full_o`. -/
def emptyOut (h : World k v) : Bool := Pathfinder.empty h.pf

def fullOut (h : World k v) : Bool := Pathfinder.full w h.pf

def rank (e : Entry k v) : Nat := e.key.toNat

/-- A heap that is not busy is a priority queue: its RAM is a heap on the keys and holds the
entries of the queue, its flags tell the size of the queue, and the entry presented is one of
the least. -/
structure Queue (h : World k v) : Prop where
  ordered : Ordered rank h.wr.ram h.pf.last
  keys : ∀ i, 1 ≤ i → i ≤ h.pf.last → h.pf.ram0 i = (h.wr.ram i).key ∧ h.pf.ram1 i = (h.wr.ram i).key
  entries : entries h.wr.ram h.pf.last = h.bag
  empty : emptyOut h = true ↔ h.bag.card = 0
  full : fullOut w h = true ↔ h.bag.card = 2 ^ w - 1
  least : h.bag ≠ 0 → h.shown ∈ h.bag ∧ ∀ entry ∈ h.bag, rank h.shown ≤ rank entry

/-- A request the heap has to serve: pop and replace on a queue that is not empty, push on one
that is not full. -/
structure Request (h : World k v) (e : Event k v) : Prop where
  some : pop h e = true → h.bag.card ≠ 0
  room : push h e = true → pop h e = false → h.bag.card ≠ 2 ^ w - 1
  silent : dbg h e = false

/-- The new place is compared with the parent of the last one. For every second place that is
another entry than its own parent, and it has to compare alike. -/
def Alike (h : World k v) (e : Event k v) : Prop :=
  push h e = true → pop h e = false → 4 ≤ h.pf.last + 1 → (h.pf.last + 1) % 2 = 0 →
    (rank e.data ≤ rank (h.wr.ram ((h.pf.last + 1) / 2 - 1)) ↔ rank e.data ≤ rank (h.wr.ram ((h.pf.last + 1) / 2)))

end BelProject.Heap.HeapTop
