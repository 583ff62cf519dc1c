import BelProject.Mil.Soundness

/-! `Mil_bipol_dec`: a decoder on each of the two lanes, and a state machine that waits for the word
of the second one for a time, compares the two and shows the word. The limits of the error counters
and the diagnosis only look on and are left out. -/

namespace BelProject.Mil.Bipolar
open Decoder Soundness

inductive Lane where
  | p | n
  deriving DecidableEq, Repr

def Lane.other : Lane → Lane
  | .p => .n
  | .n => .p

structure Pair (α : Type) where
  p : α
  n : α
  deriving DecidableEq, Repr

def Pair.lane {α : Type} (pair : Pair α) : Lane → α
  | .p => pair.p
  | .n => pair.n

/-- `T_Eval_RCV_SM`. -/
inductive EvalRcv where
  | idle | together | first (lane : Lane) | fin | waitRdMil
  deriving DecidableEq, Repr

/-- What a decoder has for the state machine, and the flag behind its `Rcv_Rdy`. -/
structure Port where
  rcvRdy : Bool
  rcv : Bool
  cmd : Bool
  data : BitVec 16

def port (d : Decoder.Registers) : Port := ⟨d.rcvRdy, d.rcvRdyDelayed, d.isCmdMemory, d.rcvData⟩

structure Eval where
  -- `P_Eval_RCV_SM`
  sm : EvalRcv
  cmdNotEqual : Bool
  dataNotEqual : Bool
  noVw : Pair Bool
  rcvRdy : Bool
  cmdNotEqPulse : Bool
  dataNotEqPulse : Bool
  rcvCmd : Bool
  milRcvData : BitVec 16
  /-- below zero it has underflowed -/
  jitterCnt : Int
  -- `P_error_cnt`
  noVwCnt : Pair Nat
  cmdNotEqualCnt : Nat
  dataNotEqualCnt : Nat

structure Registers where
  dec : Pair Decoder.Registers
  eval : Eval

structure Inputs where
  manchesterIn : Pair Bool
  rdMil : Bool
  clrNoVwCnt : Bool
  clrNotEqualCnt : Bool
  res : Bool
  powerUp : Bool

def maxJitterCnt (hz : Nat) : Nat := cnt hz 900

def count (clear pulse : Bool) (cnt : Nat) : Nat :=
  if clear then 0 else if decide (cnt < 255) && pulse then cnt + 1 else cnt

section
variable (e : Eval) (port : Pair Port) (rdMil : Bool)

/-- The jitter is over without a word on the other lane. -/
def Eval.over : Bool := decide (e.jitterCnt < 0)

def smNext : EvalRcv :=
  match e.sm with
  | .idle =>
    if e.rcvRdy then .idle
    else
      match port.p.rcv, port.n.rcv with
      | true, true => .together
      | true, false => .first .p
      | false, true => .first .n
      | false, false => .idle
  | .together => .fin
  | .first lane => if e.over then .fin else if (port.lane lane.other).rcv then .together else .first lane
  | .fin => if !e.cmdNotEqual && !e.dataNotEqual then .waitRdMil else .idle
  | .waitRdMil => if !port.p.rcv && !port.n.rcv then .idle else .waitRdMil

def rcvRdyNext : Bool :=
  if e.sm == .fin && !e.cmdNotEqual && !e.dataNotEqual then true else if rdMil then false else e.rcvRdy

def cmdNotEqualNext : Bool :=
  match e.sm with
  | .idle => false
  | .together => if port.p.cmd = port.n.cmd then e.cmdNotEqual else true
  | _ => e.cmdNotEqual

def dataNotEqualNext : Bool :=
  match e.sm with
  | .idle => false
  | .together => if port.p.data = port.n.data then e.dataNotEqual else true
  | _ => e.dataNotEqual

def noVwNext (lane : Lane) : Bool := e.sm == .first lane.other && e.over

def rcvCmdNext : Bool :=
  match e.sm with
  | .together => if port.p.cmd = port.n.cmd then port.p.cmd else e.rcvCmd
  | .first lane => if e.over then (port.lane lane).cmd else e.rcvCmd
  | _ => e.rcvCmd

def milRcvDataNext : BitVec 16 :=
  match e.sm with
  | .together => if port.p.data = port.n.data then port.p.data else e.milRcvData
  | .first lane => if e.over then (port.lane lane).data else e.milRcvData
  | _ => e.milRcvData

/-- `P_jitter_cnt`. -/
def jitterCntNext (hz : Nat) : Int :=
  match e.sm with
  | .first _ => if e.over then e.jitterCnt else e.jitterCnt - 1
  | _ => maxJitterCnt hz - 1

end

def Eval.clock (hz : Nat) (e : Eval) (port : Pair Port) (i : Inputs) : Eval where
  sm := smNext e port
  cmdNotEqual := cmdNotEqualNext e port
  dataNotEqual := dataNotEqualNext e port
  noVw := ⟨noVwNext e .p, noVwNext e .n⟩
  rcvRdy := rcvRdyNext e i.rdMil
  cmdNotEqPulse := e.sm == .fin && e.cmdNotEqual
  dataNotEqPulse := e.sm == .fin && e.dataNotEqual
  rcvCmd := rcvCmdNext e port
  milRcvData := milRcvDataNext e port
  jitterCnt := jitterCntNext e hz
  noVwCnt := ⟨count (i.clrNoVwCnt || i.powerUp) e.noVw.p e.noVwCnt.p,
    count (i.clrNoVwCnt || i.powerUp) e.noVw.n e.noVwCnt.n⟩
  cmdNotEqualCnt := count (i.clrNotEqualCnt || i.powerUp) e.cmdNotEqPulse e.cmdNotEqualCnt
  dataNotEqualCnt := count (i.clrNotEqualCnt || i.powerUp) e.dataNotEqPulse e.dataNotEqualCnt

/-- `Res`. What it does not name stays. -/
def Eval.reset (hz : Nat) (e : Eval) : Eval :=
  { e with
    sm := .idle, cmdNotEqual := false, dataNotEqual := false, noVw := ⟨false, false⟩, rcvRdy := false
    jitterCnt := maxJitterCnt hz - 1, noVwCnt := ⟨0, 0⟩, cmdNotEqualCnt := 0, dataNotEqualCnt := 0 }

/-- `S_Rd_Mil`. -/
def rdMil (e : Eval) (i : Inputs) : Bool := i.rdMil || e.dataNotEqual || e.cmdNotEqual

/-- One rising edge. The decoder of each lane sees the line of the other one. -/
def clock (hz : Nat) (r : Registers) (i : Inputs) : Registers where
  dec :=
    ⟨Decoder.clock hz true r.dec.p ⟨i.manchesterIn.n, rdMil r.eval i, i.res⟩,
      Decoder.clock hz false r.dec.n ⟨i.manchesterIn.p, rdMil r.eval i, i.res⟩⟩
  eval := if i.res then r.eval.reset hz else r.eval.clock hz ⟨port r.dec.p, port r.dec.n⟩ i

/-- The word and the command flag that a decoder takes over in a clock. -/
def word (d : Decoder.Registers) : Option (BitVec 16 × Bool) :=
  if (settle d false).machine.parityOk then some (d.shift.extractLsb' 1 16, (settle d false).machine.isCmd) else none

def err (d : Decoder.Registers) : Bool := (settle d false).machine.state == .err

/-- `P_Read`. -/
def Port.clock (port : Port) (rdMil err : Bool) (word : Option (BitVec 16 × Bool)) : Port where
  rcvRdy := if rdMil || err then false else port.rcvRdy || word.isSome
  rcv := port.rcvRdy
  cmd := if rdMil || err then false else word.elim port.cmd Prod.snd
  data := word.elim port.data Prod.fst

theorem port_clock (hz : Nat) (posLane : Bool) (d : Decoder.Registers) (line rd : Bool) :
    port (Decoder.clock hz posLane d ⟨line, rd, false⟩) = (port d).clock rd (err d) (word d) := by
  have both : ∀ a b : Port, a.rcvRdy = b.rcvRdy → a.rcv = b.rcv → a.cmd = b.cmd → a.data = b.data → a = b := by
    rintro ⟨_, _, _, _⟩ ⟨_, _, _, _⟩ rfl rfl rfl rfl
    rfl
  apply both
  · change (if rd || err d then false else if (settle d false).machine.parityOk then true else d.rcvRdy) =
      if rd || err d then false else d.rcvRdy || (word d).isSome
    rw [word]
    cases (settle d false).machine.parityOk <;> simp
  · rfl
  · change (if rd || err d then false else if (settle d false).machine.parityOk
      then (settle d false).machine.isCmd else d.isCmdMemory) =
      if rd || err d then false else (word d).elim d.isCmdMemory Prod.snd
    rw [word]
    cases (settle d false).machine.parityOk <;> rfl
  · change (if (settle d false).machine.parityOk then d.shift.extractLsb' 1 16 else d.rcvData) =
      (word d).elim d.rcvData Prod.fst
    rw [word]
    cases (settle d false).machine.parityOk <;> rfl

end BelProject.Mil.Bipolar
