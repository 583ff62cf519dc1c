import BelProject.SlaveCore.Checksum
import BelProject.SlaveCore.CommitFifo

/-! `eb_eth_tx`: the transmitter of the replies. One process writes the headers, the payload and
the padding of a packet into the commit FIFO; another feeds the words of the IP header to the
adder while the Ethernet header goes out. -/

namespace BelProject.SlaveCore.EthTx
open Checksum
open CommitFifo (Ports)

/-- `t_state`. -/
inductive State where
  | ethernet | ip | udp | done | wait | payload | runt | lower | skip | push
  deriving DecidableEq, Repr

/-- `t_sum_state`. -/
inductive SumState where
  | const | dstHi | dstLo | srcHi | srcLo | length | done
  deriving DecidableEq, Repr

structure SlaveIn where
  cyc : Bool
  stb : Bool
  dat : BitVec 16

/-- The payload on `slave_i`, the stall of `src_i`, the parameters of the next header, and what
the RAM of the FIFO returns for a cell that is written in the same clock. -/
structure Inputs where
  slave : SlaveIn
  stall : Bool
  stb : Bool
  mac : BitVec 48
  ip : BitVec 32
  port : BitVec 16
  length : BitVec 16
  skipStb : Bool
  myMac : BitVec 48
  myIp : BitVec 32
  myPort : BitVec 16
  conflict : BitVec 17

structure Registers where
  state : State
  staten : State
  count : BitVec 5
  ready : Bool
  mac : BitVec 48
  ip : BitVec 32
  port : BitVec 16
  length : BitVec 16
  hdrStb : Bool
  shift : BitVec 160
  txCyc : Bool
  sum : Summer SumState

def reset : Registers :=
  { state := .ethernet, staten := .ethernet, count := 0, ready := false, mac := 0, ip := 0, port := 0,
    length := 0, hdrStb := false
    shift := 0, txCyc := false, sum := ⟨.const, false, 0, .reset⟩ }

def ethLen : Nat := 14

def ipLen : Nat := 20

def udpLen : Nat := 8

def runtMin : Nat := 46 - ipLen

/-- `f_send_eth`. The bits behind the header are not used. -/
def fSendEth (dst src : BitVec 48) : BitVec 160 := dst ++ src ++ 0x0800#16 ++ 0#48

def fSendIp (dst src : BitVec 32) (len sum : BitVec 16) : BitVec 160 := formatIp (len + 20) (~~~sum) src dst

def fSendUdp (dst src len : BitVec 16) : BitVec 160 := src ++ dst ++ len ++ 0#16 ++ 0#96

def fStep (x : Nat) : BitVec 5 := BitVec.ofInt 5 ((x / 2 : Nat) - 1)

section
variable (r : Registers) (i : Inputs) (full : Bool)

def bufStb : Bool := if r.state = .payload then i.slave.cyc && i.slave.stb else r.hdrStb

def bufPush : Bool := bufStb r i && !full

def bufCyc : Bool := !decide (r.state = .lower)

def bufData : BitVec 16 := if r.state = .payload then i.slave.dat else r.shift.extractLsb' 144 16

/-- The state after the headers: they do not skip the payload. -/
def payloadNext : State := if i.slave.cyc then .payload else if i.skipStb then .skip else .wait

/-- The state machine of the process `hdr`, but for the parameters of the header. -/
def hdr : Registers :=
  match r.state with
  | .ethernet =>
    if r.ready then
      { r with hdrStb := true, shift := fSendEth r.mac i.myMac, count := fStep ethLen, staten := .ip, state := .push }
    else r
  | .ip =>
    if !full then
      { r with shift := fSendIp r.ip i.myIp r.length r.sum.adder.sumO, count := fStep ipLen, staten := .udp, state := .push }
    else r
  | .udp =>
    if !full then { r with shift := fSendUdp r.port i.myPort r.length, count := fStep udpLen, staten := .done, state := .push }
    else r
  | .done =>
    if !full then
      if r.length.toNat < runtMin then
        { r with hdrStb := false, shift := 0, staten := .runt, count := fStep (runtMin - r.length.toNat), state := payloadNext i }
      else { r with hdrStb := false, shift := 0, staten := .lower, state := payloadNext i }
    else r
  | .wait => { r with state := payloadNext i }
  | .payload => if !i.slave.cyc then { r with hdrStb := true, state := r.staten } else r
  | .runt => if !full then { r with state := .push, staten := .lower } else r
  | .lower => if !full then { r with hdrStb := false, state := .ethernet } else r
  | .skip => { r with state := .ethernet }
  | .push =>
    if !full then { r with count := r.count - 1, shift := r.shift <<< 16, state := if r.count = 1 then r.staten else .push }
    else r

/-- The parameters of a header are taken when those before were used. -/
def latches : Bool := i.stb && !r.ready

def readyNext : Bool := if r.state = .done ∧ full = false then false else latches r i || r.ready

/-- The process `sum_header`. -/
def sumHeader : Summer SumState :=
  let adder := r.sum.adder.clock r.sum.en r.sum.data
  match r.sum.state with
  | .const => ⟨if latches r i then .dstHi else .const, latches r i || r.sum.en, constSum, adder⟩
  | .dstHi => ⟨.dstLo, r.sum.en, r.ip.extractLsb' 16 16, adder⟩
  | .dstLo => ⟨.srcHi, r.sum.en, r.ip.extractLsb' 0 16, adder⟩
  | .srcHi => ⟨.srcLo, r.sum.en, i.myIp.extractLsb' 16 16, adder⟩
  | .srcLo => ⟨.length, r.sum.en, i.myIp.extractLsb' 0 16, adder⟩
  | .length => ⟨.done, r.sum.en, r.length + 20, adder⟩
  | .done => ⟨.const, false, r.sum.data, adder⟩

end

/-- The machine and its FIFO, `my_ip_i` at the time the parameters were taken, the frames that
were sent, and the one on the wire. -/
structure World (depth : Nat) where
  regs : Registers
  tx : CommitFifo.World (BitVec 17) depth
  own : BitVec 32
  frames : List (List (BitVec 16))
  current : Option (List (BitVec 16))

variable {depth : Nat}

def start (ram : Nat → BitVec 17) (rDat : BitVec 17) : World depth := ⟨reset, CommitFifo.start ram rDat, 0, [], none⟩

section
variable (w : World depth) (i : Inputs)

/-- `s_tx_cyc`. -/
def txCyc : Bool := w.tx.fifo.rDat.msb

/-- `s_tx_dat`. -/
def txDat : BitVec 16 := w.tx.fifo.rDat.setWidth 16

def srcCyc : Bool := if !w.tx.fifo.empty then txCyc w else w.regs.txCyc

def srcStb : Bool := !w.tx.fifo.empty

def txPop : Bool := !w.tx.fifo.empty && !(txCyc w && i.stall)

def ports : Ports (BitVec 17) :=
  { push := if bufPush w.regs i w.tx.fifo.full then some (BitVec.ofBool (bufCyc w.regs) ++ bufData w.regs i) else none
    commit := decide (w.regs.state = .lower)
    abort := decide (w.regs.state = .skip)
    pop := txPop w i
    conflict := i.conflict }

/-- The word that goes over the wire in this clock. -/
def transferred : List (BitVec 16) := if srcStb w && !i.stall then [txDat w] else []

def clock : Registers :=
  { hdr w.regs i w.tx.fifo.full with
    mac := if latches w.regs i then i.mac else w.regs.mac
    ip := if latches w.regs i then i.ip else w.regs.ip
    port := if latches w.regs i then i.port else w.regs.port
    length := if latches w.regs i then i.length else w.regs.length
    ready := readyNext w.regs i w.tx.fifo.full
    txCyc := if !w.tx.fifo.empty then txCyc w else w.regs.txCyc
    sum := sumHeader w.regs i }

/-- A frame lasts while `cyc` is high. -/
def step : World depth :=
  { regs := clock w i
    tx := CommitFifo.step w.tx (ports w i)
    own := if w.regs.ready then w.own else i.myIp
    frames := if srcCyc w then w.frames else w.frames ++ w.current.toList
    current := if srcCyc w then some (w.current.getD [] ++ transferred w i) else none }

/-- The address of the slave stays while a header with it is made. -/
def Steady : Prop := w.regs.ready = true → i.myIp = w.own

instance : Decidable (Steady w i) := inferInstanceAs (Decidable (w.regs.ready = true → i.myIp = w.own))

end

/-- The IP header of a frame has a valid checksum. -/
def Checked (frame : List (BitVec 16)) : Prop :=
  ∃ tol sum src dst, ipHeader frame = wordsOf (formatIp tol sum src dst) ∧ Valid (ipHeader frame)

/-- Every frame on the wire, once its IP header is out. -/
def Sends (w : World depth) : Prop := ∀ frame ∈ w.frames ++ w.current.toList, 17 ≤ frame.length → Checked frame

end BelProject.SlaveCore.EthTx
