import BelProject.EbMaster.CommitLenFifo

/-! `eb_master_eth_tx`: a machine that writes the headers, the payload and the padding of each
packet to the commit FIFO, and the read side that puts the lengths into the headers on the fly. The
sum over the constant part of the IP header comes from `eb_checksum` and is an input. -/

namespace BelProject.EbMaster.EthTx
open CommitLenFifo (Fifo Writes)

/-- `t_state`. -/
inductive State where
  | ethernet | ip | udp | done | wait | payload | runt | lower | commit | skip | push
  deriving DecidableEq, Repr

structure SlaveIn where
  cyc : Bool
  stb : Bool
  dat : BitVec 16

/-- The payload on `slave_i`, the stall of `src_i`, and the parameters of the next header.
`conflict` is what the RAM of the FIFO returns for a cell that is written in the same clock. -/
structure Inputs where
  slave : SlaveIn
  stall : Bool
  stb : Bool
  mac : BitVec 48
  ip : BitVec 32
  port : BitVec 16
  skipStb : Bool
  myMac : BitVec 48
  myIp : BitVec 32
  myPort : BitVec 16
  sumDone : BitVec 16
  conflict : BitVec 17

structure Registers (depth : Nat) where
  state : State
  staten : State
  count : BitVec 5
  ready : Bool
  mac : BitVec 48
  ip : BitVec 32
  port : BitVec 16
  hdrStb : Bool
  shift : BitVec 160
  txCyc : Bool
  ipTol : BitVec 16
  udpLen : BitVec 16
  tx : Fifo depth

variable {depth : Nat}

/-- The registers for the lengths are not reset. -/
def reset (ipTol udpLen : BitVec 16) (tx : Fifo depth) : Registers depth :=
  { state := .ethernet, staten := .ethernet, count := 0, ready := false, mac := 0, ip := 0, port := 0, hdrStb := false
    shift := 0, txCyc := false, ipTol := ipTol, udpLen := udpLen, tx := tx }

def ethLen : Nat := 14

def ipLen : Nat := 20

def udpLen : Nat := 8

def runtMin : Nat := 64

/-- `f_send_eth`. The bits behind the header are not used. -/
def fSendEth (dst src : BitVec 48) : BitVec 160 := dst ++ src ++ 0x0800#16 ++ 0#48

def fSendIp (dst src : BitVec 32) (len sum : BitVec 16) : BitVec 160 :=
  0x4#4 ++ 0x5#4 ++ 0x00#8 ++ (len + 20) ++ 0#16 ++ 0b010#3 ++ 0#13 ++ 0x3f#8 ++ 0x11#8 ++ sum ++ src ++ dst

def fSendUdp (dst src : BitVec 16) : BitVec 160 := src ++ dst ++ 0#16 ++ 0#16 ++ 0#96

def fStep (x : Nat) : BitVec 5 := BitVec.ofNat 5 (x / 2 - 1)

section
variable (r : Registers depth) (i : Inputs)

def bufStb : Bool := if r.state = .payload then i.slave.cyc && i.slave.stb else r.hdrStb

def bufPush : Bool := bufStb r i && !r.tx.full

def bufCyc : Bool := !decide (r.state = .lower)

def bufData : BitVec 16 := if r.state = .payload then i.slave.dat else r.shift.extractLsb' 144 16

def writes : Writes :=
  { push := bufPush r i
    dat := BitVec.ofBool (bufCyc r) ++ bufData r i
    commit := decide (r.state = .commit)
    abort := decide (r.state = .skip)
    conflict := i.conflict }

/-- `s_tx_in_cnt - 2`. -/
def inBytes : Nat := (r.tx.rLen.setWidth (depth + 1) - 2).toNat

def payloadNext : State := if i.slave.cyc then .payload else if i.skipStb then .skip else .wait

/-- The state machine of the process `hdr`, but for the parameters of the header. -/
def hdr : Registers depth :=
  match r.state with
  | .ethernet =>
    if r.ready then
      { r with hdrStb := true, shift := fSendEth r.mac i.myMac, count := fStep ethLen, staten := .ip, state := .push }
    else r
  | .ip =>
    if !r.tx.full then
      { r with shift := fSendIp r.ip i.myIp 0 i.sumDone, count := fStep ipLen, staten := .udp, state := .push }
    else r
  | .udp =>
    if !r.tx.full then { r with shift := fSendUdp r.port i.myPort, count := fStep udpLen, staten := .done, state := .push }
    else r
  | .done => if !r.tx.full then { r with hdrStb := false, shift := 0, state := payloadNext i } else r
  | .wait => { r with state := payloadNext i }
  | .payload =>
    if !i.slave.cyc then
      if inBytes r < runtMin then { r with hdrStb := true, state := .runt, count := fStep (runtMin - inBytes r) }
      else { r with hdrStb := true, state := .lower }
    else r
  | .runt => if !r.tx.full then { r with state := .push, staten := .lower } else r
  | .lower => if !r.tx.full then { r with hdrStb := false, state := .commit } else r
  | .commit => if !r.tx.full then { r with state := .ethernet } else r
  | .skip => { r with state := .ethernet }
  | .push =>
    if !r.tx.full then
      { r with count := r.count - 1, shift := r.shift <<< 16, state := if r.count = 1 then r.staten else .push }
    else r

def latches : Bool := i.stb && !r.ready

def readyNext : Bool := if r.state = .done ∧ r.tx.full = false then false else latches r i || r.ready

/-- `s_tx_cyc`. -/
def txCyc : Bool := r.tx.rDat.msb

/-- `s_tx_dat`. -/
def txDat : BitVec 16 := r.tx.rDat.setWidth 16

def srcCyc : Bool := if !r.tx.empty then txCyc r else r.txCyc

/-- `s_tx_payload`: the first word of a packet is its length. -/
def txPayload : Bool := !decide (r.tx.rCnt = 0)

def srcStb : Bool := !r.tx.empty && txPayload r

def inserts (pos : Nat) : Bool := decide ((r.tx.rCnt - 2).toNat = pos)

def ipTolIns : Bool := inserts r (ethLen + 2)

def ipChkIns : Bool := inserts r (ethLen + 10)

def udpLenIns : Bool := inserts r (ethLen + ipLen + 4)

/-- `s_ip_chk`. -/
def ipChk : BitVec 16 := ~~~(txDat r + r.ipTol)

/-- `otf_mux`. -/
def srcDat : BitVec 16 :=
  match udpLenIns r, ipChkIns r, ipTolIns r with
  | false, false, false => txDat r
  | false, false, true => r.ipTol
  | false, true, false => ipChk r
  | true, false, false => r.udpLen
  | _, _, _ => txDat r

def txPop : Bool := !r.tx.empty && !(txCyc r && i.stall)

/-- `otf_mod_ip_hdr` takes the lengths from the first word of a packet. -/
def lengthShown : Bool := !r.tx.empty && !txPayload r

def clock : Registers depth :=
  { hdr r i with
    mac := if latches r i then i.mac else r.mac
    ip := if latches r i then i.ip else r.ip
    port := if latches r i then i.port else r.port
    ready := readyNext r i
    txCyc := if !r.tx.empty then txCyc r else r.txCyc
    ipTol := if lengthShown r then txDat r - BitVec.ofNat 16 ethLen - 2 else r.ipTol
    udpLen := if lengthShown r then txDat r - BitVec.ofNat 16 (ethLen + ipLen) - 2 else r.udpLen
    tx := CommitLenFifo.clock r.tx (writes r i) (txPop r i) }

end

end BelProject.EbMaster.EthTx
