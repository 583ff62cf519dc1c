import BelProject.SlaveCore.Fifo
import BelProject.SlaveCore.TxMux
import BelProject.SlaveCore.CycleLine

/-! The slave core: state machine, four FIFOs and transmitter, as `eb_slave_top` connects
them. Beside the registers runs an account of the words in flight. Every word taken from RX
is a token; a bus answer belongs to the oldest access without one; a token that leaves the
transmitter is entered into a log with the word it has to put into the reply. -/

namespace BelProject.SlaveCore.Core
open Headers Fsm Requests Fifo
open CycleLine (Answer Inflight)
open TxMux (Mux canTx served tagMux datMux)

/-- The registers of the config space that the host may change at any time. -/
structure CfgRegs where
  mac : BitVec 48
  ip : BitVec 32
  port : BitVec 16
  deriving DecidableEq

/-- `mux_dat_o` of `eb_cfg_fifo`. -/
def cfgValue (errreg : BitVec 64) (sdbAddress : Word) (regs : CfgRegs) (adr : BitVec 3) : Word :=
  if adr = 0 then errreg.extractLsb' 32 32
  else if adr = 1 then errreg.extractLsb' 0 32
  else if adr = 2 then 0
  else if adr = 3 then sdbAddress
  else if adr = 4 then (regs.mac.extractLsb' 32 16).setWidth 32
  else if adr = 5 then regs.mac.extractLsb' 0 32
  else if adr = 6 then regs.ip
  else regs.port.setWidth 32

/-- `eb_cfg_fifo`: the addresses wait in a FIFO with one register behind it. -/
structure CfgFifo where
  fifo : EbFifo (BitVec 3)
  cacheEmpty : Bool
  cacheAdr : BitVec 3

def CfgFifo.fifoPop (c : CfgFifo) (muxPop : Bool) : Bool := !c.fifo.empty && (c.cacheEmpty || muxPop)

def CfgFifo.clock (c : CfgFifo) (push : Option (BitVec 3)) (muxPop : Bool) : CfgFifo :=
  { fifo := Fifo.clock c.fifo push (c.fifoPop muxPop)
    cacheEmpty := if c.cacheEmpty || muxPop then c.fifo.empty else c.cacheEmpty
    cacheAdr := if c.cacheEmpty || muxPop then c.fifo.rDat else c.cacheAdr }

/-- `eb_wbm_fifo`: the counters, the answers that wait for the transmitter, and the error
register that moves when they leave. -/
structure WbmFifo (t : Nat) where
  counters : Inflight t
  data : EbFifo (Word × Bool)
  errreg : BitVec 64

variable {t : Nat}

/-- `r_errreg(62 downto 0) & not s_ack`. -/
def shiftError (errreg : BitVec 64) (ack : Bool) : BitVec 64 := errreg.extractLsb' 0 63 ++ BitVec.ofBool (!ack)

def WbmFifo.push (w : WbmFifo t) (answer : Answer) : Option (Word × Bool) :=
  if w.counters.rdy answer then some (answer.dat, answer.ack) else none

def WbmFifo.clock (limit : Nat) (w : WbmFifo t) (fsmStb : Bool) (answer : Answer) (muxPop : Bool) : WbmFifo t :=
  { counters := w.counters.clock limit fsmStb answer
    data := Fifo.clock w.data (w.push answer) muxPop
    errreg := if muxPop then shiftError w.errreg w.data.rDat.2 else w.errreg }

/-- A word on its way through the core, with the answer to its bus access once there is one. -/
structure Token where
  cell : Cell
  result : Option (Word × Bool)
  deriving DecidableEq

def dropCell : Cell := ⟨.dropTx, none, none, false, false⟩

/-- The three bits of the address the config space decodes. -/
def cfgAdr (adr : Word) : BitVec 3 := adr.extractLsb' 2 3

def cfgOf (c : Cell) : Option (BitVec 3) := if isCfg c.tag then c.access.map fun access => cfgAdr access.adr else none

/-- The word a token has to put into the reply: the result of its access for a read, the word
passed on with it otherwise. -/
def Token.word (errreg : BitVec 64) (sdbAddress : Word) (regs : CfgRegs) (token : Token) : Word :=
  match token.cell.tag with
  | .cfgReq => cfgValue errreg sdbAddress regs ((cfgOf token.cell).getD 0)
  | .wbmReq => (token.result.map Prod.fst).getD 0
  | _ => token.cell.pass.getD 0

/-- The oldest access without an answer gets this one. -/
def fillFirst (answer : Word × Bool) : List Token → List Token
  | [] => []
  | token :: tokens =>
    if isWbm token.cell.tag && token.result.isNone then { token with result := some answer } :: tokens
    else token :: fillFirst answer tokens

/-- What the error register must be after these tokens. -/
def errors : List Token → BitVec 64
  | tokens => tokens.foldl (fun errreg token =>
    if isWbm token.cell.tag then shiftError errreg ((token.result.map Prod.snd).getD false) else errreg) 0

inductive Out where
  | word (dat : Word)
  | close
  deriving DecidableEq

/-- What RX does in a clock. A packet is named in the last clock before it starts. -/
inductive Rx where
  | idle (next : Option Packet)
  | gap
  | offer

structure Event where
  rx : Rx
  stall : Bool
  answer : Answer
  txStall : Bool
  skipStall : Bool
  regs : CfgRegs

structure Generics where
  sdbAddress : Word
  limit : Nat

structure World (t : Nat) where
  fsm : Registers
  tag : EbFifo Tag
  pass : EbFifo Word
  cfg : CfgFifo
  wbm : WbmFifo t
  mux : Mux
  /-- words of the packet on RX that were not taken yet -/
  rest : List (Word × Cell)
  /-- packets named so far -/
  arrived : List Packet
  /-- tokens inside the core, oldest first -/
  pending : List Token
  /-- tokens that left, with their words -/
  log : List (Token × Word)
  out : List Out
  /-- accesses pushed into `eb_wbm_fifo` and not answered -/
  waiting : Nat

structure Junk where
  tag : Nat → Tag
  pass : Nat → Word
  cfg : Nat → BitVec 3
  data : Nat → Word × Bool

def start (g : Generics) (junk : Junk) : World t :=
  { fsm := Fsm.reset
    tag := Fifo.reset junk.tag (junk.tag 0)
    pass := Fifo.reset junk.pass (junk.pass 0)
    cfg := ⟨Fifo.reset junk.cfg (junk.cfg 0), true, 0⟩
    wbm := ⟨.reset g.limit, Fifo.reset junk.data (junk.data 0), 0⟩
    mux := TxMux.reset
    rest := []
    arrived := []
    pending := []
    log := []
    out := []
    waiting := 0 }

def fsmIn (w : World t) (e : Event) : Fsm.Inputs :=
  { rxCyc := match e.rx with | .idle _ => false | _ => true
    rxStb := match e.rx with | .offer => !w.rest.isEmpty | _ => false
    rxDat := (w.rest.head?.map Prod.fst).getD 0
    tagFull := w.tag.full
    wbmBusy := w.wbm.counters.busy
    masterStall := e.stall }

def muxIn (g : Generics) (w : World t) (e : Event) : TxMux.Inputs :=
  { tagDat := w.tag.rDat
    tagEmpty := w.tag.empty
    passDat := w.pass.rDat
    passEmpty := w.pass.empty
    cfgDat := cfgValue w.wbm.errreg g.sdbAddress e.regs w.cfg.cacheAdr
    cfgEmpty := w.cfg.cacheEmpty
    wbmDat := w.wbm.data.rDat.1
    wbmEmpty := w.wbm.data.empty
    skipStall := e.skipStall
    txStall := e.txStall }

def tagPush (f : Registers) : Option Tag := if f.tagStb then some f.tagDat else none

def passPush (f : Registers) : Option Word := if f.passStb then some f.passDat else none

def cfgPush (f : Registers) : Option (BitVec 3) := if f.cfgStb then some (cfgAdr f.masterAdr) else none

def entering (w : World t) (e : Event) : List Token :=
  match e.rx with
  | .idle _ => if w.fsm.rxCyc then [⟨dropCell, none⟩] else []
  | _ => if takes w.fsm (fsmIn w e) then (w.rest.head?.map fun word => ⟨word.2, none⟩).toList else []

def answered (w : World t) (e : Event) : List Token :=
  match w.wbm.push e.answer with
  | some answer => fillFirst answer w.pending
  | none => w.pending

def leaving (g : Generics) (w : World t) (e : Event) : List (Token × Word) :=
  if served w.mux (muxIn g w e) then
    w.pending.head?.toList.map fun token => (token, token.word (errors (w.log.map Prod.fst)) g.sdbAddress e.regs)
  else []

def sending (g : Generics) (w : World t) (e : Event) : List Out :=
  (if w.mux.txCyc && w.mux.txStb && !e.txStall then [Out.word w.mux.txDat] else []) ++
    if w.mux.txCyc && !(TxMux.clock w.mux (muxIn g w e)).txCyc then [Out.close] else []

def step (g : Generics) (w : World t) (e : Event) : World t :=
  { fsm := Fsm.clock w.fsm (fsmIn w e)
    tag := Fifo.clock w.tag (tagPush w.fsm) (TxMux.tagPop w.mux (muxIn g w e))
    pass := Fifo.clock w.pass (passPush w.fsm) (TxMux.passPop w.mux (muxIn g w e))
    cfg := w.cfg.clock (cfgPush w.fsm) (TxMux.cfgPop w.mux (muxIn g w e))
    wbm := w.wbm.clock g.limit w.fsm.wbmStb e.answer (TxMux.wbmPop w.mux (muxIn g w e))
    mux := TxMux.clock w.mux (muxIn g w e)
    rest := match e.rx with
      | .idle (some next) => next.cells
      | .idle none => w.rest
      | _ => if takes w.fsm (fsmIn w e) then w.rest.tail else w.rest
    arrived := match e.rx with
      | .idle (some next) => w.arrived ++ [next]
      | _ => w.arrived
    pending := left (answered w e) (served w.mux (muxIn g w e)) ++ entering w e
    log := w.log ++ leaving g w e
    out := w.out ++ sending g w e
    waiting := w.waiting + w.fsm.wbmStb.toNat - (w.wbm.counters.rdy e.answer).toNat }

theorem rest_step (g : Generics) (w : World t) (e : Event) : (step g w e).rest = match e.rx with
    | .idle (some next) => next.cells
    | .idle none => w.rest
    | _ => if takes w.fsm (fsmIn w e) then w.rest.tail else w.rest := rfl

theorem arrived_step (g : Generics) (w : World t) (e : Event) : (step g w e).arrived = match e.rx with
    | .idle (some next) => w.arrived ++ [next]
    | _ => w.arrived := rfl

def run (g : Generics) (w : World t) (events : List Event) : World t := events.foldl (step g) w

end BelProject.SlaveCore.Core
