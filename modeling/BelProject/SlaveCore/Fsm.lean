import BelProject.SlaveCore.Headers

/-! The request state machine `eb_slave_fsm`. Every RX word it takes leaves one tag for the
transmitter, and moves the registers that drive the Wishbone master. Signal assignments are
registered, so every right hand side reads the values before the clock edge, and of two
assignments to one register the later one counts. -/

namespace BelProject.SlaveCore.Fsm
open Headers

/-- `t_tag`: where the transmitter takes its next word from. -/
inductive Tag where
  | dropTx | skipTx | passTx | passOn | cfgReq | cfgIgn | wbmReq | wbmIgn
  deriving DecidableEq, Repr

def usesPass : Tag → Bool
  | .passTx | .passOn | .cfgIgn | .wbmIgn => true
  | _ => false

def isCfg : Tag → Bool
  | .cfgReq | .cfgIgn => true
  | _ => false

def isWbm : Tag → Bool
  | .wbmReq | .wbmIgn => true
  | _ => false

/-- `t_state_RX`. -/
inductive StateRX where
  | ebHdr | probeDrop | probeId | cycHdr | wrAdr | write | rdAdr | read | drop
  deriving DecidableEq, Repr

structure Registers where
  tagStb : Bool
  tagDat : Tag
  passStb : Bool
  passDat : Word
  cfgStb : Bool
  wbmStb : Bool
  masterCyc : Bool
  masterStb : Bool
  masterWe : Bool
  masterAdr : Word
  masterDat : Word
  wrAdr : Word
  rxRecHdr : RecHdr
  txRecHdr : RecHdr
  rxCyc : Bool
  state : StateRX
  deriving DecidableEq

def reset : Registers :=
  { tagStb := false, tagDat := .dropTx, passStb := false, passDat := 0, cfgStb := false, wbmStb := false
    masterCyc := false, masterStb := false, masterWe := false, masterAdr := 0, masterDat := 0, wrAdr := 0
    rxRecHdr := cRecInit, txRecHdr := cRecInit, rxCyc := false, state := .ebHdr }

/-- The inputs it reads. The full flags of the other FIFOs are connected and not used. -/
structure Inputs where
  rxCyc : Bool
  rxStb : Bool
  rxDat : Word
  tagFull : Bool
  wbmBusy : Bool
  masterStall : Bool

def fReplyEb (rx : EbHdr) : EbHdr := { cEbInit with probeRes := rx.probe }

def fReplyRec (rx : RecHdr) : RecHdr :=
  { cRecInit with
    wcaCfg := rx.bcaCfg
    rdFifo := false
    rdCnt := 0
    wrFifo := rx.rdFifo
    wrCnt := rx.rdCnt
    sel := rx.sel
    dropCyc := rx.dropCyc }

/-- `s_wbm_busy`: the FIFO reports an access one clock after it is pushed. -/
def wbmBusy (f : Registers) (i : Inputs) : Bool := i.wbmBusy || f.wbmStb

/-- `master_o.cyc`. -/
def cycLine (f : Registers) (i : Inputs) : Bool := f.masterCyc || wbmBusy f i

/-- `s_stall`: a FIFO is full, a strobe is held up, or the cycle line is about to fall. -/
def stall (f : Registers) (i : Inputs) : Bool :=
  i.tagFull || (f.masterStb && i.masterStall) || (!f.masterCyc && wbmBusy f i)

/-- `t_wishbone_master_out`. -/
structure MasterOut where
  cyc : Bool
  stb : Bool
  we : Bool
  adr : Word
  dat : Word
  sel : BitVec 4

def master (f : Registers) (i : Inputs) : MasterOut :=
  ⟨cycLine f i, f.masterStb, f.masterWe, f.masterAdr, f.masterDat, f.rxRecHdr.sel.extractLsb' 0 4⟩

/-- The assignments before the `case`. -/
def idle (f : Registers) (i : Inputs) : Registers :=
  { f with
    tagStb := false
    passStb := false
    cfgStb := false
    wbmStb := false
    masterStb := f.masterStb && i.masterStall
    rxCyc := i.rxCyc }

def Registers.pass (d : Registers) (tag : Tag) (dat : Word) : Registers :=
  { d with tagStb := true, tagDat := tag, passStb := true, passDat := dat }

def answerHdr (d : Registers) (rx : EbHdr) : Registers :=
  if rx.noResponse then { d with tagStb := true, tagDat := .skipTx } else d.pass .passTx (fFormatEb (fReplyEb rx))

/-- `S_EB_HDR`. -/
def ebHdrWord (d : Registers) (dat : Word) : Registers :=
  let rx := fParseEb dat
  if rx.magic = cEbMagic ∧ rx.ver = cEbVer then
    let d := answerHdr d rx
    if rx.probe then
      if rx.addrSize.getLsbD 2 ∧ rx.dataSize.getLsbD 2 then { d with state := .probeId } else { d with state := .probeDrop }
    else if rx.addrSize = 4 ∨ rx.dataSize = 4 then { d with state := .cycHdr } else { d with state := .drop }
  else { d with tagStb := true, tagDat := .skipTx, state := .drop }

/-- `S_CYC_HDR`. -/
def cycHdrWord (f d : Registers) (dat : Word) : Registers :=
  let rx := fParseRec dat
  let tx := fReplyRec rx
  let d := { d with txRecHdr := tx, rxRecHdr := rx }
  if rx.wrCnt ≠ 0 then { d.pass .passOn 0 with state := .wrAdr }
  else if rx.rdCnt ≠ 0 then { d.pass .passOn (fFormatRec tx) with state := .rdAdr }
  else { d.pass .passOn (fFormatRec tx) with masterCyc := f.masterCyc && !rx.dropCyc, state := .cycHdr }

/-- `S_WRITE`. The assignment at the end of a record overrides the one that raises the line. -/
def writeWord (f d : Registers) (dat : Word) : Registers :=
  let rx := f.rxRecHdr
  let last := decide (rx.wrCnt = 1) && decide (rx.rdCnt = 0)
  { d with
    masterWe := true
    masterAdr := f.wrAdr
    masterDat := dat
    wrAdr := if rx.wrFifo then f.wrAdr else f.wrAdr + 4
    tagStb := true
    tagDat := if rx.wcaCfg then .cfgIgn else .wbmIgn
    passStb := true
    passDat := if rx.wrCnt ≠ 1 then 0 else fFormatRec f.txRecHdr
    cfgStb := rx.wcaCfg
    wbmStb := !rx.wcaCfg
    masterCyc := if last then f.masterCyc && !rx.dropCyc else if rx.wcaCfg then f.masterCyc else true
    masterStb := if rx.wcaCfg then d.masterStb else true
    state := if rx.wrCnt ≠ 1 then .write else if rx.rdCnt ≠ 0 then .rdAdr else .cycHdr
    rxRecHdr := { rx with wrCnt := rx.wrCnt - 1 } }

/-- `S_READ`. -/
def readWord (f d : Registers) (dat : Word) : Registers :=
  let rx := f.rxRecHdr
  { d with
    masterWe := false
    masterAdr := dat
    tagStb := true
    tagDat := if rx.rcaCfg then .cfgReq else .wbmReq
    cfgStb := rx.rcaCfg
    wbmStb := !rx.rcaCfg
    masterCyc := if rx.rdCnt = 1 then f.masterCyc && !rx.dropCyc else if rx.rcaCfg then f.masterCyc else true
    masterStb := if rx.rcaCfg then d.masterStb else true
    state := if rx.rdCnt = 1 then .cycHdr else .read
    rxRecHdr := { rx with rdCnt := rx.rdCnt - 1 } }

/-- The `case` over the state, on a word that is taken. -/
def word (f d : Registers) (dat : Word) : Registers :=
  match f.state with
  | .ebHdr => ebHdrWord d dat
  | .probeDrop => { d.pass .passOn dat with state := .drop }
  | .probeId => { d.pass .passOn dat with state := .cycHdr }
  | .cycHdr => cycHdrWord f d dat
  | .wrAdr => { d.pass .passOn 0 with wrAdr := dat, state := .write }
  | .write => writeWord f d dat
  | .rdAdr => { d.pass .passOn dat with state := .read }
  | .read => readWord f d dat
  | .drop => d.pass .passOn 0

def takes (f : Registers) (i : Inputs) : Bool := i.rxCyc && i.rxStb && !stall f i

/-- One rising edge. Outside of an RX cycle the next packet is awaited, and the edge that
ends a packet leaves the tag that ends the reply. -/
def clock (f : Registers) (i : Inputs) : Registers :=
  let d := idle f i
  if i.rxCyc then
    if i.rxStb && !stall f i then word f d i.rxDat else d
  else
    { d with
      state := .ebHdr
      masterCyc := false
      tagStb := f.rxCyc
      tagDat := if f.rxCyc then .dropTx else f.tagDat }

end BelProject.SlaveCore.Fsm
