import BelProject.Heap.Runs

/-! `ftm_priority_queue`: the heap of the timing master. Words of a Wishbone sink are put
together to entries and pushed; a pop is requested by hand or when the entry presented is due,
and the entry goes out word by word to the Etherbone master. Each process has its own registers
and clock. The control registers are inputs, and runs begin after a reset. -/

namespace BelProject.Ftm.PriorityQueue
open Heap
open Heap.Writer (Entry)

/-- The generics. The source elaborates for keys that hold a time stamp, and for entries of
whole words. -/
structure Generics where
  idxWidth : Nat
  keyWidth : Nat
  valWidth : Nat
  key_wide : 64 ≤ keyWidth
  whole : 32 ∣ keyWidth + valWidth

/-- `c_entry_width`. -/
abbrev Generics.entryWidth (g : Generics) : Nat := g.keyWidth + g.valWidth

/-- `c_words_per_entry`. -/
def Generics.wordsPerEntry (g : Generics) : Nat := (g.entryWidth + 32 - 1) / 32

abbrev Generics.Data (g : Generics) : Type := Entry g.keyWidth g.valWidth

/-- The bits of `r_cfg` and `r_force`, `r_dbg`, and the other control registers that are read. -/
structure Control where
  ena : Bool
  autopop : Bool
  autoflushTime : Bool
  autoflushMsgs : Bool
  forcePop : Bool
  forceFlush : Bool
  dbg : Bool
  msgMax : BitVec 32
  tTrn : BitVec 64
  tDue : BitVec 64
  ebmAdr : BitVec 32
  dstAdr : BitVec 32

/-- `snk_i`. -/
structure Sink where
  cyc : Bool
  stb : Bool
  we : Bool
  sel : BitVec 4
  dat : BitVec 32

/-- The inputs of a clock, and what the RAMs of the heap read where the source leaves it open. -/
structure Inputs (g : Generics) where
  control : Control
  time : BitVec 64
  snk : Sink
  srcAck : Bool
  srcStall : Bool
  clash0 : BitVec g.keyWidth
  clash1 : BitVec g.keyWidth
  undriven : BitVec g.keyWidth
  clash : g.Data

/-- `t_state`. -/
inductive StateOut where
  | idle | ebmChk | ebmCfg | shiftOut | waitIdle | ebmFlush | error
  deriving DecidableEq, Repr

/-- The registers of `data_in`. -/
structure DataIn (g : Generics) where
  sinCnt : Nat
  sinSel : BitVec 4
  sinDat : BitVec 32
  sregIn : BitVec g.entryWidth
  push : Bool
  fsmStall : Bool
  ack : Bool
  err : Bool

/-- The registers of `src_ack_cnt`. -/
structure SrcAckCnt where
  ackCnt : BitVec 6
  pushCnt : BitVec 6

/-- The registers of `data_out`. -/
structure DataOut (g : Generics) where
  state : StateOut
  soutCnt : Nat
  adr : BitVec 32
  cyc : Bool
  stb : Bool
  we : Bool
  srcMux : Bool
  commandOut : BitVec 32
  sregOut : BitVec g.entryWidth
  regOut : g.Data
  dataOutRdy : Bool
  popReqDec : Bool
  popAck : Bool
  send : Bool
  msgCntPacket : BitVec 32
  ackCntClr : Bool

/-- The registers of `auto_pop`. -/
structure AutoPop where
  due0 : Bool
  due1 : Bool

/-- The registers of `auto_flush`. -/
structure AutoFlush (g : Generics) where
  send0 : Bool
  send1 : Bool
  earliestKey : BitVec g.keyWidth
  packetNotEmpty : Bool

/-- All registers. Beside them stand the entries removed from the heap and the words written
out of the shift register, in their order. -/
structure World (g : Generics) where
  heap : HeapTop.World g.keyWidth g.valWidth
  /-- `r_empty` -/
  empty : Bool
  input : DataIn g
  acks : SrcAckCnt
  out : DataOut g
  popReq : BitVec (g.idxWidth + 1)
  auto : AutoPop
  flush : AutoFlush g
  removed : List g.Data
  sent : List (BitVec 32)

section
variable {g : Generics}

def pack (entry : g.Data) : BitVec g.entryWidth := entry.key ++ entry.val

def unpack (vector : BitVec g.entryWidth) : g.Data :=
  ⟨vector.extractLsb' g.valWidth g.keyWidth, vector.extractLsb' 0 g.valWidth⟩

def shiftIn (vector : BitVec g.entryWidth) (word : BitVec 32) : BitVec g.entryWidth :=
  vector <<< 32 ||| word.setWidth g.entryWidth

def topWord (vector : BitVec g.entryWidth) : BitVec 32 := vector.extractLsb' (g.entryWidth - 32) 32

def wordsOf (entry : g.Data) : List (BitVec 32) :=
  (List.range g.wordsPerEntry).map fun j => topWord (pack entry <<< (32 * j))

variable (w : World g) (i : Inputs g)

/-- `s_pop`. -/
def pop : Bool :=
  decide (w.popReq ≠ 0) && !HeapTop.busy w.heap && i.control.ena && !HeapTop.emptyOut w.heap && !w.out.popAck

/-- `r_snk_out.stall`. -/
def snkStall : Bool :=
  w.input.fsmStall || HeapTop.fullOut g.idxWidth w.heap || HeapTop.busy w.heap || (!i.snk.cyc && pop w i)

/-- `v_rdy` of `data_out`. -/
def rdy : Bool := w.heap.wr.out || w.out.dataOutRdy

/-- `s_duetime`; the difference wraps. -/
def duetime : BitVec g.keyWidth :=
  w.out.regOut.key - i.control.tDue.setWidth g.keyWidth - i.control.tTrn.setWidth g.keyWidth

/-- `s_due`. -/
def due : Bool := !decide (i.time.toNat < (duetime w i).toNat)

/-- `s_auto_pop`: a pop is requested on a rising edge. -/
def autoPop : Bool := w.auto.due0 && !w.auto.due1

def deadline : BitVec g.keyWidth := w.flush.earliestKey - i.control.tTrn.setWidth g.keyWidth

def maxTimeReached : Bool := !decide (i.time.toNat < (deadline w i).toNat)

def maxMsgReached : Bool := w.out.msgCntPacket == i.control.msgMax

def packetNotEmpty : Bool := w.out.msgCntPacket != 0

def packetStart : Bool := packetNotEmpty w && !w.flush.packetNotEmpty

/-- `s_send`. -/
def send : Bool := w.flush.send0 && !w.flush.send1

/-- `s_src_o.dat`. -/
def srcDat : BitVec 32 := if w.out.srcMux then topWord w.out.sregOut else w.out.commandOut

def transfers : Bool := w.out.cyc && w.out.stb && !i.srcStall

def flag : Bool := if w.heap.wr.out then HeapTop.emptyOut w.heap else w.empty

/-- The assignments of `data_in` before those of an access. -/
def dataInDefault : DataIn g := { w.input with fsmStall := false, ack := false, err := false, push := false }

/-- `data_in`. Byte selects are collected until they make a word, and words until they make an
entry. -/
def dataIn : DataIn g :=
  if i.snk.cyc && i.snk.stb && !snkStall w i then
    if i.snk.we then
      if i.snk.sel ||| w.input.sinSel = 15 then
        { dataInDefault w with
          ack := true
          sinSel := 0
          sinDat := 0
          sregIn := shiftIn w.input.sregIn (i.snk.dat ||| w.input.sinDat)
          sinCnt := if w.input.sinCnt = g.wordsPerEntry - 1 then 0 else (w.input.sinCnt + 1) % 16
          fsmStall := decide (w.input.sinCnt = g.wordsPerEntry - 1)
          push := decide (w.input.sinCnt = g.wordsPerEntry - 1) }
      else
        { dataInDefault w with
          ack := true
          sinSel := w.input.sinSel ||| i.snk.sel
          sinDat := w.input.sinDat ||| i.snk.dat }
    else { dataInDefault w with ack := true, err := true }
  else dataInDefault w

def srcAckCnt : SrcAckCnt :=
  if w.out.ackCntClr then ⟨0, 0⟩
  else
    { ackCnt := if i.srcAck then w.acks.ackCnt + 1 else w.acks.ackCnt
      pushCnt := if transfers w i then w.acks.pushCnt + 1 else w.acks.pushCnt }

def lastWord : Bool := decide (w.out.soutCnt = g.wordsPerEntry - 1)

def takes : Bool := !w.out.send && pop w i && rdy w

/-- The next state, `v_state_out`. -/
def nextState : StateOut :=
  match w.out.state with
  | .idle => if w.out.send then .ebmFlush else if takes w i then .ebmChk else .idle
  | .ebmChk => .ebmCfg
  | .ebmCfg => if i.srcStall then .ebmCfg else .shiftOut
  | .shiftOut =>
    if i.srcStall then .shiftOut
    else if lastWord w then (if w.out.send then .ebmFlush else .waitIdle)
    else .shiftOut
  | .waitIdle =>
    if w.acks.pushCnt < w.acks.ackCnt then .error
    else if w.acks.pushCnt = w.acks.ackCnt then .idle
    else .waitIdle
  | .ebmFlush => if i.srcStall then .ebmFlush else .waitIdle
  | .error => .waitIdle

/-- `c_EBM_ADR_FLUSH`, `c_EBM_ADR_CNT` and `c_EBM_ADR_OPA_HI`. -/
def ebmAdrFlush : BitVec 32 := 0x4

def ebmAdrCnt : BitVec 32 := 0x8

def ebmAdrOpaHi : BitVec 32 := 0x30

/-- `c_EBM_DAT_OFFS`, `c_EBM_RW_OFFS` and `c_EBM_ADR_MSK`. -/
def ebmDatOffs : BitVec 32 := 1 <<< 23

def ebmRwOffs : BitVec 32 := 1 <<< 22

def ebmAdrMsk : BitVec 32 := 0x003FFFFF

/-- The assignments of `data_out` before those of its states. -/
def dataOutDefault : DataOut g :=
  { w.out with
    dataOutRdy := rdy w
    popReqDec := false
    ackCntClr := false
    regOut := if w.heap.wr.out then w.heap.wr.data else w.out.regOut
    send := (w.out.send || send w) && packetNotEmpty w }

/-- The registers of `data_out` that its states change, before the state itself. -/
def dataOutMain : DataOut g :=
  match w.out.state with
  | .idle =>
    if w.out.send then
      { dataOutDefault w with popAck := false, adr := i.control.ebmAdr + ebmAdrFlush, commandOut := 1 }
    else if takes w i then { dataOutDefault w with adr := i.control.ebmAdr + ebmAdrCnt, popAck := true }
    else { dataOutDefault w with popAck := false }
  | .ebmChk => { dataOutDefault w with adr := i.control.ebmAdr + ebmAdrOpaHi, commandOut := i.control.dstAdr }
  | .ebmCfg =>
    if i.srcStall then dataOutDefault w
    else
      { dataOutDefault w with
        sregOut := pack w.out.regOut
        dataOutRdy := w.heap.wr.out
        popReqDec := true
        adr := i.control.ebmAdr ||| ebmDatOffs ||| ebmRwOffs ||| (i.control.dstAdr &&& ebmAdrMsk) }
  | .shiftOut =>
    if i.srcStall then dataOutDefault w
    else if lastWord w then
      { dataOutDefault w with
        sregOut := shiftIn w.out.sregOut 0
        soutCnt := 0
        msgCntPacket := w.out.msgCntPacket + 1
        adr := if w.out.send then i.control.ebmAdr + ebmAdrFlush else w.out.adr }
    else { dataOutDefault w with sregOut := shiftIn w.out.sregOut 0, soutCnt := (w.out.soutCnt + 1) % 16 }
  | .waitIdle => { dataOutDefault w with ackCntClr := decide (w.acks.pushCnt = w.acks.ackCnt) }
  | .ebmFlush => if i.srcStall then dataOutDefault w else { dataOutDefault w with msgCntPacket := 0 }
  | .error => dataOutDefault w

def dataOut : DataOut g :=
  let v := nextState w i
  { dataOutMain w i with
    state := v
    cyc := v != .idle && v != .waitIdle
    stb := v != .idle && v != .waitIdle
    we := v != .ebmChk
    srcMux := v == .shiftOut }

def popRequest : BitVec (g.idxWidth + 1) :=
  w.popReq - (if w.out.popReqDec then 1 else 0) +
    (if (i.control.forcePop || autoPop w) && i.control.ena then 1 else 0)

/-- `auto_pop`. -/
def autoPopNext : AutoPop :=
  { due0 := due w i && i.control.autopop && !w.empty && !w.out.popAck
    due1 := w.auto.due0 }

def autoFlush : AutoFlush g :=
  let c := i.control
  let msgFlush := maxMsgReached w i && c.autoflushMsgs
  let timeFlush := maxTimeReached w i && c.autoflushTime
  { send0 := w.flush.packetNotEmpty && (timeFlush || msgFlush || c.forceFlush)
    send1 := w.flush.send0
    earliestKey := if packetStart w then w.out.regOut.key else w.flush.earliestKey
    packetNotEmpty := packetNotEmpty w }

def event : HeapTop.Event g.keyWidth g.valWidth :=
  { push := w.input.push
    pop := pop w i
    dbgShow := i.control.dbg
    data := unpack w.input.sregIn
    clash0 := i.clash0
    clash1 := i.clash1
    undriven := i.undriven
    clash := i.clash }

def step : World g :=
  { heap := HeapTop.step g.idxWidth w.heap (event w i)
    empty := flag w
    input := dataIn w i
    acks := srcAckCnt w i
    out := dataOut w i
    popReq := popRequest w i
    auto := autoPopNext w i
    flush := autoFlush w i
    removed := if pop w i then w.removed ++ [w.heap.shown] else w.removed
    sent := if w.out.srcMux && transfers w i then w.sent ++ [srcDat w] else w.sent }

def run (inputs : List (Inputs g)) : World g := inputs.foldl step w

end

/-- What a reset leaves as it was. -/
structure Junk (g : Generics) where
  heap : HeapTop.Junk g.keyWidth g.valWidth
  fsmStall : Bool
  snkAck : Bool
  snkErr : Bool
  srcMux : Bool
  commandOut : BitVec 32
  sregOut : BitVec g.entryWidth
  regOut : g.Data
  due1 : Bool
  send1 : Bool
  packetNotEmpty : Bool

def start {g : Generics} (junk : Junk g) : World g :=
  { heap := HeapTop.start junk.heap
    empty := true
    input := { sinCnt := 0, sinSel := 0, sinDat := 0, sregIn := 0, push := false, fsmStall := junk.fsmStall
               ack := junk.snkAck, err := junk.snkErr }
    acks := ⟨0, 0⟩
    out := { state := .idle, soutCnt := 0, adr := 0, cyc := false, stb := false, we := false, srcMux := junk.srcMux
             commandOut := junk.commandOut, sregOut := junk.sregOut, regOut := junk.regOut, dataOutRdy := false
             popReqDec := false, popAck := false, send := false, msgCntPacket := 0, ackCntClr := false }
    popReq := 0
    auto := ⟨false, junk.due1⟩
    flush := { send0 := false, send1 := junk.send1, earliestKey := 0, packetNotEmpty := junk.packetNotEmpty }
    removed := []
    sent := [] }

end BelProject.Ftm.PriorityQueue
