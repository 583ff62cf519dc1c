import BelProject.Etherbone.Execute
import BelProject.Etherbone.Header
import BelProject.Library.Memory

/-! `eb_device_slave` with its buffer. Requests are read at `rptr` and replies built in
place at `wptr` of the same buffer; on a stream the loop compacts the buffer and asks
the transport for more. Every touch of the buffer and every call of the transport is
logged, so that the safety of the pointers can be stated. -/

namespace BelProject.Etherbone.Slave
open BelProject.Library Memory Width Wire Header Execute

/-- A touch of the buffer or a transport call, with the pointers that bound it. -/
inductive Touch where
  | boundary (wptr rptr : Nat)
  | load (offset length eos : Nat)
  | store (offset length rptr : Nat)
  | move (source length : Nat)
  | recv (offset asked : Nat)
  | send (length : Nat)
  deriving DecidableEq, Repr

/-- The local variables of `eb_device_slave` with the transport's two directions. `input`
holds the pieces the link will deliver, `sent` what was handed to `send`. -/
structure Machine (σ : Type) where
  buf : Mem
  wptr : Nat
  rptr : Nat
  eos : Nat
  session : Session σ
  cycleEnd : Bool
  reply : Bool
  input : List (List Byte)
  sent : List (List Byte)
  log : List Touch

/-- How a call ends: it returns 1, returns 0 without data, jumps to `kill`, or has handed
the widths of a probe response to the device with that tag. A call that is `stuck` has
used up the fuel of its model. -/
inductive Outcome where
  | more
  | idle
  | kill
  | response (tag : Nat) (widths : UInt8)
  | stuck
  deriving DecidableEq, Repr

structure Result (σ : Type) where
  outcome : Outcome
  state : Machine σ

variable {σ : Type}

namespace Machine

def touch (st : Machine σ) (event : Touch) : Machine σ := { st with log := st.log ++ [event] }

/-- `EB_LOAD` at `rptr`. -/
def ebLoad (p : Port) (st : Machine σ) : Nat × Machine σ :=
  (BigEndian.decode (slice st.buf st.rptr p.alignment),
    { st.touch (.load st.rptr p.alignment st.eos) with rptr := st.rptr + p.alignment })

def put (st : Machine σ) (bytes : List Byte) : Machine σ :=
  { st.touch (.store st.wptr bytes.length st.rptr) with
    buf := store st.buf st.wptr bytes
    wptr := st.wptr + bytes.length }

/-- `EB_sWRITE` at `wptr`. -/
def ebSWrite (p : Port) (st : Machine σ) (value : Nat) : Machine σ :=
  st.put (BigEndian.encode p.alignment value)

/-- The transport's `recv` into the buffer at `offset`: at most `asked` bytes of the next
piece, none when the link is closed. -/
def recv (st : Machine σ) (offset asked : Nat) : Option (Machine σ) :=
  match st.input with
  | [] => none
  | piece :: input =>
    let bytes := piece.take asked
    if bytes.length = 0 then none
    else
      some { st with
        buf := store st.buf offset bytes
        eos := offset + bytes.length
        input := if piece.length ≤ asked then input else piece.drop asked :: input }

def send (st : Machine σ) : Machine σ :=
  if st.reply then
    { st.touch (.send st.wptr) with sent := st.sent ++ [slice st.buf 0 st.wptr] }
  else st

/-- Send what is finished, keep `[rptr, eos)` at the front and wait for more. -/
def refill (p : Port) (st : Machine σ) : Except (Machine σ) (Machine σ) :=
  let keep := st.eos - st.rptr
  let moved := { st.touch (.move st.rptr keep) with buf := store st.buf 0 (slice st.buf st.rptr keep) }
  let asking := moved.touch (.recv keep (p.bufferSize - keep))
  match asking.recv keep (p.bufferSize - keep) with
  | none => .error asking
  | some got => .ok { got with wptr := 0, rptr := 0 }

/-- Test if the record overflows the packet. On a stream, rewind to its header so that it
stays intact, and receive until all of it is there. -/
def fillRecord (p : Port) (mtu total : Nat) : Nat → Machine σ → Except (Result σ) (Machine σ)
  | 0, st => .error ⟨.stuck, st⟩
  | fuel + 1, st =>
    if total * p.alignment > st.eos - st.rptr then
      if mtu ≠ 0 then .error ⟨.kill, st⟩
      else
        match ({ st with rptr := st.rptr - p.recordAlignment }).send.refill p with
        | .error dead => .error ⟨.kill, dead⟩
        | .ok st => fillRecord p mtu total fuel { st with rptr := p.recordAlignment }
    else .ok st

/-- The `while (wcount--)` loop in the buffer. -/
def slaveWrites (p : Port) (bus : Bus σ) (lanes : Lanes) (wconfig wfifo : Bool) :
    Nat → Nat → Nat → Nat → Machine σ → Machine σ
  | 0, _, _, _, st => st
  | wcount + 1, bwa, bwaB, bwaL, st =>
    let (word, st) := st.ebLoad p
    let (session, _) := perform bus st.session (writeRequest p lanes wconfig bwa bwaB bwaL word)
    slaveWrites p bus lanes wconfig wfifo wcount (nextAddress p wfifo bwa) (nextAddress p wfifo bwaB)
      (nextAddress p wfifo bwaL) { st with session := session }

/-- The `while (rcount--)` loop in the buffer; each answer lands behind the address it belongs to. -/
def slaveReads (p : Port) (bus : Bus σ) (lanes : Lanes) (rconfig : Bool) : Nat → Machine σ → Machine σ
  | 0, st => st
  | rcount + 1, st =>
    let (word, st) := st.ebLoad p
    let (session, value) := perform bus st.session (readRequest p lanes rconfig word)
    slaveReads p bus lanes rconfig rcount
      (({ st with session := session } : Machine σ).ebSWrite p (replyWord p lanes value))

def padded (p : Port) (header : List Byte) : List Byte :=
  header ++ List.replicate (p.recordAlignment - header.length) 0

/-- The `if (wcount > 0)` block. -/
def slaveWritePart (p : Port) (bus : Bus σ) (flags : Byte) (lanes : Lanes) (wcount : Byte) (st : Machine σ) :
    Machine σ :=
  if wcount > 0 then
    let wfifo := flags &&& recordWff != 0
    let wconfig := flags &&& recordWca != 0
    let (bwa, st) := st.ebLoad p
    let (bwa, bwaB, bwaL) := baseAddresses p lanes wconfig bwa
    slaveWrites p bus lanes wconfig wfifo wcount.toNat bwa bwaB bwaL st
  else st

/-- The `if (rcount > 0)` block. -/
def slaveReadPart (p : Port) (bus : Bus σ) (flags select : Byte) (lanes : Lanes) (rcount : Byte)
    (st : Machine σ) : Machine σ :=
  if rcount > 0 then
    let rfifo := flags &&& recordRff != 0
    let bconfig := flags &&& recordBca != 0
    let rconfig := flags &&& recordRca != 0
    let st := ({ st with reply := true }).put (padded p [(flags &&& recordCyc) |||
      (if bconfig then recordWca else 0) ||| (if rfifo then recordWff else 0), select, rcount, 0])
    let st := { st with session := { st.session with cycleOpen := !st.cycleEnd } }
    let (bra, st) := st.ebLoad p
    slaveReads p bus lanes rconfig rcount.toNat (st.ebSWrite p bra)
  else st

def slaveEndPart (p : Port) (flags : Byte) (st : Machine σ) : Machine σ :=
  if st.session.cycleOpen && st.cycleEnd then st.put (padded p [flags &&& recordCyc]) else st

def slaveRecord (p : Port) (bus : Bus σ) (flags select wcount rcount : Byte) (st : Machine σ) : Machine σ :=
  let lanes := decodeSelect p select
  ((st.slaveWritePart p bus flags lanes wcount).slaveReadPart p bus flags select lanes rcount).slaveEndPart p flags

/-- Consume the record header at `rptr`. -/
def readHeader (p : Port) (st : Machine σ) : Machine σ :=
  { st.touch (.load st.rptr 4 st.eos) with
    rptr := st.rptr + p.recordAlignment
    cycleEnd := st.buf st.rptr &&& recordCyc != 0 }

/-- `total`: aligned words behind a record header with these counts. -/
def recordTotal (wcount rcount : Byte) : Nat :=
  wcount.toNat + rcount.toNat + (if wcount > 0 then 1 else 0) + (if rcount > 0 then 1 else 0)

def slaveLoop (p : Port) (bus : Bus σ) (mtu : Nat) : Nat → Machine σ → Result σ
  | 0, st => ⟨.stuck, st⟩
  | fuel + 1, st =>
    let st := st.touch (.boundary st.wptr st.rptr)
    if st.rptr + p.recordAlignment ≤ st.eos then
      let flags := st.buf st.rptr
      let select := st.buf (st.rptr + 1)
      let wcount := st.buf (st.rptr + 2)
      let rcount := st.buf (st.rptr + 3)
      match fillRecord p mtu (recordTotal wcount rcount) (st.input.flatten.length + 1) (st.readHeader p) with
      | .error result => result
      | .ok st => slaveLoop p bus mtu fuel (slaveRecord p bus flags select wcount rcount st)
    else
      let st := st.send
      if st.cycleEnd = false then
        if mtu ≠ 0 then ⟨.kill, st⟩
        else
          match st.refill p with
          | .error dead => ⟨.kill, dead⟩
          | .ok st => slaveLoop p bus mtu fuel st
      else if st.rptr ≠ st.eos then ⟨.kill, st⟩
      else ⟨.more, st⟩

/-- The state of a call after `poll` returned `bytes`, its pointers at `offset`. -/
def start (bus : σ) (trace : List Access) (bytes : List Byte) (input sent : List (List Byte)) (log : List Touch)
    (offset : Nat) : Machine σ :=
  { buf := store (fun _ => 0) 0 bytes
    wptr := offset
    rptr := offset
    eos := bytes.length
    session := ⟨bus, 0, false, trace⟩
    cycleEnd := true
    reply := false
    input := input
    sent := sent
    log := log }

def fuelFor (st : Machine σ) : Nat := st.eos + 2 * st.input.flatten.length + 2

end Machine

/-- The transport's `poll`: a datagram that does not fit is cut off, a stream keeps its rest. -/
def poll (size mtu : Nat) : List (List Byte) → List Byte × List (List Byte)
  | [] => ([], [])
  | piece :: input =>
    (piece.take size, if mtu ≠ 0 ∨ piece.length ≤ size then input else piece.drop size :: input)

/-- A link as successive calls see it. `negotiated` is the width a stream has settled on;
packets bring their own. -/
structure Link (σ : Type) (socket : Socket) where
  negotiated : Option { p : Port // p.word = socket.word }
  bus : σ
  trace : List Access
  input : List (List Byte)
  sent : List (List Byte)
  log : List Touch

variable {socket : Socket}

namespace Link

def fresh (negotiated : Option { p : Port // p.word = socket.word }) (bus : σ) (input : List (List Byte)) :
    Link σ socket :=
  ⟨negotiated, bus, [], input, [], []⟩

/-- A call on this link after `poll` returned `bytes`. -/
def begin (link : Link σ socket) (bytes : List Byte) (input : List (List Byte)) (offset : Nat) : Machine σ :=
  Machine.start link.bus link.trace bytes input link.sent link.log offset

/-- The same behind a packet header. As a reply, this will contain no reads. -/
def beginPacket (link : Link σ socket) (bytes : List Byte) (input : List (List Byte)) (offset : Nat) : Machine σ :=
  let st := link.begin bytes input offset
  { st with
    buf := store st.buf 2 [st.buf 2 ||| headerNr]
    log := st.log ++ [Touch.store 2 1 4] }

def finish (link : Link σ socket) (st : Machine σ) : Link σ socket :=
  { link with bus := st.session.bus, trace := st.session.trace, input := st.input, sent := st.sent, log := st.log }

end Link

def probeAnswer (socketWidths : UInt8) (packet : List Byte) : List Byte :=
  packet.take 2 ++ [0x10 ||| headerPr ||| headerNr, socketWidths] ++ (packet.drop 4).take 4

def ebDeviceSlave (socket : Socket) (peer : Peer) (mtu : Nat) (bus : Bus σ) (link : Link σ socket) :
    Outcome × Link σ socket :=
  let (bytes, input) := poll socket.bufferSize mtu link.input
  let polled : Link σ socket := { link with input := input, log := link.log ++ [.recv 0 socket.bufferSize] }
  if bytes.length = 0 then (.idle, polled)
  else if bytes.length < 2 then (.kill, polled)
  else
    match if mtu = 0 then link.negotiated else none with
    | some p =>
      let start := polled.begin bytes input 0
      let result := start.slaveLoop p.val bus mtu start.fuelFor
      (result.outcome, polled.finish result.state)
    | none =>
      let read : Link σ socket := { polled with log := polled.log ++ [.load 0 (min 4 bytes.length) bytes.length] }
      match parseHeader socket.widths peer bytes with
      | .kill => (.kill, read)
      | .response tag widths => (.response tag widths, { read with log := read.log ++ [.load 4 4 bytes.length] })
      | .probe offered =>
        let answered : Link σ socket := { read with
          sent := read.sent ++ [probeAnswer socket.widths bytes]
          log := read.log ++ [.store 2 2 4, .send 8] }
        if possible : ebWidthPossible (ebWidthRefine (offered &&& socket.widths)) = true then
          (.more, if peer = .passive then
            { answered with negotiated := some ⟨socket.port offered possible, rfl⟩ } else answered)
        else (.kill, answered)
      | .proceed offered =>
        if possible : ebWidthPossible (ebWidthRefine (offered &&& socket.widths)) = true then
          let p := socket.port offered possible
          let start := read.beginPacket bytes input p.headerAlignment
          let result := start.slaveLoop p bus mtu start.fuelFor
          (result.outcome, read.finish result.state)
        else (.kill, read)

def serve (socket : Socket) (peer : Peer) (mtu : Nat) (bus : Bus σ) : Nat → Link σ socket → Outcome × Link σ socket
  | 0, link => (.idle, link)
  | calls + 1, link =>
    match ebDeviceSlave socket peer mtu bus link with
    | (.kill, link) => if peer = .transport then serve socket peer mtu bus calls link else (.kill, link)
    | (.stuck, link) => (.stuck, link)
    | (_, link) => serve socket peer mtu bus calls link

end BelProject.Etherbone.Slave
