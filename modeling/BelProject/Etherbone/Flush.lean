import BelProject.Etherbone.Format
import BelProject.Library.Packing

/-! `eb_device_flush`. The ready cycles are checked, formatted and written into one local
buffer; a packet is sent when the next record does not fit, after the records of the
cycle in progress were moved to the front. What the rest of the library sees of a flush
is the list of its effects: packets, callbacks and responses put in flight. -/

namespace BelProject.Etherbone.Flush
open BelProject.Library Width Operations Wire Format

/-- `struct eb_response`; the cursors are positions in the operations of the cycle. -/
structure Response where
  address : Nat
  deadline : Nat
  handle : Nat
  operations : List Operation
  writeCursor : Option Nat
  statusCursor : Option Nat
  deriving DecidableEq

inductive Effect where
  | sendBuffer (on : Bool)
  | send (bytes : List Byte)
  | callback (handle : Nat) (operations : List Operation) (status : Status)
  | respond (response : Response)
  deriving DecidableEq

/-- The local variables of a flush with the bytes before `wptr`, every store into the buffer
as offset and length, and `aux->rba`. -/
structure Pack where
  buffer : List Byte
  cptr : Nat
  hasReads : Bool
  stores : List (Nat × Nat)
  rba : Nat
  effects : List Effect
  deriving DecidableEq

section
variable (p : Port) (mtu : Nat)

def packetHeader (noReads : Bool) : List Byte :=
  [0x4E, 0x6F, if noReads then 0x10 ||| headerNr else 0x10, p.widths] ++ List.replicate (p.headerAlignment - 4) 0

def headerSize : Nat := if mtu = 0 then 0 else p.headerAlignment

def eob : Nat := if mtu = 0 then p.bufferSize else mtu

namespace Pack

def emit (s : Pack) (effect : Effect) : Pack := { s with effects := s.effects ++ [effect] }

/-- Non-streaming sockets need a header. -/
def begin (rba : Nat) : Pack :=
  { buffer := if mtu = 0 then [] else packetHeader p false
    cptr := headerSize p mtu
    hasReads := false
    stores := if mtu = 0 then [] else [(0, p.headerAlignment)]
    rba := rba
    effects := [.sendBuffer true] }

/-- If we've sent no reads, toggle the header. -/
def toggle (s : Pack) : Pack :=
  if s.hasReads then s
  else { s with buffer := s.buffer.modify 2 (· ||| headerNr), stores := s.stores ++ [(2, 1)] }

/-- Send the cycles before `cptr` and shift the records behind it over. -/
def flushPrior (s : Pack) : Pack :=
  if s.cptr ≠ p.headerAlignment then
    let s := s.toggle
    { s with
      hasReads := false
      effects := s.effects ++ [.send (s.buffer.take s.cptr)]
      buffer := s.buffer.take p.headerAlignment ++ s.buffer.drop s.cptr
      stores := s.stores ++ [(p.headerAlignment, s.buffer.length - s.cptr)]
      cptr := p.headerAlignment }
  else s

/-- Ensure sufficient buffer space for a record, or report that the cycle overflows the MTU. -/
def reserve (length : Nat) (s : Pack) : Pack × Bool :=
  if s.buffer.length + length > eob p mtu then
    if mtu = 0 then ({ s.emit (.send s.buffer) with buffer := [] }, true)
    else
      let s := s.flushPrior p
      (s, decide (s.buffer.length + length ≤ eob p mtu))
  else (s, true)

/-- Write one record at `wptr`. -/
def append (record : Record) (s : Pack) : Pack :=
  { s with
    hasReads := s.hasReads || !record.reads.isEmpty
    buffer := s.buffer ++ record.encode p
    stores := s.stores ++ [(s.buffer.length, p.recordAlignment + record.total * p.alignment)] }

def records (rba : Nat) : List Batch → Pack → Pack × Option (List Operation)
  | [], s => (s, none)
  | batch :: batches, s =>
    match s.reserve p mtu (p.recordAlignment + (batch.toRecord p rba).total * p.alignment) with
    | (s, false) => ({ s with buffer := s.buffer.take p.headerAlignment }, some batch.start)
    | (s, true) => records rba batches (s.append p (batch.toRecord p rba))

end Pack

/-- What becomes of a cycle before anything of it is formatted: a callback straight away,
or the checked operations. -/
def screen (alloc : Nat → Bool) (cycle : Cycle) : Except (List Operation × Status) (List Operation) :=
  match cycle.ops with
  | .dead => .error ([], .oom)
  | .live [] => .error ([], .ok)
  | .live operations =>
    match checkOperations p operations with
    | .error bad => .error bad
    | .ok checked => if alloc cycle.handle then .ok checked else .error ([], .oom)

def readback (batches : List Batch) : Bool := batches.any fun batch => batch.inserted || !batch.reads.isEmpty

/-- Claim response address. -/
def nextRba (rba : Nat) : Nat := (0x8000 ||| (rba + 2)) % 2 ^ 16

def newResponse (time rba handle : Nat) (operations : List Operation) : Response :=
  { address := rba
    deadline := (time + 5) % 2 ^ 16
    handle := handle
    operations := operations
    writeCursor := ebFindRead operations 0
    statusCursor := if needsCheck operations then ebFindBus operations 0 else none }

/-- One pass of the loop over the ready cycles. -/
def flushCycle (time : Nat) (alloc : Nat → Bool) (s : Pack) (cycle : Cycle) : Pack :=
  match screen p alloc cycle with
  | .error (operations, status) => s.emit (.callback cycle.handle operations status)
  | .ok operations =>
    let batches := formatCycle p operations
    match s.records p mtu s.rba batches with
    | (s, some rest) => s.emit (.callback cycle.handle rest .overflow)
    | (s, none) =>
      let s := { s with cptr := s.buffer.length }
      if readback batches then
        { s.emit (.respond (newResponse time s.rba cycle.handle operations)) with rba := nextRba s.rba }
      else s.emit (.callback cycle.handle operations .ok)

def Pack.finish (s : Pack) : Pack :=
  let s :=
    if mtu = 0 then
      if s.buffer.length ≠ 0 then s.emit (.send s.buffer) else s
    else
      if s.buffer.length ≠ p.headerAlignment then
        let s := s.toggle
        s.emit (.send s.buffer)
      else s
  s.emit (.sendBuffer false)

/-- `eb_device_flush` on a live link; `ready` is the linked list, the cycle closed last in front. -/
def ebDeviceFlush (time : Nat) (alloc : Nat → Bool) (rba : Nat) (ready : List Cycle) : Pack :=
  (ready.reverse.foldl (flushCycle p mtu time alloc) (Pack.begin p mtu rba)).finish p mtu

end

def sends (effects : List Effect) : List (List Byte) :=
  effects.filterMap fun effect => match effect with
    | .send bytes => some bytes
    | _ => none

def callbacks (effects : List Effect) : List (Nat × Status) :=
  effects.filterMap fun effect => match effect with
    | .callback handle _ status => some (handle, status)
    | _ => none

@[simp] theorem sends_append (first second : List Effect) : sends (first ++ second) = sends first ++ sends second :=
  List.filterMap_append

@[simp] theorem callbacks_append (first second : List Effect) :
    callbacks (first ++ second) = callbacks first ++ callbacks second :=
  List.filterMap_append

end BelProject.Etherbone.Flush
