import BelProject.Library.Memory
import BelProject.Etherbone.SdbReplies

/-! Scans of a table in the memory of a remote device. Flush settles the reads on the width of
the port, the device answers with the bytes it has, and the callbacks make the table out of
them. A table of nothing but its header fails the test that tells a whole header from a part. -/

namespace BelProject.Etherbone.SdbTables
open BelProject.Library Memory Width Execute Operations Sdb SdbScan SdbReplies

/-- The bytes a device answers reads with, on its bus and in its config space. -/
structure Remote where
  bus : Nat → UInt8
  config : Nat → UInt8

def Remote.memory (remote : Remote) (cfgSpace : Bool) : Nat → UInt8 := if cfgSpace then remote.config else remote.bus

def Remote.answer (remote : Remote) (op : Operation) : Operation :=
  { op with unValue := BigEndian.decode (slice (remote.memory op.cfgSpace) op.address op.size), error := false }

def Remote.deliver (p : Port) (remote : Remote) (ops : List Operation) : List Operation × Status :=
  match checkOperations p ops with
  | .error (bad, reason) => (bad, reason)
  | .ok ops => (ops.map remote.answer, .ok)

/-- `eb_sdb_scan_bus`: the base of the bus and the cycle it closes. -/
def ebSdbScanBus (p : Port) (bridge : SdbBridge) : Except Status (UInt64 × List Operation) :=
  if bridge.sdbComponent.product.recordType ≠ sdbRecordBridge then .error .address
  else .ok (UInt64.ofNat (bridge.sdbComponent.addrFirst.toNat % p.wordMod),
    headerCycle p (bridge.sdbChild.toNat % p.wordMod))

inductive Entry where
  | bus (bridge : SdbBridge)
  | root

namespace Entry

def opens (p : Port) : Entry → Except Status (UInt64 × Phase × List Operation)
  | .bus bridge => (ebSdbScanBus p bridge).map fun (busBase, ops) => (busBase, .header, ops)
  | .root => .ok (0, .headerPtr, ebSdbScanRoot p)

def child (remote : Remote) : Entry → Nat
  | .bus bridge => bridge.sdbChild.toNat
  | .root => BigEndian.decode (slice remote.config 8 8)

def busBase (p : Port) : Entry → UInt64
  | .bus bridge => UInt64.ofNat (bridge.sdbComponent.addrFirst.toNat % p.wordMod)
  | .root => 0

/-- A scan of a bus needs the record of a bridge. -/
def IsBridge : Entry → Prop
  | .bus bridge => bridge.sdbComponent.product.recordType = sdbRecordBridge
  | .root => True

end Entry

/-- The callback of each cycle of a scan. -/
def called (p : Port) (host : Host) (stack : Stack) (busBase : UInt64) (phase : Phase) (ops : List Operation)
    (status : Status) : Outcome :=
  match phase with
  | .headerPtr => ebSdbGotHeaderPtr p .ok ops status
  | .header => ebSdbGotHeader p host stack .ok ops status
  | .all => ebSdbGotAll host stack busBase ops status

/-- Cycle after cycle until the user is called. -/
def follow (p : Port) (host : Host) (stack : Stack) (busBase : UInt64) (remote : Remote) :
    Nat → Phase → List Operation → Option (Option SdbTable × Status)
  | 0, _, _ => none
  | fuel + 1, phase, ops =>
    match called p host stack busBase phase (remote.deliver p ops).1 (remote.deliver p ops).2 with
    | .cycle phase ops => follow p host stack busBase remote fuel phase ops
    | .callback sdb status => some (sdb, status)

def scan (p : Port) (host : Host) (stack : Stack) (remote : Remote) (fuel : Nat) (entry : Entry) :
    Option (Option SdbTable × Status) :=
  match entry.opens p with
  | .error _ => none
  | .ok (busBase, phase, ops) => follow p host stack busBase remote fuel phase ops

section
variable (p : Port) (remote : Remote)

end

section
variable (p : Port) (host : Host) (stack : Stack) (remote : Remote)

variable {p host stack remote} {busBase : UInt64} {child records : Nat}

end

end BelProject.Etherbone.SdbTables
