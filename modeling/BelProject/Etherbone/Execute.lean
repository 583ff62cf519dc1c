import BelProject.Etherbone.Wire

/-! Execution of a record by `eb_device_slave`, away from the buffer it arrives in. The
byte-enable fixes access width, shift and low address bits; every word of the record
becomes one request to the bus or the config space, and the values read form the
reply record. -/

namespace BelProject.Etherbone.Execute
open BelProject.Library Width Wire

def ebLog2Table : List UInt8 := [0, 1, 2, 4, 7, 3, 6, 5]

/-- `eb_log2`: position of the only set bit, by multiplication with a de Bruijn constant. -/
def ebLog2 (x : UInt8) : UInt8 := (ebLog2Table[((x * 0x17) >>> 5).toNat]?).getD 0

/-- What the select lines of a record mean on a port. -/
structure Lanes where
  opShift : Nat
  opWidth : Nat
  selOk : Bool
  addrLowBigEndian : Nat
  addrLowLittleEndian : Nat
  dataMask : Nat
  deriving DecidableEq

def decodeSelect (p : Port) (select : UInt8) : Lanes :=
  let opShift := ebLog2 (select &&& (0 - select))
  let bits := select >>> opShift
  let bits1 := (bits >>> 1) + 1
  let opWidths := ebLog2 bits1
  let opWidth := opWidths + 1
  { opShift := opShift.toNat
    opWidth := opWidth.toNat
    selOk := select != 0 && bits &&& (bits + 1) == 0 && opWidth &&& opWidths == 0 &&
      opShift &&& opWidths == 0 && decide (opWidth.toNat ≤ p.data) && decide (opShift.toNat < p.data)
    addrLowBigEndian := (UInt8.ofNat p.data - (opShift + opWidth)).toNat
    addrLowLittleEndian := opShift.toNat
    dataMask := p.dataMask opWidth.toNat }

/-- `op_width` with the address width put back in, as handlers see it. -/
def Lanes.accessWidth (p : Port) (lanes : Lanes) : UInt8 := UInt8.ofNat (p.addr * 16 + lanes.opWidth)

/-- The calls the slave makes for one word. An access with impossible select lines is not
made; on the bus it still counts as failed. -/
inductive Request where
  | busWrite (width : UInt8) (addrB addrL value : Nat)
  | busRead (width : UInt8) (addrB addrL : Nat)
  | cfgWrite (width : UInt8) (addr value : Nat)
  | cfgRead (width : UInt8) (addr : Nat)
  | badBus
  | badCfg
  deriving DecidableEq, Repr

/-- A request with the value it returned and whether it failed. -/
structure Access where
  request : Request
  value : Nat
  failed : Bool
  deriving DecidableEq, Repr

/-- The local bus and config space of a socket: `eb_socket_read` and `eb_socket_write`
without the status shift, and `eb_socket_write_config`. -/
structure Bus (σ : Type) where
  read : σ → UInt8 → Nat → Nat → Nat × Bool × σ
  write : σ → UInt8 → Nat → Nat → Nat → Bool × σ
  writeConfig : σ → UInt8 → Nat → Nat → σ

structure Session (σ : Type) where
  bus : σ
  error : Nat
  cycleOpen : Bool
  trace : List Access

def shiftError (error : Nat) (failed : Bool) : Nat := (error <<< 1 ||| failed.toNat) % 2 ^ 64

/-- `eb_socket_read_config`: only the error shift register is readable, always big endian. -/
def ebSocketReadConfig (widths : UInt8) (addr error : Nat) : Nat :=
  if addr ≥ 8 then 0
  else BigEndian.decode (((BigEndian.encode 8 error ++ List.replicate 8 0).drop addr).take
    (widths &&& 0xf).toNat)

theorem ebSocketReadConfig_eq (widths : UInt8) (addr error : Nat) :
    ebSocketReadConfig widths addr error = if addr ≥ 8 then 0
      else ((error <<< 64) >>> (8 * (16 - addr - min (widths &&& 0xf).toNat (16 - addr)))) %
        2 ^ (8 * min (widths &&& 0xf).toNat (16 - addr)) := by
  unfold ebSocketReadConfig
  by_cases outside : addr ≥ 8
  · rw [if_pos outside, if_pos outside]
  · rw [if_neg outside, if_neg outside]
    generalize (widths &&& 0xf).toNat = size
    have register : BigEndian.encode 8 error ++ List.replicate 8 (0 : UInt8) = BigEndian.encode (8 + 8) (error <<< 64) := by
      have shifted : error <<< 64 = error * 256 ^ 8 := Nat.shiftLeft_eq _ _
      rw [BigEndian.encode_add, shifted, Nat.mul_div_cancel _ (by decide), BigEndian.encode_mul_pow 8 0]
    have split : 8 + 8 = addr + (min size (16 - addr) + (16 - addr - min size (16 - addr))) := by omega
    have taken : ∀ bytes : List UInt8, bytes.length = 16 - addr →
        bytes.take size = bytes.take (min size (16 - addr)) := by
      intro bytes length
      rw [← length]
      exact List.take_eq_take_min
    rw [register, taken _ (by rw [List.length_drop, BigEndian.length_encode]), split, BigEndian.decode_window]

variable {σ : Type}

def record (s : Session σ) (request : Request) (value : Nat) (failed : Bool) : Session σ :=
  { s with trace := s.trace ++ [⟨request, value, failed⟩] }

def shifted (s : Session σ) (failed : Bool) : Session σ := { s with error := shiftError s.error failed }

def perform (bus : Bus σ) (s : Session σ) (request : Request) : Session σ × Nat :=
  match request with
  | .busWrite width addrB addrL value =>
    let (failed, next) := bus.write s.bus width addrB addrL value
    (record (shifted { s with bus := next } failed) request 0 failed, 0)
  | .busRead width addrB addrL =>
    let (value, failed, next) := bus.read s.bus width addrB addrL
    (record (shifted { s with bus := next } failed) request value failed, value)
  | .cfgWrite width addr value =>
    (record { s with bus := bus.writeConfig s.bus width addr value } request 0 false, 0)
  | .cfgRead width addr =>
    let value := ebSocketReadConfig width addr s.error
    (record s request value false, value)
  | .badBus => (shifted s true, 0)
  | .badCfg => (s, 0)

def writeRequest (p : Port) (lanes : Lanes) (wconfig : Bool) (bwa bwaB bwaL word : Nat) : Request :=
  let wv := (word >>> (lanes.opShift <<< 3)) &&& lanes.dataMask
  if wconfig then
    if lanes.selOk then .cfgWrite (lanes.accessWidth p) bwa wv else .badCfg
  else
    if lanes.selOk then .busWrite (lanes.accessWidth p) bwaB bwaL wv else .badBus

def readRequest (p : Port) (lanes : Lanes) (rconfig : Bool) (word : Nat) : Request :=
  let ra := word &&& p.addressFilterBits
  let raB := ra ||| lanes.addrLowBigEndian
  let raL := ra ||| lanes.addrLowLittleEndian
  if rconfig then
    if lanes.selOk then .cfgRead (lanes.accessWidth p) raB else .badCfg
  else
    if lanes.selOk then .busRead (lanes.accessWidth p) raB raL else .badBus

def replyWord (p : Port) (lanes : Lanes) (value : Nat) : Nat :=
  ((value &&& lanes.dataMask) <<< (lanes.opShift <<< 3)) % p.wordMod

def nextAddress (p : Port) (wfifo : Bool) (address : Nat) : Nat :=
  if wfifo then address else (address + p.stride) % p.wordMod

/-- The `while (wcount--)` loop. -/
def execWrites (p : Port) (bus : Bus σ) (lanes : Lanes) (wconfig wfifo : Bool) :
    Nat → Nat → Nat → List Nat → Session σ → Session σ
  | _, _, _, [], s => s
  | bwa, bwaB, bwaL, word :: words, s =>
    execWrites p bus lanes wconfig wfifo (nextAddress p wfifo bwa) (nextAddress p wfifo bwaB)
      (nextAddress p wfifo bwaL) words (perform bus s (writeRequest p lanes wconfig bwa bwaB bwaL word)).1

/-- The `while (rcount--)` loop, with the words it puts into the reply. -/
def execReads (p : Port) (bus : Bus σ) (lanes : Lanes) (rconfig : Bool) :
    List Nat → Session σ → Session σ × List Nat
  | [], s => (s, [])
  | word :: words, s =>
    let (s, value) := perform bus s (readRequest p lanes rconfig word)
    let (s, replies) := execReads p bus lanes rconfig words s
    (s, replyWord p lanes value :: replies)

@[simp] theorem length_execReads (p : Port) (bus : Bus σ) (lanes : Lanes) (rconfig : Bool) (words : List Nat)
    (s : Session σ) : (execReads p bus lanes rconfig words s).2.length = words.length := by
  induction words generalizing s with
  | nil => rfl
  | cons word words ih => simp only [execReads, List.length_cons, ih]

@[simp] theorem perform_cycleOpen (bus : Bus σ) (s : Session σ) (request : Request) :
    (perform bus s request).1.cycleOpen = s.cycleOpen := by
  cases request <;> rfl

@[simp] theorem execWrites_cycleOpen (p : Port) (bus : Bus σ) (lanes : Lanes) (wconfig wfifo : Bool)
    (bwa bwaB bwaL : Nat) (words : List Nat) (s : Session σ) :
    (execWrites p bus lanes wconfig wfifo bwa bwaB bwaL words s).cycleOpen = s.cycleOpen := by
  induction words generalizing s bwa bwaB bwaL with
  | nil => rfl
  | cons word words ih => simp only [execWrites, ih, perform_cycleOpen]

@[simp] theorem execReads_cycleOpen (p : Port) (bus : Bus σ) (lanes : Lanes) (rconfig : Bool) (words : List Nat)
    (s : Session σ) : (execReads p bus lanes rconfig words s).1.cycleOpen = s.cycleOpen := by
  induction words generalizing s with
  | nil => rfl
  | cons word words ih => simp only [execReads, ih, perform_cycleOpen]

/-- The base addresses the write loop starts from: the raw one for the config space, and
the two byte addresses the select lines pick on the bus. -/
def baseAddresses (p : Port) (lanes : Lanes) (wconfig : Bool) (bwa : Nat) : Nat × Nat × Nat :=
  if wconfig then (bwa, 0, 0)
  else
    let bwa := bwa &&& p.addressFilterBits
    (bwa, bwa ||| lanes.addrLowBigEndian, bwa ||| lanes.addrLowLittleEndian)

def replyRecord (r : Record) (replies : List Nat) : Record :=
  { flags := (r.flags &&& recordCyc) ||| (if r.has recordBca then recordWca else 0) |||
      (if r.has recordRff then recordWff else 0)
    select := r.select
    bwa := r.bra
    writes := replies
    bra := 0
    reads := [] }

def cycleEndRecord : Record := ⟨recordCyc, 0, 0, [], 0, []⟩

def execWritePart (p : Port) (bus : Bus σ) (s : Session σ) (r : Record) : Session σ :=
  let lanes := decodeSelect p r.select
  let (bwa, bwaB, bwaL) := baseAddresses p lanes (r.has recordWca) r.bwa
  execWrites p bus lanes (r.has recordWca) (r.has recordWff) bwa bwaB bwaL r.writes s

def execReadPart (p : Port) (bus : Bus σ) (s : Session σ) (r : Record) : Session σ × List Record :=
  if r.reads.isEmpty then (s, [])
  else
    let (s, replies) := execReads p bus (decodeSelect p r.select) (r.has recordRca) r.reads
      { s with cycleOpen := !r.has recordCyc }
    (s, [replyRecord r replies])

/-- One pass of the record loop: writes, then reads with their reply, then the end of a
reply cycle whose last record had nothing to read. -/
def execRecord (p : Port) (bus : Bus σ) (s : Session σ) (r : Record) : Session σ × List Record :=
  let (s, reply) := execReadPart p bus (execWritePart p bus s r) r
  (s, reply ++ if s.cycleOpen && r.has recordCyc then [cycleEndRecord] else [])

def execRecords (p : Port) (bus : Bus σ) : Session σ → List Record → Session σ × List Record
  | s, [] => (s, [])
  | s, r :: rs =>
    let (s, reply) := execRecord p bus s r
    let (s, replies) := execRecords p bus s rs
    (s, reply ++ replies)

theorem execRecords_append (p : Port) (bus : Bus σ) (s : Session σ) (first second : List Record) :
    execRecords p bus s (first ++ second) =
      ((execRecords p bus (execRecords p bus s first).1 second).1,
        (execRecords p bus s first).2 ++ (execRecords p bus (execRecords p bus s first).1 second).2) := by
  induction first generalizing s with
  | nil => rfl
  | cons r rs ih => simp only [List.cons_append, execRecords, ih, List.append_assoc]

end BelProject.Etherbone.Execute
