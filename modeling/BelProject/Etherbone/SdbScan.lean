import BelProject.Etherbone.Sdb

/-! A remote scan of the table. Three cycles follow each other: the root pointer from the
config space, the head of the table, the whole table. Each callback checks what its cycle
read and opens the next one; the last decodes the bytes into records for the user. -/

namespace BelProject.Etherbone.SdbScan
open BelProject.Library Width Execute Operations Sdb Requests

/-! ### Decoding -/

def decodeProduct (host : Host) (bytes : List UInt8) : SdbProduct :=
  { vendorId := UInt64.ofNat (fieldAt host bytes 0 8)
    deviceId := UInt32.ofNat (fieldAt host bytes 8 4)
    version := UInt32.ofNat (fieldAt host bytes 12 4)
    date := UInt32.ofNat (fieldAt host bytes 16 4)
    name := fun i => (bytes.drop 20).getD i 0
    recordType := bytes.getD 39 0 }

def decodeComponent (host : Host) (busBase : UInt64) (bytes : List UInt8) : SdbComponent :=
  { addrFirst := UInt64.ofNat (fieldAt host bytes 0 8) + busBase
    addrLast := UInt64.ofNat (fieldAt host bytes 8 8) + busBase
    product := decodeProduct host (bytes.drop 16) }

def decodeInterconnect (host : Host) (busBase : UInt64) (bytes : List UInt8) : SdbInterconnect :=
  { sdbMagic := UInt32.ofNat (fieldAt host bytes 0 4)
    sdbRecords := UInt16.ofNat (fieldAt host bytes 4 2)
    sdbVersion := bytes.getD 6 0
    sdbBusType := bytes.getD 7 0
    sdbComponent := decodeComponent host busBase (bytes.drop 8) }

def decodeDevice (host : Host) (busBase : UInt64) (bytes : List UInt8) : SdbDevice :=
  { abiClass := UInt16.ofNat (fieldAt host bytes 0 2)
    abiVerMajor := bytes.getD 2 0
    abiVerMinor := bytes.getD 3 0
    busSpecific := UInt32.ofNat (fieldAt host bytes 4 4)
    sdbComponent := decodeComponent host busBase (bytes.drop 8) }

/-- `union sdb_record` after the fix-up its type asks for. Empty and unknown records are
left as they came. -/
inductive SdbRecord where
  | device (device : SdbDevice)
  | bridge (bridge : SdbBridge)
  | integration (product : SdbProduct)
  | untouched (bytes : List UInt8)

def decodeRecord (host : Host) (busBase : UInt64) (bytes : List UInt8) : SdbRecord :=
  let recordType := bytes.getD 63 0
  if recordType = sdbRecordDevice then .device (decodeDevice host busBase bytes)
  else if recordType = sdbRecordBridge then
    .bridge ⟨UInt64.ofNat (fieldAt host bytes 0 8) + busBase, decodeComponent host busBase (bytes.drop 8)⟩
  else if recordType = sdbRecordIntegration then .integration (decodeProduct host (bytes.drop 24))
  else .untouched bytes

structure SdbTable where
  interconnect : SdbInterconnect
  record : List SdbRecord

/-- `eb_sdb_fill_block`, with the buffer cut at `ptr`: what is filled and what is left. -/
def ebSdbFillBlock (filled room : List UInt8) : List Operation → Int × List UInt8
  | [] => (0, filled ++ room)
  | op :: ops =>
    if op.error then (-1, filled ++ room)
    else if room.length < op.size then (1, filled ++ room)
    else ebSdbFillBlock (filled ++ BigEndian.encode op.size op.unValue) (room.drop op.size) ops

/-! ### The callbacks of the scan -/

inductive Phase where
  | headerPtr | header | all
  deriving DecidableEq

/-- What a callback does: open the next cycle, or call the user. -/
inductive Outcome where
  | cycle (phase : Phase) (ops : List Operation)
  | callback (sdb : Option SdbTable) (status : Status)

abbrev Stack := Nat → UInt8

def buffer (stack : Stack) (size : Nat) : List UInt8 := (List.range size).map stack

/-- `eb_sdb_decode` on a buffer of `size` bytes. -/
def ebSdbDecode (host : Host) (stack : Stack) (busBase : UInt64) (size : Nat) (ops : List Operation) : Outcome :=
  let (code, buf) := ebSdbFillBlock [] (buffer stack size) ops
  if code ≠ 0 then .callback none .fail
  else
    let interconnect := decodeInterconnect host busBase buf
    if 64 * interconnect.sdbRecords.toNat > size then .callback none .fail
    else .callback (some ⟨interconnect, (List.range (interconnect.sdbRecords.toNat - 1)).map fun i =>
      decodeRecord host busBase ((buf.drop (64 * (i + 1))).take 64)⟩) .ok

/-- The buffer `EB_SDB_DECODE(x)` puts on the stack. -/
def decodeSize (x : Nat) : Nat := 64 + 64 * x

/-- The reads of a loop `for (; address < end; address += stride)`. -/
def readLoop (p : Port) (cfgSpace : Bool) (address stop : Nat) : List Operation :=
  (List.range ((stop - address + p.stride - 1) / p.stride)).map fun i =>
    ⟨address + p.stride * i, 0, .readVal, cfgSpace, false, false, ebDataX⟩

def ebSdbGotAll (host : Host) (stack : Stack) (busBase : UInt64) (ops : List Operation) (status : Status) : Outcome :=
  if status ≠ .ok then .callback none status
  else
    let (code, header) := ebSdbFillBlock [] (buffer stack 64) ops
    if code ≠ 1 then .callback none .fail
    else
      let devices := (UInt16.ofNat (fieldAt host header 4 2) - 1).toNat
      if devices < 4 then ebSdbDecode host stack busBase (decodeSize 4) ops
      else if devices < 8 then ebSdbDecode host stack busBase (decodeSize 8) ops
      else if devices < 16 then ebSdbDecode host stack busBase (decodeSize 16) ops
      else if devices < 32 then ebSdbDecode host stack busBase (decodeSize 32) ops
      else if devices < 64 then ebSdbDecode host stack busBase (decodeSize 64) ops
      else if devices < 128 then ebSdbDecode host stack busBase (decodeSize 128) ops
      else if devices < 256 then ebSdbDecode host stack busBase (decodeSize 256) ops
      else .callback none .oom

/-- `eb_sdb_got_header`; `opened` is what `eb_cycle_open` returned. -/
def ebSdbGotHeader (p : Port) (host : Host) (stack : Stack) (opened : Status) (ops : List Operation)
    (status : Status) : Outcome :=
  if status ≠ .ok then .callback none status
  else
    let (code, header) := ebSdbFillBlock [] (buffer stack 64) ops
    if code ≠ 0 then .callback none .fail
    else if UInt32.ofNat (fieldAt host header 0 4) ≠ sdbMagic then .callback none .fail
    else if opened ≠ .ok then .callback none opened
    else
      let address := (ops.head?.map Operation.address).getD 0
      .cycle .all (readLoop p false address ((address + fieldAt host header 4 2 <<< 6) % p.wordMod))

/-- The address that the words of the root pointer make up. With a stride of eight there is
one word only, and it meets a zero. -/
def headerAddress (p : Port) : Nat → List Operation → Option Nat
  | address, [] => some address
  | address, op :: ops =>
    if op.error then none
    else headerAddress p (((address <<< (p.stride * 8)) + op.unValue) % p.wordMod) ops

def ebSdbGotHeaderPtr (p : Port) (opened : Status) (ops : List Operation) (status : Status) : Outcome :=
  if status ≠ .ok then .callback none status
  else
    match headerAddress p 0 ops with
    | none => .callback none .fail
    | some address =>
      if opened ≠ .ok then .callback none opened
      else .cycle .header (readLoop p false address ((address + 32) % p.wordMod))

/-- The cycle `eb_sdb_scan_root` closes. -/
def ebSdbScanRoot (p : Port) : List Operation := readLoop p true 8 16

/-! ### The socket at the other end -/

variable {σ : Type}

/-- What `eb_socket_read` and `eb_socket_write` find on the bus: an attached descriptor with
its two methods, either of which may be missing. -/
structure Handler (σ : Type) where
  device : SdbDevice
  read : Option (σ → Nat → UInt8 → Nat × Bool × σ)
  write : Option (σ → Nat → UInt8 → Nat → Bool × σ)

def Handler.covers (handler : Handler σ) (addrB : Nat) : Bool :=
  decide (handler.device.sdbComponent.addrFirst.toNat ≤ addrB) &&
    decide (addrB ≤ handler.device.sdbComponent.addrLast.toNat)

def Handler.littleEndian (handler : Handler σ) : Bool := handler.device.busSpecific &&& 0x80 != 0

/-- The local bus: the table below `0x4000`, the attached handlers above. -/
def socketBus (build : Build) (handlers : List (Handler σ)) (writeConfig : σ → UInt8 → Nat → Nat → σ) : Bus σ where
  read s widths addrB addrL :=
    if addrB < 0x4000 then (ebSdb build (handlers.map Handler.device) widths addrB, false, s)
    else
      match handlers.find? fun handler => handler.covers addrB with
      | none => (0, true, s)
      | some handler =>
        match handler.read with
        | none => (0, true, s)
        | some read => read s (if handler.littleEndian then addrL else addrB) widths
  write s widths addrB addrL value :=
    if addrB < 0x4000 then (true, s)
    else
      match handlers.find? fun handler => handler.covers addrB with
      | none => (true, s)
      | some handler =>
        match handler.write with
        | none => (true, s)
        | some write => write s (if handler.littleEndian then addrL else addrB) widths value
  writeConfig := writeConfig

def answer (p : Port) (bus : Bus σ) (s : Session σ) (op : Operation) : Session σ × Operation :=
  let (next, value) := perform bus s (operationRequest p op)
  (next, { op with unValue := value, error := !op.cfgSpace && next.error % 2 == 1 })

def answerAll (p : Port) (bus : Bus σ) : Session σ → List Operation → Session σ × List Operation
  | s, [] => (s, [])
  | s, op :: ops =>
    let (s, op) := answer p bus s op
    let (s, ops) := answerAll p bus s ops
    (s, op :: ops)

/-- A cycle of reads as the request and reply loop delivers it: flush settles the formats or
refuses the cycle, the other end answers, and the callback is due. -/
def deliver (p : Port) (bus : Bus σ) (s : Session σ) (ops : List Operation) : Session σ × List Operation × Status :=
  match checkOperations p ops with
  | .error (bad, reason) => (s, bad, reason)
  | .ok ops =>
    let (s, ops) := answerAll p bus s ops
    (s, ops, if ops.any Operation.error then .segfault else .ok)

/-- A scan on its way: the session of the other end, the cycle in flight, and the calls the
user got. -/
structure Scan (σ : Type) where
  session : Session σ
  pending : Option (Phase × List Operation)
  calls : List (Option SdbTable × Status)

def callback (p : Port) (host : Host) (stack : Stack) (phase : Phase) (ops : List Operation)
    (status : Status) : Outcome :=
  match phase with
  | .headerPtr => ebSdbGotHeaderPtr p .ok ops status
  | .header => ebSdbGotHeader p host stack .ok ops status
  | .all => ebSdbGotAll host stack 0 ops status

def step (p : Port) (host : Host) (stack : Stack) (bus : Bus σ) (scan : Scan σ) : Scan σ :=
  match scan.pending with
  | none => scan
  | some (phase, ops) =>
    let (session, ops, status) := deliver p bus scan.session ops
    match callback p host stack phase ops status with
    | .cycle phase ops => ⟨session, some (phase, ops), scan.calls⟩
    | .callback sdb status => ⟨session, none, scan.calls ++ [(sdb, status)]⟩

def start (p : Port) (session : Session σ) : Scan σ := ⟨session, some (.headerPtr, ebSdbScanRoot p), []⟩

/-! ### Decoding what was stored

Each lemma steps beyond one field, so an offset into a structure is used up field by field. -/

variable (host : Host)

theorem fieldAt_here {width value : Nat} (fits : value < 256 ^ width) (rest : List UInt8) :
    fieldAt host (field host width value ++ rest) 0 width = value :=
  fieldAt_field host [] rest fits

variable {width offset : Nat}

theorem drop_field (beyond : width ≤ offset) (value : Nat) (rest : List UInt8) :
    (field host width value ++ rest).drop offset = rest.drop (offset - width) := by
  rw [List.drop_append, length_field, List.drop_eq_nil_of_le (by rw [length_field]; exact beyond), List.nil_append]

theorem fieldAt_skip (beyond : width ≤ offset) (value next : Nat) (rest : List UInt8) :
    fieldAt host (field host width value ++ rest) offset next = fieldAt host rest (offset - width) next := by
  rw [fieldAt, drop_field host beyond, fieldAt]

theorem fieldAt_cons (byte : UInt8) (rest : List UInt8) (offset width : Nat) :
    fieldAt host (byte :: rest) (offset + 1) width = fieldAt host rest offset width := rfl

theorem getD_field (beyond : width ≤ offset) (value : Nat) (rest : List UInt8) :
    (field host width value ++ rest).getD offset 0 = rest.getD (offset - width) 0 := by
  rw [List.getD_append_right _ _ _ _ (by rw [length_field]; exact beyond), length_field]

theorem u64_lt (value : UInt64) : value.toNat < 256 ^ 8 := value.toNat_lt

theorem u32_lt (value : UInt32) : value.toNat < 256 ^ 4 := value.toNat_lt

theorem u16_lt (value : UInt16) : value.toNat < 256 ^ 2 := value.toNat_lt

theorem decodeProduct_image (product : SdbProduct) (after : List UInt8) :
    decodeProduct host (product.image host ++ after) = product := by
  obtain ⟨vendorId, deviceId, version, date, name, recordType⟩ := product
  have names : (fun i : Fin 19 => (List.ofFn name ++ (recordType :: after)).getD i 0) = name := by
    funext i
    rw [List.getD_append _ _ _ _ (by simp), List.getD_eq_getElem _ _ (by simp), List.getElem_ofFn]
  have type : (List.ofFn name ++ (recordType :: after)).getD 19 0 = recordType := by
    rw [List.getD_append_right _ _ _ _ (by simp), List.length_ofFn]
    rfl
  simp only [decodeProduct, SdbProduct.image, List.append_assoc, List.singleton_append]
  simp (disch := first | omega | decide) only [fieldAt_skip, drop_field, getD_field, Nat.reduceSub,
    List.drop_zero, names,
    type, fieldAt_here host (u64_lt _), fieldAt_here host (u32_lt _), UInt64.ofNat_toNat, UInt32.ofNat_toNat]

theorem decodeComponent_image (component : SdbComponent) (after : List UInt8) :
    decodeComponent host 0 (component.image host ++ after) = component := by
  simp only [decodeComponent, SdbComponent.image, List.append_assoc]
  simp (disch := omega) only [fieldAt_skip, drop_field, Nat.reduceSub, List.drop_zero, fieldAt_here host (u64_lt _),
    UInt64.ofNat_toNat, UInt64.add_zero, decodeProduct_image]

theorem decodeInterconnect_image (interconnect : SdbInterconnect) (after : List UInt8) :
    decodeInterconnect host 0 (interconnect.image host ++ after) = interconnect := by
  simp only [decodeInterconnect, SdbInterconnect.image, List.append_assoc, List.cons_append]
  simp (disch := omega) only [fieldAt_skip, drop_field, getD_field, Nat.reduceSub, List.drop_succ_cons, List.drop_zero,
    List.getD_cons_zero, List.getD_cons_succ, fieldAt_here host (u32_lt _), fieldAt_here host (u16_lt _),
    UInt32.ofNat_toNat, UInt16.ofNat_toNat, decodeComponent_image]

theorem decodeDevice_image (device : SdbDevice) : decodeDevice host 0 (device.image host) = device := by
  have component := decodeComponent_image host device.sdbComponent []
  rw [List.append_nil] at component
  simp only [decodeDevice, SdbDevice.image]
  simp (disch := omega) only [fieldAt_skip, drop_field, getD_field, Nat.reduceSub, List.drop_succ_cons, List.drop_zero,
    List.getD_cons_zero, List.getD_cons_succ, fieldAt_cons, fieldAt_here host (u32_lt _), fieldAt_here host (u16_lt _),
    UInt32.ofNat_toNat, UInt16.ofNat_toNat, component]

theorem recordType_image (device : SdbDevice) :
    (device.image host).getD 63 0 = device.sdbComponent.product.recordType := by
  simp only [SdbDevice.image, SdbComponent.image, SdbProduct.image]
  simp (disch := omega) only [getD_field, Nat.reduceSub, List.getD_cons_succ]
  rw [List.getD_append_right _ _ _ _ (by simp), List.length_ofFn]
  rfl

theorem decodeRecord_image (device : SdbDevice) :
    decodeRecord host 0 (device.forced.image host) = .device device.forced := by
  unfold decodeRecord
  rw [recordType_image, decodeDevice_image]
  rfl

/-! ### Filling a buffer -/

/-- Operations that came back without an error, all of one size, and the bytes they spell. -/
structure Spells (width : Nat) (ops : List Operation) (bytes : List UInt8) : Prop where
  error : ∀ op ∈ ops, op.error = false
  size : ∀ op ∈ ops, op.size = width
  bytes : ops.flatMap (fun op => BigEndian.encode width op.unValue) = bytes

variable {ops : List Operation}

theorem Spells.tail {width : Nat} {op : Operation} {bytes : List UInt8}
    (spells : Spells width (op :: ops) bytes) :
    ∃ rest, bytes = BigEndian.encode width op.unValue ++ rest ∧ Spells width ops rest := by
  refine ⟨ops.flatMap fun op => BigEndian.encode width op.unValue, ?_, ?_⟩
  · rw [← spells.bytes, List.flatMap_cons]
  · exact ⟨fun other member => spells.error other (List.mem_cons_of_mem _ member),
      fun other member => spells.size other (List.mem_cons_of_mem _ member), rfl⟩

theorem fillBlock_fits {width : Nat} {bytes : List UInt8} (spells : Spells width ops bytes)
    (filled room : List UInt8) (fits : bytes.length ≤ room.length) :
    ebSdbFillBlock filled room ops = (0, filled ++ (bytes ++ room.drop bytes.length)) := by
  induction ops generalizing filled room bytes with
  | nil =>
    have none : bytes = [] := by rw [← spells.bytes]; rfl
    rw [none, ebSdbFillBlock, List.length_nil, List.drop_zero, List.nil_append]
  | cons op ops ih =>
    obtain ⟨rest, rfl, tail⟩ := spells.tail
    have error := spells.error op List.mem_cons_self
    have size := spells.size op List.mem_cons_self
    rw [List.length_append, BigEndian.length_encode] at fits
    rw [ebSdbFillBlock, error, if_neg (by decide), size, if_neg (by omega),
      ih tail _ _ (by rw [List.length_drop]; omega), List.drop_drop, List.length_append, BigEndian.length_encode,
      List.append_assoc, List.append_assoc]

theorem fillBlock_full {width : Nat} {bytes : List UInt8} (spells : Spells width ops bytes)
    (filled room : List UInt8) (whole : width ∣ room.length) (small : room.length < bytes.length) :
    ebSdbFillBlock filled room ops = (1, filled ++ bytes.take room.length) := by
  induction ops generalizing filled room bytes with
  | nil =>
    have none : bytes = [] := by rw [← spells.bytes]; rfl
    rw [none] at small
    exact absurd small (Nat.not_lt_zero _)
  | cons op ops ih =>
    obtain ⟨rest, rfl, tail⟩ := spells.tail
    have error := spells.error op List.mem_cons_self
    have size := spells.size op List.mem_cons_self
    rw [List.length_append, BigEndian.length_encode] at small
    rw [ebSdbFillBlock, error, if_neg (by decide), size]
    by_cases beyond : room.length < width
    · have empty : room = [] := List.eq_nil_of_length_eq_zero (Nat.eq_zero_of_dvd_of_lt whole beyond)
      rw [if_pos beyond, empty, List.length_nil, List.take_zero]
    · have left : (room.drop width).length = room.length - width := List.length_drop
      have word : (BigEndian.encode width op.unValue).take room.length = BigEndian.encode width op.unValue :=
        List.take_of_length_le (by rw [BigEndian.length_encode]; omega)
      rw [if_neg beyond, ih tail _ _ (by rw [left]; exact Nat.dvd_sub whole (dvd_refl width)) (by omega), left,
        List.take_append, BigEndian.length_encode, word, List.append_assoc]

/-! ### Delivered cycles -/

def readOp (cfgSpace : Bool) (address : Nat) : Operation := ⟨address, 0, .readVal, cfgSpace, false, false, ebDataX⟩

def readBack (p : Port) (cfgSpace : Bool) (address value : Nat) : Operation :=
  ⟨address, value, .readVal, cfgSpace, false, false, UInt8.ofNat p.data⟩

variable (p : Port)

theorem readLoop_eq (cfgSpace : Bool) (address count : Nat) :
    readLoop p cfgSpace address (address + p.data * count) =
      (List.range count).map fun i => readOp cfgSpace (address + p.data * i) := by
  have positive := p.data_pos
  have times : (address + p.data * count - address + p.stride - 1) / p.stride = count := by
    rw [Port.stride, Nat.add_sub_cancel_left, Nat.add_sub_assoc positive, Nat.mul_add_div positive,
      Nat.div_eq_of_lt (by omega), Nat.add_zero]
  rw [readLoop, times]
  rfl

theorem readBack_size (cfgSpace : Bool) (address value : Nat) :
    (readBack p cfgSpace address value).size = p.data ∧ (readBack p cfgSpace address value).endian = 0 := by
  have all : ∀ data ∈ [1, 2, 4, 8], (UInt8.ofNat data &&& ebDataX).toNat = data ∧
    UInt8.ofNat data &&& ebEndianMask = 0 := by
    decide
  exact all p.data (by simpa [IsSize] using p.data_size)

theorem checkOperation_read (cfgSpace : Bool) (address : Nat) (aligned : p.data ∣ address)
    (bus : cfgSpace = false → address < 2 ^ (8 * p.addr)) (cfg : cfgSpace = true → address < 2 ^ 16) :
    checkOperation p (readOp cfgSpace address) = .ok (readBack p cfgSpace address 0) := by
  have all : ∀ data ∈ [1, 2, 4, 8], ebWidthRefine (ebDataX &&& UInt8.ofNat (data - 1 + data)) = UInt8.ofNat data ∧
      (UInt8.ofNat data).toNat = data ∧ UInt8.ofNat data ≠ 0 := by decide
  obtain ⟨refined, size, some⟩ := all p.data (by simpa [IsSize] using p.data_size)
  have kept : ∀ bits, p.data ∣ 2 ^ bits → address < 2 ^ bits → address &&& (2 ^ bits - 1 - (p.data - 1)) = address := by
    intro bits whole small
    obtain ⟨k, _, data⟩ := p.exists_data_pow
    rw [data] at aligned whole ⊢
    have ordered : k ≤ bits := (Nat.pow_dvd_pow_iff_le_right (by decide)).mp whole
    have positive := Nat.two_pow_pos k
    have mask : 2 ^ bits - 1 - (2 ^ k - 1) = 2 ^ bits - 2 ^ k := by omega
    rw [mask, Bits.and_mask_range address ordered, Nat.mod_eq_of_lt small, Nat.mod_eq_zero_of_dvd aligned, Nat.sub_zero]
  have onBus : ¬(cfgSpace = false ∧ address &&& (p.addressMask - (p.data - 1)) ≠ address) := by
    rintro ⟨plain, moved⟩
    rw [p.addressMask_eq] at moved
    exact moved (kept _ p.data_dvd_addr_space (bus plain))
  have inCfg : ¬(cfgSpace = true ∧ address &&& (0xffff - (p.data - 1)) ≠ address) := by
    rintro ⟨plain, moved⟩
    have whole : p.data ∣ 2 ^ 16 := by
      obtain ⟨k, small, data⟩ := p.exists_data_pow
      rw [data]
      exact Nat.pow_dvd_pow 2 (by omega)
    exact moved (kept 16 whole (cfg plain))
  simp only [checkOperation, readOp, refined, size, if_neg some, if_true]
  rw [if_neg (by simp; decide), if_neg onBus, if_neg inCfg, if_neg (by simp [Operation.isWrite]), UInt8.zero_or]
  rfl

theorem checkOperations_map (cfgSpace : Bool) (addresses : List Nat)
    (passes : ∀ address ∈ addresses, checkOperation p (readOp cfgSpace address) = .ok (readBack p cfgSpace address 0)) :
    checkOperations p (addresses.map (readOp cfgSpace)) =
      .ok (addresses.map fun address => readBack p cfgSpace address 0) := by
  induction addresses with
  | nil => rfl
  | cons address addresses ih =>
    rw [List.map_cons, checkOperations, passes address List.mem_cons_self,
      ih fun other member => passes other (List.mem_cons_of_mem _ member)]
    rfl

/-- The width a handler sees for a full-width access. -/
def fullWidth (p : Port) : UInt8 := UInt8.ofNat (p.addr * 16 + p.data)

theorem fullWidth_data : (fullWidth p &&& ebDataX).toNat = p.data := by
  have all : ∀ addr ∈ [1, 2, 4, 8], ∀ data ∈ [1, 2, 4, 8],
    (UInt8.ofNat (addr * 16 + data) &&& ebDataX).toNat = data := by
    decide
  exact all p.addr (by simpa [IsSize] using p.addr_size) p.data (by simpa [IsSize] using p.data_size)

theorem request_readBack (cfgSpace : Bool) (address : Nat) :
    operationRequest p (readBack p cfgSpace address 0) =
      if cfgSpace then .cfgRead (fullWidth p) address else .busRead (fullWidth p) address address := by
  obtain ⟨size, endian⟩ := readBack_size p cfgSpace address 0
  have big : bigAddress p (readBack p cfgSpace address 0) = address := by
    rw [bigAddress, endian, if_neg (by decide)]
    rfl
  have little : littleAddress p (readBack p cfgSpace address 0) = address := by
    rw [littleAddress, endian, if_neg (by decide)]
    rfl
  have read : (readBack p cfgSpace address 0).isWrite = false := rfl
  rw [operationRequest, size, big, little, read]
  rfl

theorem answerAll_map (bus : Bus σ) (cfgSpace : Bool) (value : Nat → Nat) (addresses : List Nat)
    (each : ∀ address ∈ addresses, ∀ s, (answer p bus s (readBack p cfgSpace address 0)).2 =
      readBack p cfgSpace address (value address)) (s : Session σ) :
    (answerAll p bus s (addresses.map fun address => readBack p cfgSpace address 0)).2 =
      addresses.map fun address => readBack p cfgSpace address (value address) := by
  induction addresses generalizing s with
  | nil => rfl
  | cons address addresses ih =>
    simp only [List.map_cons, answerAll]
    rw [each address List.mem_cons_self, ih fun other member => each other (List.mem_cons_of_mem _ member)]

theorem deliver_reads (bus : Bus σ) (cfgSpace : Bool) (value : Nat → Nat) (addresses : List Nat)
    (passes : ∀ address ∈ addresses, checkOperation p (readOp cfgSpace address) = .ok (readBack p cfgSpace address 0))
    (each : ∀ address ∈ addresses, ∀ s, (answer p bus s (readBack p cfgSpace address 0)).2 =
      readBack p cfgSpace address (value address)) (s : Session σ) :
    (deliver p bus s (addresses.map (readOp cfgSpace))).2 =
      (addresses.map fun address => readBack p cfgSpace address (value address), .ok) := by
  have clean : (addresses.map fun address => readBack p cfgSpace address (value address)).any
    Operation.error = false := by
    rw [List.any_eq_false]
    intro op member
    obtain ⟨address, _, rfl⟩ := List.mem_map.mp member
    exact Bool.false_ne_true
  rw [deliver, checkOperations_map p cfgSpace addresses passes]
  simp only
  rw [answerAll_map p bus cfgSpace value addresses each, clean]
  rfl

theorem answer_config (bus : Bus σ) (s : Session σ) {address : Nat} (outside : 8 ≤ address) :
    (answer p bus s (readBack p true address 0)).2 = readBack p true address 0 := by
  have value : ebSocketReadConfig (fullWidth p) address s.error = 0 := by rw [ebSocketReadConfig, if_pos outside]
  rw [answer, request_readBack, if_pos rfl]
  simp only [perform, value]
  rfl

theorem answer_table (build : Build) (handlers : List (Handler σ))
    (writeConfig : σ → UInt8 → Nat → Nat → σ) (s : Session σ) {address : Nat} (low : address < 0x4000) :
    (answer p (socketBus build handlers writeConfig) s (readBack p false address 0)).2 =
      readBack p false address (ebSdb build (handlers.map Handler.device) (fullWidth p) address) := by
  have performed : perform (socketBus build handlers writeConfig) s (.busRead (fullWidth p) address address) =
      (record (shifted s false) (.busRead (fullWidth p) address address)
        (ebSdb build (handlers.map Handler.device) (fullWidth p) address) false,
        ebSdb build (handlers.map Handler.device) (fullWidth p) address) := by
    simp only [perform, socketBus, if_pos low]
  have even : shiftError s.error false % 2 = 0 := by
    rw [shiftError, Bool.toNat_false, Nat.or_zero, Nat.shiftLeft_eq, Nat.mod_mod_of_dvd _ (by decide)]
    exact Nat.mul_mod_left _ _
  rw [answer, request_readBack, if_neg Bool.false_ne_true, performed]
  simp only [record, shifted, even]
  rfl

/-! ### The bytes a cycle brings back -/

theorem flatMap_windows (bytes : List UInt8) (width count : Nat) :
    (List.range count).flatMap (fun i => (bytes.drop (width * i)).take width) = bytes.take (width * count) := by
  induction count with
  | zero => rw [Nat.mul_zero, List.take_zero]; rfl
  | succ count ih =>
    rw [List.range_succ, List.flatMap_append, ih, List.flatMap_singleton, Nat.mul_succ, List.take_add]

def tableReads (p : Port) (build : Build) (devices : List SdbDevice) (count : Nat) : List Operation :=
  ((List.range count).map fun i => p.data * i).map fun address =>
    readBack p false address (ebSdb build devices (fullWidth p) address)

theorem tableReads_spells (build : Build) (devices : List SdbDevice) (count : Nat)
    (inside : p.data * count ≤ 64 * (devices.length + 1)) :
    Spells p.data (tableReads p build devices count) ((table build devices).take (p.data * count)) := by
  have positive := p.data_pos
  have word : ∀ i, i < count → BigEndian.encode p.data (ebSdb build devices (fullWidth p) (p.data * i)) =
      ((table build devices).drop (p.data * i)).take p.data := by
    intro i short
    have ends : p.data * i + p.data ≤ p.data * count := by
      rw [← Nat.mul_succ]
      exact Nat.mul_le_mul_left _ short
    have size := fullWidth_data p
    have read := ebSdb_word build devices (fullWidth p) (p.data * i) (by rw [size]; exact p.data_size)
      (by rw [size]; exact dvd_mul_right _ _) (by omega)
    have length : (((table build devices).drop (p.data * i)).take p.data).length = p.data := by
      rw [List.length_take, List.length_drop, length_table]
      omega
    have same := BigEndian.encode_decode (((table build devices).drop (p.data * i)).take p.data)
    rw [length] at same
    rw [read, size, same]
  refine ⟨?_, ?_, ?_⟩
  · intro op member
    obtain ⟨address, _, rfl⟩ := List.mem_map.mp member
    rfl
  · intro op member
    obtain ⟨address, _, rfl⟩ := List.mem_map.mp member
    exact (readBack_size p false address _).1
  · rw [tableReads, List.map_map, List.flatMap_map, ← flatMap_windows]
    apply List.flatMap_congr
    intro i member
    exact word i (List.mem_range.mp member)

theorem fieldAt_take {bytes : List UInt8} {length offset width : Nat} (inside : offset + width ≤ length)
    (long : length ≤ bytes.length) (rest : List UInt8) :
    fieldAt host (bytes.take length ++ rest) offset width = fieldAt host bytes offset width := by
  rw [fieldAt, fieldAt, List.drop_append_of_le_length (by rw [List.length_take]; omega), List.drop_take,
    List.take_append_of_le_length (by rw [List.length_take, List.length_drop]; omega), List.take_take,
    Nat.min_eq_left (by omega)]

theorem interconnect_image_host (host host' : Host) (interconnect : SdbInterconnect) :
    interconnect.image host = interconnect.image host' := by
  simp only [SdbInterconnect.image, SdbComponent.image, SdbProduct.image, field_eq]

theorem device_image_host (host host' : Host) (device : SdbDevice) : device.image host = device.image host' := by
  simp only [SdbDevice.image, SdbComponent.image, SdbProduct.image, field_eq]

theorem table_eq (build : Build) (devices : List SdbDevice) :
    table build devices = (interconnect build devices.length).image host ++
      (devices.map fun device => device.forced.image host).flatten := by
  have same : (fun device : SdbDevice => device.forced.image build.host) = fun device => device.forced.image host := by
    funext device
    exact device_image_host _ _ _
  rw [table, blocks, List.flatten_cons, interconnect_image_host build.host host, same]

theorem table_magic (build : Build) (devices : List SdbDevice) :
    UInt32.ofNat (fieldAt host (table build devices) 0 4) = sdbMagic := by
  rw [table_eq host, SdbInterconnect.image, List.append_assoc, fieldAt_here host (u32_lt _), UInt32.ofNat_toNat]
  rfl

theorem table_records (build : Build) (devices : List SdbDevice) (few : devices.length ≤ 255) :
    fieldAt host (table build devices) 4 2 = devices.length + 1 := by
  have fits : (UInt16.ofNat (devices.length + 1)).toNat = devices.length + 1 := by
    rw [UInt16.toNat_ofNat', Nat.mod_eq_of_lt (by omega)]
  rw [table_eq host, SdbInterconnect.image, List.append_assoc, List.append_assoc, fieldAt_skip host (by omega),
    Nat.sub_self, fieldAt_here host (u16_lt _)]
  exact fits

def described (build : Build) (devices : List SdbDevice) : SdbTable :=
  ⟨interconnect build devices.length, devices.map fun device => .device device.forced⟩

theorem length_buffer (stack : Stack) (size : Nat) : (buffer stack size).length = size := by
  rw [buffer, List.length_map, List.length_range]

theorem ebSdbDecode_table (stack : Stack) (build : Build) (devices : List SdbDevice) {width size : Nat}
    (spells : Spells width ops (table build devices)) (few : devices.length ≤ 255)
    (room : 64 * (devices.length + 1) ≤ size) :
    ebSdbDecode host stack 0 size ops = .callback (some (described build devices)) .ok := by
  have length := length_table build devices
  have filled := fillBlock_fits spells [] (buffer stack size) (by rw [length_buffer, length]; exact room)
  rw [List.nil_append] at filled
  have header : decodeInterconnect host 0 (table build devices ++ (buffer stack size).drop
    (table build devices).length) =
      interconnect build devices.length := by
    rw [table_eq host, List.append_assoc, decodeInterconnect_image]
  have records : (interconnect build devices.length).sdbRecords.toNat = devices.length + 1 := by
    rw [interconnect, UInt16.toNat_ofNat', Nat.mod_eq_of_lt (by omega)]
  have each : ∀ rest, (List.range devices.length).map (fun i =>
      decodeRecord host 0 (((table build devices ++ rest).drop (64 * (i + 1))).take 64)) =
        devices.map fun device => SdbRecord.device device.forced := by
    intro rest
    apply List.ext_getElem
    · rw [List.length_map, List.length_map, List.length_range]
    intro i _ short
    rw [List.length_map] at short
    have found : (blocks build devices)[i + 1]? = some (devices[i].forced.image build.host) := by
      rw [blocks, List.getElem?_cons_succ, List.getElem?_map, List.getElem?_eq_getElem short]
      rfl
    have window := window_flatten (blocks_even build devices) found 0 64 (by omega)
    have block : ((table build devices ++ rest).drop (64 * (i + 1))).take 64 = devices[i].forced.image host := by
      rw [List.drop_append_of_le_length (by omega), List.take_append_of_le_length (by rw [List.length_drop]; omega)]
      have whole : (devices[i].forced.image build.host).take 64 = devices[i].forced.image build.host :=
        List.take_of_length_le (by rw [SdbDevice.length_image])
      rw [Nat.add_zero, List.drop_zero, whole] at window
      rw [table, window, device_image_host build.host host]
    rw [List.getElem_map, List.getElem_map, List.getElem_range, block, decodeRecord_image]
  unfold ebSdbDecode
  rw [filled]
  simp only [header, records]
  rw [if_neg (by decide), if_neg (by omega), Nat.add_sub_cancel, each]
  rfl

/-! ### The three cycles -/

theorem headerAddress_zero (ops : List Operation) (zero : ∀ op ∈ ops, op.error = false ∧ op.unValue = 0) :
    headerAddress p 0 ops = some 0 := by
  induction ops with
  | nil => rfl
  | cons op ops ih =>
    obtain ⟨error, value⟩ := zero op List.mem_cons_self
    rw [headerAddress, error, if_neg Bool.false_ne_true, value, Nat.zero_shiftLeft, Nat.add_zero, Nat.zero_mod]
    exact ih fun other member => zero other (List.mem_cons_of_mem _ member)

section
variable (p : Port) (host : Host) (stack : Stack) (build : Build) (handlers : List (Handler σ))
  (writeConfig : σ → UInt8 → Nat → Nat → σ)

/-- The words of the table between `0` and `stop`. -/
def tableLoop (count : Nat) : List Operation := readLoop p false 0 (p.data * count)

theorem wordMod_large : 2 ^ 16 ≤ p.wordMod := by
  rw [Port.wordMod]
  apply Nat.pow_le_pow_right (by decide)
  rcases p.word_size with h | h | h <;> omega

theorem data_mul_div {bytes : Nat} (whole : 8 ∣ bytes) : p.data * (bytes / p.data) = bytes := by
  have divides : p.data ∣ 8 := by rcases p.data_size with h | h | h | h <;> rw [h] <;> decide
  exact Nat.mul_div_cancel' (dvd_trans divides whole)

theorem deliver_root (bus : Bus σ) (s : Session σ) :
    ∃ ops, (deliver p bus s (ebSdbScanRoot p)).2 = (ops, .ok) ∧ headerAddress p 0 ops = some 0 := by
  have reads : ebSdbScanRoot p = ((List.range (8 / p.data)).map fun i => 8 + p.data * i).map (readOp true) := by
    have loop := readLoop_eq p true 8 (8 / p.data)
    rw [data_mul_div p (dvd_refl 8)] at loop
    rw [ebSdbScanRoot, loop, List.map_map]
    rfl
  have place : ∀ address ∈ (List.range (8 / p.data)).map (fun i => 8 + p.data * i),
      8 ≤ address ∧ address < 16 ∧ p.data ∣ address := by
    intro address member
    obtain ⟨i, short, rfl⟩ := List.mem_map.mp member
    have ends : p.data * (i + 1) ≤ p.data * (8 / p.data) := Nat.mul_le_mul_left _ (List.mem_range.mp short)
    rw [data_mul_div p (dvd_refl 8), Nat.mul_succ] at ends
    have positive := p.data_pos
    refine ⟨by omega, by omega, ?_⟩
    apply Nat.dvd_add _ (dvd_mul_right _ _)
    rcases p.data_size with h | h | h | h <;> rw [h] <;> decide
  have delivered := deliver_reads p bus true (fun _ => 0) _ (fun address member =>
    checkOperation_read p true address (place address member).2.2
      (by simp) fun _ => by have := (place address member).2.1; omega)
    (fun address member s => answer_config p bus s (place address member).1) s
  refine ⟨_, by rw [reads]; exact delivered, ?_⟩
  apply headerAddress_zero
  intro op member
  obtain ⟨address, _, rfl⟩ := List.mem_map.mp member
  exact ⟨rfl, rfl⟩

theorem deliver_table (s : Session σ) (count : Nat) (low : p.data * count ≤ 0x4000)
    (reach : p.data * count ≤ 2 ^ (8 * p.addr)) :
    (deliver p (socketBus build handlers writeConfig) s (tableLoop p count)).2 =
      (tableReads p build (handlers.map Handler.device) count, .ok) := by
  have reads : tableLoop p count = ((List.range count).map fun i => p.data * i).map (readOp false) := by
    have loop := readLoop_eq p false 0 count
    rw [Nat.zero_add] at loop
    rw [tableLoop, loop, List.map_map]
    apply List.map_congr_left
    intro i _
    rw [Nat.zero_add]
    rfl
  have place : ∀ address ∈ (List.range count).map (fun i => p.data * i), address < p.data * count ∧
    p.data ∣ address := by
    intro address member
    obtain ⟨i, short, rfl⟩ := List.mem_map.mp member
    exact ⟨Nat.mul_lt_mul_of_pos_left (List.mem_range.mp short) p.data_pos, dvd_mul_right _ _⟩
  rw [reads, deliver_reads p _ false (fun address => ebSdb build (handlers.map Handler.device) (fullWidth p) address)]
  · rfl
  · intro address member
    obtain ⟨short, aligned⟩ := place address member
    exact checkOperation_read p false address aligned (fun _ => by omega) (by simp)
  · intro address member s
    have short := (place address member).1
    exact answer_table p build handlers writeConfig s (by omega)

theorem gotHeaderPtr_opens (address : headerAddress p 0 ops = some 0) :
    ebSdbGotHeaderPtr p .ok ops .ok = .cycle .header (tableLoop p (32 / p.data)) := by
  have large := wordMod_large p
  unfold ebSdbGotHeaderPtr
  rw [address, tableLoop, data_mul_div p (by decide)]
  simp only [ne_eq, not_true_eq_false, if_false]
  rw [Nat.zero_add, Nat.mod_eq_of_lt (by omega)]

theorem gotHeader_opens (devices : List SdbDevice) (few : devices.length ≤ 255) :
    ebSdbGotHeader p host stack .ok (tableReads p build devices (32 / p.data)) .ok =
      .cycle .all (tableLoop p (64 * (devices.length + 1) / p.data)) := by
  have large := wordMod_large p
  have bytes : p.data * (32 / p.data) = 32 := data_mul_div p (by decide)
  have length := length_table build devices
  have spells := tableReads_spells p build devices (32 / p.data) (by omega)
  rw [bytes] at spells
  have filled := fillBlock_fits spells [] (buffer stack 64) (by rw [length_buffer, List.length_take]; omega)
  rw [List.nil_append] at filled
  have first : ((tableReads p build devices (32 / p.data)).head?.map Operation.address).getD 0 = 0 := by
    have words : 0 < 32 / p.data := Nat.div_pos (by have := p.data_le_eight; omega) p.data_pos
    obtain ⟨count, count_eq⟩ := Nat.exists_eq_succ_of_ne_zero words.ne'
    rw [count_eq, tableReads, List.range_succ_eq_map]
    rfl
  have shifted : (devices.length + 1) <<< 6 = 64 * (devices.length + 1) := by rw [Nat.shiftLeft_eq]; ring
  unfold ebSdbGotHeader
  rw [filled]
  simp only [ne_eq, not_true_eq_false, if_false, first]
  rw [fieldAt_take host (by omega) (by omega), fieldAt_take host (by omega) (by omega), table_magic, if_neg (by simp),
    table_records host build devices few, shifted, Nat.zero_add, Nat.mod_eq_of_lt (by omega), tableLoop,
    data_mul_div p (dvd_mul_of_dvd_left (by decide) _)]

theorem gotAll_calls (devices : List SdbDevice) (attached : 1 ≤ devices.length) (few : devices.length ≤ 255) :
    ebSdbGotAll host stack 0 (tableReads p build devices (64 * (devices.length + 1) / p.data)) .ok =
      .callback (some (described build devices)) .ok := by
  have bytes : p.data * (64 * (devices.length + 1) / p.data) = 64 * (devices.length + 1) :=
    data_mul_div p (dvd_mul_of_dvd_left (by decide) _)
  have length := length_table build devices
  have spells := tableReads_spells p build devices (64 * (devices.length + 1) / p.data) (by omega)
  rw [bytes, List.take_of_length_le (by omega)] at spells
  have divides : p.data ∣ 64 := by rcases p.data_size with h | h | h | h <;> rw [h] <;> decide
  have filled := fillBlock_full spells [] (buffer stack 64) (by rw [length_buffer]; exact divides)
    (by rw [length_buffer]; omega)
  rw [List.nil_append, length_buffer, ← List.append_nil (List.take _ _)] at filled
  have count : (UInt16.ofNat (devices.length + 1) - 1).toNat = devices.length := by
    rw [UInt16.toNat_sub_of_le, UInt16.toNat_ofNat', Nat.mod_eq_of_lt (by omega)]
    · rfl
    · rw [UInt16.le_iff_toNat_le, UInt16.toNat_ofNat', Nat.mod_eq_of_lt (by omega)]
      exact Nat.le_add_left 1 _
  have decoded : ∀ x, devices.length < x → ebSdbDecode host stack 0 (decodeSize x)
      (tableReads p build devices (64 * (devices.length + 1) / p.data)) = .callback
      (some (described build devices)) .ok := by
    intro x short
    exact ebSdbDecode_table host stack build devices spells few (by rw [decodeSize]; omega)
  unfold ebSdbGotAll
  rw [filled]
  simp only [ne_eq, not_true_eq_false, if_false]
  rw [fieldAt_take host (by omega) (by omega), table_records host build devices few, count]
  split_ifs with four eight sixteen thirtyTwo sixtyFour oneTwentyEight rest
  all_goals first
    | exact decoded _ (by assumption)
    | omega

theorem step_cycle (phase : Phase) {bus : Bus σ} {session : Session σ} {phase' : Phase}
    {ops ops' next : List Operation} {status : Status} (delivered : (deliver p bus session ops).2 = (ops', status))
    (called : callback p host stack phase ops' status = .cycle phase' next) :
    ∃ last, step p host stack bus ⟨session, some (phase, ops), []⟩ = ⟨last, some (phase', next), []⟩ := by
  obtain ⟨same, rfl⟩ := Prod.mk.inj delivered
  rw [← same] at called
  exact ⟨(deliver p bus session ops).1, by simp only [step, called]⟩

theorem step_callback (phase : Phase) {bus : Bus σ} {session : Session σ}
    {ops ops' : List Operation} {status status' : Status} {sdb : Option SdbTable}
    (delivered : (deliver p bus session ops).2 = (ops', status))
    (called : callback p host stack phase ops' status = .callback sdb status') :
    ∃ last, step p host stack bus ⟨session, some (phase, ops), []⟩ = ⟨last, none, [(sdb, status')]⟩ := by
  obtain ⟨same, rfl⟩ := Prod.mk.inj delivered
  rw [← same] at called
  exact ⟨(deliver p bus session ops).1, by simp only [step, called, List.nil_append]⟩

theorem iterate_done {bus : Bus σ} {scan : Scan σ} (done : scan.pending = none) (k : Nat) :
    (step p host stack bus)^[k] scan = scan := by
  apply Function.iterate_fixed
  rw [step, done]

/-- The scan of a socket with attached handlers ends with one call, and the table in it lists
the descriptors in order, whatever the width of the port and the byte order of either end. -/
theorem scan_described (session : Session σ) (attached : 1 ≤ handlers.length) (few : handlers.length ≤ 255)
    (reach : 64 * (handlers.length + 1) ≤ 2 ^ (8 * p.addr)) :
    ∃ last, ∀ k, 3 ≤ k → (step p host stack (socketBus build handlers writeConfig))^[k] (start p session) =
      ⟨last, none, [(some (described build (handlers.map Handler.device)), .ok)]⟩ := by
  have length : (handlers.map Handler.device).length = handlers.length := List.length_map _
  have header : p.data * (32 / p.data) = 32 := data_mul_div p (by decide)
  have whole : p.data * (64 * ((handlers.map Handler.device).length + 1) / p.data) = 64 * (handlers.length + 1) := by
    rw [data_mul_div p (dvd_mul_of_dvd_left (by decide) _), length]
  obtain ⟨ops, root, address⟩ := deliver_root p (socketBus build handlers writeConfig) session
  obtain ⟨second, first⟩ := step_cycle p host stack .headerPtr root (gotHeaderPtr_opens p address)
  obtain ⟨third, next⟩ := step_cycle p host stack .header
    (deliver_table p build handlers writeConfig second (32 / p.data) (by omega) (by omega))
    (gotHeader_opens p host stack build (handlers.map Handler.device) (by omega))
  obtain ⟨last, ended⟩ := step_callback p host stack .all
    (deliver_table p build handlers writeConfig third (64 * ((handlers.map Handler.device).length + 1) / p.data)
      (by omega) (by omega))
    (gotAll_calls p host stack build (handlers.map Handler.device) (by omega) (by omega))
  refine ⟨last, ?_⟩
  intro k enough
  obtain ⟨more, rfl⟩ := Nat.exists_eq_add_of_le' enough
  rw [Function.iterate_add_apply, Function.iterate_succ_apply, Function.iterate_succ_apply, Function.iterate_succ_apply,
    Function.iterate_zero_apply, start, first, next, ended]
  exact iterate_done p host stack rfl more

end

/-- The memory the loopback test attaches. -/
def softwareMemory (build : Build) : SdbDevice :=
  { abiClass := 1
    abiVerMajor := 1
    abiVerMinor := 0
    busSpecific := 0x0f
    sdbComponent :=
      { addrFirst := 0x4000
        addrLast := addressEnd build
        product :=
          { vendorId := 0x651
            deviceId := 0xb576c7f1
            version := build.version
            date := build.date
            name := fun i => [83, 111, 102, 116, 119, 97, 114, 101, 45, 77, 101, 109, 111, 114, 121,
              32, 32, 32, 32].getD i 0
            recordType := sdbRecordDevice } } }

def loopback : Build := ⟨.big, 8, 0x01020000, 0x20120501⟩

def register : SdbDevice :=
  { softwareMemory loopback with
    abiVerMinor := 2
    sdbComponent := { (softwareMemory loopback).sdbComponent with addrFirst := 0x1000, addrLast := 0x1007 } }

/-- The records come in the order of the list. -/
theorem scan_described_loopback :
    ∃ last : Session Unit, ∀ k, 3 ≤ k → (step .wishbone32 .little (fun _ => 0xa5)
      (socketBus loopback [⟨register, none, none⟩, ⟨softwareMemory loopback, none, none⟩] (fun s _ _ _ => s)))^[k]
        (start .wishbone32 ⟨(), 0, false, []⟩) =
      ⟨last, none, [(some (described loopback [register, softwareMemory loopback]), .ok)]⟩ :=
  scan_described .wishbone32 .little (fun _ => 0xa5) loopback
    [⟨register, none, none⟩, ⟨softwareMemory loopback, none, none⟩] (fun s _ _ _ => s) ⟨(), 0, false, []⟩
    (by decide) (by decide) (by decide)

end BelProject.Etherbone.SdbScan
