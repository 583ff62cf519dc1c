import BelProject.Etherbone.Execute
import BelProject.Etherbone.Format

/-! Byte lanes at both ends of a link. The master turns format and low address bits of an
operation into a byte-enable, the slave turns the byte-enable back into an access width,
a shift and the two byte addresses; together they say which request an operation is. -/

namespace BelProject.Etherbone.Requests
open BelProject.Library Width Operations Wire Format Execute

section
variable (p : Port)

/-- The address of the same bytes counted from the other end of the word. -/
def mirror (op : Operation) : Nat :=
  op.address - op.address % p.data + (p.data - (op.address % p.data + op.size))

def bigAddress (op : Operation) : Nat := if op.endian = ebLittleEndian then mirror p op else op.address

def littleAddress (op : Operation) : Nat := if op.endian = ebBigEndian then mirror p op else op.address

/-- What a cycle asks of the remote end: its operations, and the status words flush adds. -/
inductive Item where
  | operation (op : Operation)
  | status
  deriving DecidableEq

def Item.operation? : Item → Option Operation
  | .operation op => some op
  | .status => none

/-- The request an operation stands for. Config space is always big endian. -/
def operationRequest (op : Operation) : Request :=
  let width := UInt8.ofNat (p.addr * 16 + op.size)
  if op.isWrite then
    if op.cfgSpace then .cfgWrite width op.address op.unValue
    else .busWrite width (bigAddress p op) (littleAddress p op) op.unValue
  else
    if op.cfgSpace then .cfgRead width (bigAddress p op)
    else .busRead width (bigAddress p op) (littleAddress p op)

def Item.request : Item → Request
  | .operation op => operationRequest p op
  | .status => .cfgRead (UInt8.ofNat (p.addr * 16 + p.data)) (8 - p.data)

/-- Everything the two ends compute from a byte-enable, on the lanes of one word. -/
def laneCheck (data size low : Nat) (endian : UInt8) : Bool :=
  let format := endian ||| UInt8.ofNat size
  let sent := if format &&& ebEndianMask = ebBigEndian then data - (low + (format &&& ebDataX).toNat) else low
  let select := UInt8.ofNat ((0xff >>> (8 - (format &&& ebDataX).toNat)) <<< sent)
  let opShift := ebLog2 (select &&& (0 - select))
  let bits := select >>> opShift
  let opWidths := ebLog2 ((bits >>> 1) + 1)
  let opWidth := opWidths + 1
  opShift.toNat == sent && opWidth.toNat == size && select != 0 && bits &&& (bits + 1) == 0 &&
    opWidth &&& opWidths == 0 && opShift &&& opWidths == 0 && decide (sent + size ≤ data) &&
    (UInt8.ofNat data - (opShift + opWidth)).toNat == data - (sent + size)

theorem laneCheck_all (data size low : Nat) (endian : UInt8) (isData : IsSize data) (isSize : IsSize size)
    (aligned : size ∣ low) (inside : low + size ≤ data)
    (known : endian = 0 ∨ endian = ebBigEndian ∨ endian = ebLittleEndian) : laneCheck data size low endian = true := by
  have below : low < 8 := by
    rcases isData with h | h | h | h <;> rcases isSize with h' | h' | h' | h' <;> omega
  have finite : ∀ data ∈ [1, 2, 4, 8], ∀ size ∈ [1, 2, 4, 8], ∀ low < 8, ∀ endian ∈ [(0 : UInt8), 0x10, 0x20],
      size ∣ low → low + size ≤ data → laneCheck data size low endian = true := by decide +kernel
  apply finite data _ size _ low below endian _ aligned inside
  · simpa [IsSize] using isData
  · simpa [IsSize] using isSize
  · simpa using known

variable {p}

variable {op : Operation}

theorem endian_known (accepted : Accepted p op) :
    op.endian = 0 ∨ op.endian = ebBigEndian ∨ op.endian = ebLittleEndian := by
  by_cases full : op.size = p.data
  · exact Or.inl (accepted.endian_full full)
  · exact Or.inr (accepted.endian_sub full)

theorem lane_inside (accepted : Accepted p op) :
    op.size ∣ op.address % p.data ∧ op.address % p.data + op.size ≤ p.data := by
  have sizes : op.size ∣ p.data := by
    obtain ⟨k, _, size⟩ := accepted.size_isSize.exists_pow
    obtain ⟨n, _, data⟩ := p.exists_data_pow
    have le := accepted.size_le
    rw [size, data] at le ⊢
    exact Nat.pow_dvd_pow 2 ((Nat.pow_le_pow_iff_right (by decide)).mp le)
  have dvd : op.size ∣ op.address % p.data := (Nat.dvd_mod_iff sizes).mpr accepted.aligned
  refine ⟨dvd, ?_⟩
  have below := Nat.mod_lt op.address p.data_pos
  obtain ⟨k, low⟩ := dvd
  obtain ⟨n, data⟩ := sizes
  rw [low, data] at below ⊢
  have fewer : k < n := Nat.lt_of_mul_lt_mul_left below
  calc op.size * k + op.size = op.size * (k + 1) := by ring
    _ ≤ op.size * n := Nat.mul_le_mul_left _ fewer

structure Decoded (p : Port) (op : Operation) (lanes : Lanes) (shift : Nat) : Prop where
  selOk : lanes.selOk = true
  width : lanes.opWidth = op.size
  shift_eq : lanes.opShift = shift
  shift_le : shift + op.size ≤ p.data
  big_lt : lanes.addrLowBigEndian < p.data
  little_lt : lanes.addrLowLittleEndian < p.data
  big : op.address - op.address % p.data + lanes.addrLowBigEndian = bigAddress p op
  little : op.address - op.address % p.data + lanes.addrLowLittleEndian = littleAddress p op
  mask : lanes.dataMask = 2 ^ (8 * op.size) - 1

theorem decoded_of_accepted (accepted : Accepted p op) :
    Decoded p op (decodeSelect p (byteEnable p op.format (op.address % p.data)))
      (opShift p op.format (op.address % p.data)) := by
  have known := endian_known accepted
  obtain ⟨aligned, inside⟩ := lane_inside accepted
  have size := accepted.size_isSize
  have checked := laneCheck_all p.data op.size (op.address % p.data) op.endian p.data_size size aligned inside known
  have format := accepted.format_eq
  have positive : 0 < op.size := by rcases size with h | h | h | h <;> omega
  have small : op.size ≤ p.data := accepted.size_le
  have sizeBits : (op.format &&& ebDataX).toNat = op.size := rfl
  have endianBits : op.format &&& ebEndianMask = op.endian := rfl
  simp only [laneCheck, ← format, sizeBits, endianBits, Bool.and_eq_true, beq_iff_eq, bne_iff_ne,
    decide_eq_true_eq] at checked
  obtain ⟨⟨⟨⟨⟨⟨⟨shift, width⟩, nonzero⟩, unbroken⟩, power⟩, lane⟩, within⟩, low⟩ := checked
  have sent : opShift p op.format (op.address % p.data) =
      if op.endian = ebBigEndian then p.data - (op.address % p.data + op.size) else op.address % p.data := rfl
  rw [← sent] at shift width nonzero unbroken power lane within low
  have lowBits := Nat.mod_lt op.address p.data_pos
  have positions : p.data - (opShift p op.format (op.address % p.data) + op.size) =
      (if op.endian = ebLittleEndian then p.data - (op.address % p.data + op.size) else op.address % p.data) := by
    rw [sent]
    rcases known with none | big | little
    · have full : op.size = p.data := by
        by_contra sub
        have := accepted.endian_sub sub
        rw [none] at this
        revert this
        decide
      rw [none, if_neg (by decide), if_neg (by decide)]
      omega
    · rw [big, if_pos rfl, if_neg (by decide)]
      omega
    · rw [little, if_neg (by decide), if_pos rfl]
  have bigEq : (decodeSelect p (byteEnable p op.format (op.address % p.data))).addrLowBigEndian =
      p.data - (opShift p op.format (op.address % p.data) + op.size) := low
  have littleEq : (decodeSelect p (byteEnable p op.format (op.address % p.data))).addrLowLittleEndian =
      opShift p op.format (op.address % p.data) := shift
  have masked : (decodeSelect p (byteEnable p op.format (op.address % p.data))).dataMask = p.dataMask op.size :=
    congrArg p.dataMask width
  have reduced := Nat.mod_le op.address p.data
  refine ⟨?_, width, shift, within, ?_, ?_, ?_, ?_, ?_⟩
  · simp only [decodeSelect, byteEnable, sizeBits, Bool.and_eq_true, beq_iff_eq, bne_iff_ne, decide_eq_true_eq]
    refine ⟨⟨⟨⟨⟨nonzero, unbroken⟩, power⟩, lane⟩, ?_⟩, ?_⟩
    · rw [width]
      exact small
    · rw [shift]
      omega
  · rw [bigEq]
    omega
  · rw [littleEq]
    omega
  · rw [bigEq, positions, bigAddress, mirror]
    split <;> omega
  · rw [littleEq, sent, littleAddress, mirror]
    split <;> omega
  · rw [masked, p.dataMask_eq (small.trans p.data_le)]

theorem nextAddress_lane (fifo : Bool) (address lane : Nat) (short : lane < p.data) :
    nextAddress p fifo (address - address % p.data + lane) =
      advance p fifo address - advance p fifo address % p.data + lane := by
  cases fifo with
  | true => rfl
  | false =>
    have split : ∀ base low, p.data ∣ base → low < p.data → (base + low) % p.wordMod = base % p.wordMod + low := by
      intro base low dvd short
      obtain ⟨k, rfl⟩ := dvd
      obtain ⟨n, mod⟩ := p.data_dvd_wordMod
      rw [mod, Nat.mul_mod_mul_left, Nat.mod_mul, Nat.mul_add_mod, Nat.mod_eq_of_lt short,
        Nat.mul_add_div p.data_pos, Nat.div_eq_of_lt short, Nat.add_zero, Nat.add_comm]
    have lowBits := Nat.mod_lt address p.data_pos
    have reduced := Nat.mod_le address p.data
    have aligned : p.data ∣ address - address % p.data + p.data :=
      Nat.dvd_add (Nat.dvd_sub_mod address) (dvd_refl p.data)
    have walked := split (address - address % p.data + p.data) lane aligned short
    have went := split (address - address % p.data + p.data) (address % p.data) aligned lowBits
    rw [show address - address % p.data + p.data + address % p.data = address + p.data by omega] at went
    rw [advance_mod_data]
    show (address - address % p.data + lane + p.data) % p.wordMod = (address + p.data) % p.wordMod - address % p.data + lane
    rw [went, Nat.add_sub_cancel, show address - address % p.data + lane + p.data =
      address - address % p.data + p.data + lane by omega]
    exact walked

theorem lane_value {lanes : Lanes} {shift : Nat} (decoded : Decoded p op lanes shift) {value : Nat}
    (small : value < 2 ^ (8 * op.size)) :
    (((value <<< (shift <<< 3)) % p.wordMod) >>> (lanes.opShift <<< 3)) &&& lanes.dataMask = value := by
  have fits : value <<< (shift <<< 3) < p.wordMod := by
    have bits : shift <<< 3 + 8 * op.size ≤ 8 * p.word := by
      have := decoded.shift_le
      have := p.data_le
      rw [Nat.shiftLeft_eq]
      omega
    calc value <<< (shift <<< 3) = value * 2 ^ (shift <<< 3) := Nat.shiftLeft_eq _ _
      _ < 2 ^ (8 * op.size) * 2 ^ (shift <<< 3) := Nat.mul_lt_mul_of_pos_right small (Nat.two_pow_pos _)
      _ = 2 ^ (shift <<< 3 + 8 * op.size) := by rw [← pow_add, Nat.add_comm]
      _ ≤ p.wordMod := Nat.pow_le_pow_right (by decide) bits
  rw [Nat.mod_eq_of_lt fits, decoded.shift_eq, Nat.shiftLeft_shiftRight, decoded.mask,
    Nat.and_two_pow_sub_one_eq_mod, Nat.mod_eq_of_lt small]

theorem writeRequest_operation {lanes : Lanes} {shift : Nat} (accepted : Accepted p op)
    (isWrite : op.isWrite = true) (decoded : Decoded p op lanes shift) (bwa bwaB bwaL : Nat)
    (cfg : op.cfgSpace = true → bwa = op.address)
    (bus : op.cfgSpace = false → bwaB = op.address - op.address % p.data + lanes.addrLowBigEndian ∧
      bwaL = op.address - op.address % p.data + lanes.addrLowLittleEndian) :
    writeRequest p lanes op.cfgSpace bwa bwaB bwaL ((op.unValue <<< (shift <<< 3)) % p.wordMod) =
      operationRequest p op := by
  have value := lane_value decoded (accepted.value_lt isWrite)
  have width : lanes.accessWidth p = UInt8.ofNat (p.addr * 16 + op.size) := by rw [Lanes.accessWidth, decoded.width]
  simp only [writeRequest, operationRequest, value, width, isWrite, decoded.selOk, if_true]
  cases space : op.cfgSpace with
  | true => simp only [if_true, cfg space]
  | false =>
    obtain ⟨big, little⟩ := bus space
    simp only [Bool.false_eq_true, if_false, big, little, decoded.big, decoded.little]

theorem readRequest_operation {lanes : Lanes} {shift : Nat} (isRead : op.isWrite = false)
    (decoded : Decoded p op lanes shift) (reach : op.address < 2 ^ (8 * p.addr)) :
    readRequest p lanes op.cfgSpace op.address = operationRequest p op := by
  have width : lanes.accessWidth p = UInt8.ofNat (p.addr * 16 + op.size) := by rw [Lanes.accessWidth, decoded.width]
  have joined : ∀ lane, lane < p.data → (op.address &&& p.addressFilterBits) ||| lane =
      op.address - op.address % p.data + lane := by
    intro lane short
    rw [p.and_addressFilterBits, Nat.mod_eq_of_lt reach]
    obtain ⟨k, _, data⟩ := p.exists_data_pow
    rw [data] at short ⊢
    exact Bits.or_lane short
  simp only [readRequest, operationRequest, width, isRead, decoded.selOk, if_true, Bool.false_eq_true, if_false,
    joined _ decoded.big_lt, joined _ decoded.little_lt, decoded.big, decoded.little]

variable {σ : Type}

def runRequests (bus : Bus σ) : Session σ → List Request → Session σ × List Nat
  | s, [] => (s, [])
  | s, request :: requests =>
    let (s, value) := perform bus s request
    let (s, values) := runRequests bus s requests
    (s, value :: values)

theorem runRequests_append (bus : Bus σ) (s : Session σ) (first second : List Request) :
    runRequests bus s (first ++ second) =
      ((runRequests bus (runRequests bus s first).1 second).1,
        (runRequests bus s first).2 ++ (runRequests bus (runRequests bus s first).1 second).2) := by
  induction first generalizing s with
  | nil => rfl
  | cons request requests ih => simp only [List.cons_append, runRequests, ih]

theorem perform_open (bus : Bus σ) (s : Session σ) (cycleOpen : Bool) (request : Request) :
    perform bus { s with cycleOpen := cycleOpen } request =
      ({ (perform bus s request).1 with cycleOpen := cycleOpen }, (perform bus s request).2) := by
  cases request <;> rfl

theorem runRequests_open (bus : Bus σ) (s : Session σ) (cycleOpen : Bool) (requests : List Request) :
    runRequests bus { s with cycleOpen := cycleOpen } requests =
      ({ (runRequests bus s requests).1 with cycleOpen := cycleOpen }, (runRequests bus s requests).2) := by
  induction requests generalizing s with
  | nil => rfl
  | cons request requests ih => simp only [runRequests, perform_open, ih]

theorem execWrites_run (bus : Bus σ) (lanes : Lanes) (wcfg fifo : Bool) (shift : Nat) (ops : List Operation)
    (address bwa bwaB bwaL : Nat) (s : Session σ) (chained : Chained (advance p fifo) address ops)
    (all : ∀ op ∈ ops, Accepted p op ∧ op.isWrite = true ∧ op.cfgSpace = wcfg ∧ Decoded p op lanes shift)
    (cfg : wcfg = true → bwa = address)
    (plain : wcfg = false → bwaB = address - address % p.data + lanes.addrLowBigEndian ∧
      bwaL = address - address % p.data + lanes.addrLowLittleEndian) :
    execWrites p bus lanes wcfg fifo bwa bwaB bwaL
        (ops.map fun op => (op.unValue <<< (shift <<< 3)) % p.wordMod) s =
      (runRequests bus s (ops.map (operationRequest p))).1 := by
  induction ops generalizing address bwa bwaB bwaL s with
  | nil => rfl
  | cons op ops ih =>
    obtain ⟨here, tail⟩ := chained
    obtain ⟨accepted, isWrite, space, decoded⟩ := all op List.mem_cons_self
    have request := writeRequest_operation accepted isWrite decoded bwa bwaB bwaL
      (by rw [space, here]; exact cfg) (by rw [space, here]; exact plain)
    rw [space] at request
    simp only [List.map_cons, execWrites, runRequests, request]
    apply ih (advance p fifo address) _ _ _ _ tail (fun other member => all other (List.mem_cons_of_mem _ member))
    · intro config
      rw [cfg config]
      cases fifo <;> rfl
    · intro notConfig
      obtain ⟨big, little⟩ := plain notConfig
      rw [big, little]
      exact ⟨nextAddress_lane fifo address _ decoded.big_lt, nextAddress_lane fifo address _ decoded.little_lt⟩

theorem execReads_run (bus : Bus σ) (lanes : Lanes) (rcfg : Bool) (shift : Nat) (ops : List Operation)
    (s : Session σ)
    (all : ∀ op ∈ ops, op.isWrite = false ∧ op.cfgSpace = rcfg ∧ op.address < 2 ^ (8 * p.addr) ∧
      Decoded p op lanes shift) :
    execReads p bus lanes rcfg (ops.map Operation.address) s =
      ((runRequests bus s (ops.map (operationRequest p))).1,
        (runRequests bus s (ops.map (operationRequest p))).2.map (replyWord p lanes)) := by
  induction ops generalizing s with
  | nil => rfl
  | cons op ops ih =>
    obtain ⟨isRead, space, reach, decoded⟩ := all op List.mem_cons_self
    have request := readRequest_operation isRead decoded reach
    rw [space] at request
    simp only [List.map_cons, execReads, runRequests, request,
      ih _ (fun other member => all other (List.mem_cons_of_mem _ member))]

end

end BelProject.Etherbone.Requests
