import BelProject.Etherbone.Width

/-! Operations and cycles as the master queues them. The linked list of a closed
cycle is a Lean list in execution order; an operation handle is the suffix of that
list `eb_operation_next` walks from it, so the empty list is `EB_NULL`. -/

namespace BelProject.Etherbone.Operations
open BelProject.Library Width

/-- `eb_status_t`. -/
inductive Status where
  | ok | fail | address | width | overflow | endian | busy | timeout | oom | abi | segfault
  deriving DecidableEq, Repr

/-- The operation kinds under `EB_OP_MASK`. -/
inductive Kind where
  | write | readPtr | readVal
  deriving DecidableEq, Repr

abbrev ebDataX : UInt8 := 0x0f
abbrev ebEndianMask : UInt8 := 0x30
abbrev ebBigEndian : UInt8 := 0x10
abbrev ebLittleEndian : UInt8 := 0x20

/-- `struct eb_operation`. `unValue` is the union: the value written, the value read,
or the user's destination of a `readPtr`. -/
structure Operation where
  address : Nat
  unValue : Nat
  kind : Kind
  cfgSpace : Bool
  error : Bool
  checked : Bool
  format : UInt8
  deriving DecidableEq, Repr

namespace Operation

def isWrite (op : Operation) : Bool := op.kind == .write

def size (op : Operation) : Nat := (op.format &&& ebDataX).toNat

def endian (op : Operation) : UInt8 := op.format &&& ebEndianMask

end Operation

/-- `cycle->un_ops`: either the self pointer that records an out-of-memory, or the list. -/
inductive Ops where
  | dead
  | live (first : List Operation)
  deriving DecidableEq, Repr

/-- `struct eb_cycle`; the handle also stands for its callback and user data. -/
structure Cycle where
  handle : Nat
  ops : Ops
  deriving DecidableEq, Repr

/-- `eb_find_bus`: index of the first bus operation at or after `i`. -/
def ebFindBus (ops : List Operation) (i : Nat) : Option Nat :=
  ((ops.drop i).findIdx? fun op => !op.cfgSpace).map (i + ·)

/-- `eb_find_read`: index of the first read operation at or after `i`. -/
def ebFindRead (ops : List Operation) (i : Nat) : Option Nat :=
  ((ops.drop i).findIdx? fun op => !op.isWrite).map (i + ·)

/-- The per-operation checks of `eb_device_flush`. An accepted operation keeps the
format it ended up with, its largest supported size and the endianness it needs. -/
def checkOperation (p : Port) (op : Operation) : Except (Operation × Status) Operation :=
  let size := ebWidthRefine (op.format &&& UInt8.ofNat (p.data - 1 + p.data))
  let endian := if size.toNat = p.data then 0 else op.format &&& ebEndianMask
  if size = 0 then .error (op, .width)
  else if endian = ebBigEndian ||| ebLittleEndian ∨ (size.toNat ≠ p.data ∧ endian = 0) then
    .error (op, .endian)
  else
    let checked := { op with format := endian ||| size }
    if op.cfgSpace = false ∧ op.address &&& (p.addressMask - (size.toNat - 1)) ≠ op.address then
      .error (checked, .address)
    else if op.cfgSpace = true ∧ op.address &&& (0xffff - (size.toNat - 1)) ≠ op.address then
      .error (checked, .address)
    else if op.isWrite ∧ op.unValue &&& p.dataMask size.toNat ≠ op.unValue then
      .error (checked, .width)
    else .ok checked

/-- The range check over a whole cycle; a rejected one reports the offending handle. -/
def checkOperations (p : Port) : List Operation → Except (List Operation × Status) (List Operation)
  | [] => .ok []
  | op :: next =>
    match checkOperation p op with
    | .error (bad, reason) => .error (bad :: next, reason)
    | .ok op' =>
      match checkOperations p next with
      | .error bad => .error bad
      | .ok next' => .ok (op' :: next')

/-- What `eb_device_flush` knows about an operation once its checks passed. -/
structure Accepted (p : Port) (op : Operation) : Prop where
  size_isSize : IsSize op.size
  size_le : op.size ≤ p.data
  format_eq : op.format = op.endian ||| UInt8.ofNat op.size
  endian_full : op.size = p.data → op.endian = 0
  endian_sub : op.size ≠ p.data → op.endian = ebBigEndian ∨ op.endian = ebLittleEndian
  aligned : op.size ∣ op.address
  bus_lt : op.cfgSpace = false → op.address < 2 ^ (8 * p.addr)
  cfg_lt : op.cfgSpace = true → op.address < 2 ^ 16
  value_lt : op.isWrite = true → op.unValue < 2 ^ (8 * op.size)

theorem masked_address {address size bits : Nat} (isSize : IsSize size) (wide : 3 ≤ bits)
    (same : address &&& (2 ^ bits - 1 - (size - 1)) = address) :
    address < 2 ^ bits ∧ size ∣ address := by
  obtain ⟨k, small, rfl⟩ := isSize.exists_pow
  have positive := Nat.two_pow_pos k
  have mask : 2 ^ bits - 1 - (2 ^ k - 1) = 2 ^ bits - 2 ^ k := by omega
  rw [mask, Bits.and_mask_range address (by omega : k ≤ bits)] at same
  have low := Nat.mod_lt address (Nat.two_pow_pos bits)
  have below : address < 2 ^ bits := by omega
  rw [Nat.mod_eq_of_lt below] at same
  have smaller : address % 2 ^ k ≤ address := Nat.mod_le _ _
  exact ⟨below, Nat.dvd_of_mod_eq_zero (by omega)⟩

/-- The size and endian bits a format byte resolves to on a port of the given data size. -/
structure Resolved (data : Nat) (size endian : UInt8) : Prop where
  size_isSize : IsSize size.toNat
  size_le : size.toNat ≤ data
  size_bits : (endian ||| size) &&& ebDataX = size
  endian_bits : (endian ||| size) &&& ebEndianMask = endian
  endian_full : size.toNat = data → endian = 0
  endian_sub : size.toNat ≠ data → endian = ebBigEndian ∨ endian = ebLittleEndian

private def resolves (data : Nat) (format : UInt8) : Bool :=
  let size := ebWidthRefine (format &&& UInt8.ofNat (data - 1 + data))
  let endian := if size.toNat = data then 0 else format &&& ebEndianMask
  size == 0 || endian == ebBigEndian ||| ebLittleEndian || (size.toNat != data && endian == 0) ||
    (decide (IsSize size.toNat) && decide (size.toNat ≤ data) && (endian ||| size) &&& ebDataX == size &&
      (endian ||| size) &&& ebEndianMask == endian && (size.toNat != data || endian == 0) &&
      (size.toNat == data || endian == ebBigEndian || endian == ebLittleEndian))

private theorem resolves_all (p : Port) (format : UInt8) : resolves p.data format = true := by
  revert format
  rcases p.data_size with data | data | data | data <;> rw [data]
  · exact forall_byte (by decide)
  · exact forall_byte (by decide)
  · exact forall_byte (by decide)
  · exact forall_byte (by decide)

theorem resolved_of_check (p : Port) (format size endian : UInt8)
    (size_eq : size = ebWidthRefine (format &&& UInt8.ofNat (p.data - 1 + p.data)))
    (endian_eq : endian = if size.toNat = p.data then 0 else format &&& ebEndianMask)
    (possible : size ≠ 0)
    (single : ¬(endian = ebBigEndian ||| ebLittleEndian ∨ (size.toNat ≠ p.data ∧ endian = 0))) :
    Resolved p.data size endian := by
  have checked := resolves_all p format
  simp only [resolves, ← size_eq, ← endian_eq] at checked
  simp only [Bool.or_eq_true, Bool.and_eq_true, beq_iff_eq, bne_iff_ne, decide_eq_true_eq] at checked
  rcases checked with ((none | both) | missing) | ⟨⟨⟨⟨⟨isSize, le⟩, bits⟩, endianBits⟩, full⟩, sub⟩
  · exact absurd none possible
  · exact absurd (Or.inl both) single
  · exact absurd (Or.inr missing) single
  · refine ⟨isSize, le, bits, endianBits, ?_, ?_⟩
    · intro same
      exact full.resolve_left (fun different => different same)
    · intro different
      rcases sub with (same | big) | little
      · exact absurd same different
      · exact Or.inl big
      · exact Or.inr little

theorem accepted_of_check (p : Port) (op op' : Operation) (passed : checkOperation p op = .ok op') :
    Accepted p op' ∧ op' = { op with format := op'.format } := by
  unfold checkOperation at passed
  extract_lets size endian checked at passed
  split_ifs at passed with possible single bus cfg value
  have resolved := resolved_of_check p op.format size endian rfl rfl possible single
  obtain ⟨isSize, le, bits, endianBits, full, sub⟩ := resolved
  have same : { op with format := endian ||| size } = op' := Except.ok.inj passed
  subst same
  have sizeEq : Operation.size { op with format := endian ||| size } = size.toNat := by
    simp only [Operation.size, bits]
  have endianEq : Operation.endian { op with format := endian ||| size } = endian := endianBits
  have word : size.toNat ≤ p.word := le.trans p.data_le
  have wide : 3 ≤ 8 * p.addr := by rcases p.addr_size with h | h | h | h <;> omega
  have aligned : (op.cfgSpace = false → op.address < 2 ^ (8 * p.addr)) ∧
      (op.cfgSpace = true → op.address < 2 ^ 16) ∧ size.toNat ∣ op.address := by
    cases space : op.cfgSpace with
    | false =>
      have same : op.address &&& (p.addressMask - (size.toNat - 1)) = op.address := by
        by_contra different
        exact bus ⟨space, different⟩
      rw [p.addressMask_eq] at same
      obtain ⟨below, dvd⟩ := masked_address isSize wide same
      exact ⟨fun _ => below, by simp, dvd⟩
    | true =>
      have same : op.address &&& (2 ^ 16 - 1 - (size.toNat - 1)) = op.address := by
        by_contra different
        exact cfg ⟨space, different⟩
      obtain ⟨below, dvd⟩ := masked_address isSize (by decide) same
      exact ⟨by simp, fun _ => below, dvd⟩
  refine ⟨⟨?_, ?_, ?_, ?_, ?_, ?_, aligned.1, aligned.2.1, ?_⟩, rfl⟩
  · rw [sizeEq]; exact isSize
  · rw [sizeEq]; exact le
  · rw [sizeEq, endianEq, UInt8.ofNat_toNat]
  · rw [sizeEq, endianEq]; exact full
  · rw [sizeEq, endianEq]; exact sub
  · rw [sizeEq]; exact aligned.2.2
  · intro isWrite
    rw [sizeEq]
    have same : op.unValue &&& p.dataMask size.toNat = op.unValue := by
      by_contra different
      exact value ⟨isWrite, different⟩
    rw [p.dataMask_eq word, Nat.and_two_pow_sub_one_eq_mod] at same
    change op.unValue < _
    rw [← same]
    exact Nat.mod_lt _ (Nat.two_pow_pos _)

theorem accepted_of_checkOperations (p : Port) (ops ops' : List Operation)
    (passed : checkOperations p ops = .ok ops') : ∀ op ∈ ops', Accepted p op := by
  induction ops generalizing ops' with
  | nil =>
    cases passed
    simp
  | cons op next ih =>
    simp only [checkOperations] at passed
    split at passed
    · cases passed
    · rename_i op' first
      split at passed
      · cases passed
      · rename_i next' rest
        cases passed
        intro other member
        rcases List.mem_cons.mp member with rfl | later
        · exact (accepted_of_check p op other first).1
        · exact ih next' rest other later

theorem checkOperations_error (p : Port) (ops bad : List Operation) (reason : Status)
    (failed : checkOperations p ops = .error (bad, reason)) : reason ≠ .ok := by
  induction ops with
  | nil => cases failed
  | cons op next ih =>
    simp only [checkOperations] at failed
    split at failed
    next bad' reason' first =>
      cases failed
      unfold checkOperation at first
      extract_lets size endian checked at first
      intro ok
      subst ok
      split_ifs at first <;> simp at first
    next =>
      split at failed
      next rest =>
        cases failed
        exact ih rest
      next => cases failed

theorem Accepted.format_ne_dataX {p : Port} {op : Operation} (accepted : Accepted p op) :
    op.format ≠ ebDataX := by
  intro same
  have size : op.size = 15 := by rw [Operation.size, same]; rfl
  have := accepted.size_isSize
  rw [size] at this
  exact absurd this (by decide)

theorem Accepted.lane_full {p : Port} {op : Operation} (accepted : Accepted p op)
    (full : op.format = UInt8.ofNat p.data) : op.address % p.data = 0 := by
  have size : op.size = p.data := by
    rw [Operation.size, full]
    rcases p.data_size with h | h | h | h <;> rw [h] <;> decide
  have aligned := accepted.aligned
  rw [size] at aligned
  exact Nat.mod_eq_zero_of_dvd aligned

end BelProject.Etherbone.Operations
