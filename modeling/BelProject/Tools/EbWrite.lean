import BelProject.Etherbone.Requests
import BelProject.Library.HostOrder
import BelProject.Library.Lanes

/-! `eb-write`. The tool intersects the sizes of the device, of the link and of its caller and
then writes directly, in fragments, or by filling in a wider word it read first. Whichever
it picks, the memory ends up as after one write of the requested size. -/

namespace BelProject.Tools.EbWrite
open BelProject.Library Memory Etherbone Width Operations Execute Requests

/-- The bits of a byte order under `EB_ENDIAN_MASK`; none are set while it is not known. -/
def endianBits : Option Host → UInt8
  | none => 0
  | some .big => ebBigEndian
  | some .little => ebLittleEndian

/-- What the search for the device at the address came to, unless `-p` skipped it. -/
inductive Probe where
  | off
  | failed
  | found (busSpecific : UInt32)
  deriving DecidableEq, Repr

structure Arguments where
  address : Nat
  size : UInt8
  data : Nat
  endian : Option Host
  probe : Probe
  fidelity : Bool
  config : Bool
  deriving DecidableEq, Repr

abbrev sdbWishboneLittleEndian : UInt32 := 0x80

def deviceSupport (arguments : Arguments) : Option UInt8 :=
  match arguments.probe with
  | .off => some (endianBits arguments.endian ||| ebDataX)
  | .failed => none
  | .found busSpecific =>
    some ((if busSpecific &&& sdbWishboneLittleEndian ≠ 0 then ebLittleEndian else ebBigEndian) |||
      (busSpecific.toUInt8 &&& ebDataX))

/-- What the tool does once it has decided: give up, close one cycle of writes, or close a
cycle with a read and then one with a write that depends on what was read. -/
inductive Plan where
  | refused
  | write (ops : List Operation)
  | fill (read : Operation) (write : Nat → Operation)

section
variable (p : Port) (config : Bool)

/-- `eb_cycle_write` or `eb_cycle_write_config`. -/
def cycleWrite (address : Nat) (format : UInt8) (data : Nat) : Operation :=
  ⟨address, data, .write, config, false, false, format⟩

/-- `eb_cycle_read` or `eb_cycle_read_config` into `original_data`. -/
def cycleRead (address : Nat) (format : UInt8) : Operation := ⟨address, 0, .readPtr, config, false, false, format⟩

/-- Fill in all sizes below the largest one. -/
def smear (sizes : UInt8) : UInt8 :=
  let sizes := sizes ||| (sizes >>> 1)
  sizes ||| (sizes >>> 2)

def dataMask (size : Nat) : Nat := (p.wordMod - 1) >>> ((p.word - size) * 8)

/-- The loop over the fragments. It stops at `address_end` and nowhere else; `fuel` bounds
its turns. -/
def writeFragments (format fragmentSize : UInt8) (data addressEnd : Nat) (shiftStep : Int) :
    Nat → Nat → Int → Option (List Operation)
  | 0, _, _ => none
  | fuel + 1, address, shift =>
    if address = addressEnd then some []
    else
      let partialData := (data >>> shift.toNat) &&& dataMask p fragmentSize.toNat
      let rest := writeFragments format fragmentSize data addressEnd shiftStep fuel
        ((address + fragmentSize.toNat) % p.wordMod) (shift + shiftStep)
      rest.map (cycleWrite config address format partialData :: ·)

def fragment (endian size writeSizes : UInt8) (address data : Nat) : Option Plan :=
  let fragmentSizes := smear size
  let completeSize := fragmentSizes ^^^ (fragmentSizes >>> 1)
  let fragmentSizes := smear (fragmentSizes &&& writeSizes)
  let fragmentSize := fragmentSizes ^^^ (fragmentSizes >>> 1)
  let format := endian ||| fragmentSize
  let addressEnd := (address + completeSize.toNat) % p.wordMod
  let fragments := writeFragments p config format fragmentSize data addressEnd
  if format &&& ebEndianMask = ebBigEndian then
    (fragments (-(fragmentSize.toNat * 8)) (completeSize.toNat + 1) address
      ((completeSize.toNat - fragmentSize.toNat) * 8 : Nat)).map .write
  else if format &&& ebEndianMask = ebLittleEndian then
    (fragments (fragmentSize.toNat * 8) (completeSize.toNat + 1) address 0).map .write
  else some .refused

def fill (endian size writeSizes : UInt8) (address data : Nat) : Plan :=
  let fragmentSizes := smear size
  let fragmentSize := fragmentSizes ^^^ (fragmentSizes >>> 1)
  let completeSize := writeSizes &&& (0 - writeSizes)
  let format := endian ||| completeSize
  let alignedAddress := address &&& (p.wordMod - 1 - (completeSize.toNat - 1))
  let filled := fun shift original =>
    let mask := (dataMask p size.toNat <<< (shift * 8)) % p.wordMod
    let data := (data <<< (shift * 8)) % p.wordMod
    cycleWrite config alignedAddress format (data ||| (original &&& ((p.wordMod - 1) ^^^ mask)))
  if format &&& ebEndianMask = ebBigEndian then
    .fill (cycleRead config alignedAddress format)
      (filled ((completeSize.toNat - fragmentSize.toNat) - (address - alignedAddress)))
  else if format &&& ebEndianMask = ebLittleEndian then
    .fill (cycleRead config alignedAddress format) (filled (address - alignedAddress))
  else .refused

def direct (endian size writeSizes : UInt8) (address data : Nat) : Plan :=
  let format := endian ||| (size &&& writeSizes)
  if format &&& p.widths &&& ebDataX = 0 ∧ format &&& ebEndianMask = 0 then .refused
  else .write [cycleWrite config address format data]

/-- `main` from the sizes of the line and the device to the last cycle. -/
def chosen (fidelity : Bool) (endian size support : UInt8) (address data : Nat) : Option Plan :=
  let lineWidths := ((p.widths &&& ebDataX) <<< 1) - 1
  let writeSizes := lineWidths &&& support
  if writeSizes = 0 then some .refused
  else if size &&& writeSizes = 0 then
    if fidelity then some .refused
    else if smear size &&& writeSizes ≠ 0 then fragment p config endian size writeSizes address data
    else some (fill p config endian size writeSizes address data)
  else some (direct p config endian size writeSizes address data)

end

/-- `main` from the command line on. -/
def ebWrite (p : Port) (arguments : Arguments) : Option Plan :=
  let address := arguments.address % p.wordMod
  let data := arguments.data % p.wordMod
  let size := arguments.size
  if size ≠ 1 ∧ size ≠ 2 ∧ size ≠ 4 ∧ size ≠ 8 then some .refused
  else if address &&& (size.toNat - 1) ≠ 0 then some .refused
  else if size.toNat > p.word then some .refused
  else if data &&& dataMask p size.toNat ≠ data then some .refused
  else
    match deviceSupport arguments with
    | none => some .refused
    | some support =>
      let endian := if endianBits arguments.endian = 0 then support &&& ebEndianMask else endianBits arguments.endian
      chosen p arguments.config arguments.fidelity endian arguments.size support address data

/-! ### The other end -/

/-- A memory behind the slave, in its own byte order. A handler is given the address of its
byte order. -/
def memoryBus (native : Host) : Bus Mem where
  read m width addrB addrL :=
    (native.load (slice m (native.pick addrB addrL) (width &&& ebDataX).toNat), false, m)
  write m width addrB addrL value :=
    (false, store m (native.pick addrB addrL) (native.store (width &&& ebDataX).toNat value))
  writeConfig m _ _ _ := m

/-- The memory as seen in a byte order: the bytes of each word count from the end this
order calls the first. -/
def view (p : Port) (native order : Host) (m : Mem) : Mem :=
  if native = order then m else Lanes.turn p.data m

section
variable {σ : Type} (p : Port) (bus : Bus σ)

/-- One cycle: flush checks it as a whole, and then its operations are carried out. -/
def runCycle (s : Session σ) (ops : List Operation) : Option (Session σ × List Nat) :=
  match checkOperations p ops with
  | .error _ => none
  | .ok ops => some (runRequests bus s (ops.map (operationRequest p)))

/-- The session after the tool has ended. A cycle that flush rejects ends it. -/
def Plan.run (s : Session σ) : Plan → Session σ
  | .refused => s
  | .write ops =>
    match runCycle p bus s ops with
    | none => s
    | some (s, _) => s
  | .fill read filled =>
    match runCycle p bus s [read] with
    | some (s, [original]) =>
      match runCycle p bus s [filled original] with
      | none => s
      | some (s, _) => s
    | _ => s

end

/-! ### What one operation does to the memory as it is seen -/

/-- The byte order the tool settles on, if it knows one. -/
def selected (arguments : Arguments) : Option Host :=
  match arguments.endian, arguments.probe with
  | some order, _ => some order
  | none, .found busSpecific => some (if busSpecific &&& sdbWishboneLittleEndian ≠ 0 then .little else .big)
  | none, _ => none

section
variable (p : Port) (native : Host) (order : Option Host)

/-- The memory in the byte order of the operations, or its own if they name none. -/
def seen (m : Mem) : Mem := view p native (order.getD native) m

variable {p order}

variable {op : Operation}

theorem mirror_full (accepted : Accepted p op) (full : op.size = p.data) : mirror p op = op.address := by
  have aligned := accepted.aligned
  rw [full] at aligned
  rw [mirror, full, Nat.mod_eq_zero_of_dvd aligned]
  omega

theorem pick_address (accepted : Accepted p op) (endian : op.endian = 0 ∨ op.endian = endianBits order) :
    native.pick (bigAddress p op) (littleAddress p op) =
      if native = order.getD native then op.address else mirror p op := by
  have named : op.size ≠ p.data → op.endian = endianBits order := by
    intro sub
    refine endian.resolve_left fun none => ?_
    have needed := accepted.endian_sub sub
    rw [none] at needed
    exact absurd needed (by decide)
  by_cases full : op.size = p.data
  · have same := mirror_full accepted full
    rw [bigAddress, littleAddress, same, ite_self, ite_self, ite_self]
    cases native <;> rfl
  · have bits := named full
    have known := accepted.endian_sub full
    rw [bits] at known
    rw [bigAddress, littleAddress, bits]
    rcases order with _ | _ | _
    · exact absurd known (by decide)
    · cases native <;> rfl
    · cases native <;> rfl

theorem widthData (accepted : Accepted p op) : (UInt8.ofNat (p.addr * 16 + op.size) &&& ebDataX).toNat = op.size := by
  have all : ∀ addr ∈ [1, 2, 4, 8], ∀ size ∈ [1, 2, 4, 8],
    (UInt8.ofNat (addr * 16 + size) &&& ebDataX).toNat = size := by
    decide
  exact all p.addr (by simpa [IsSize] using p.addr_size) op.size (by simpa [IsSize] using accepted.size_isSize)

theorem mirror_eq (op : Operation) : mirror p op = Lanes.mirrored p.data op.address op.size := rfl

theorem seen_write (accepted : Accepted p op) (isWrite : op.isWrite = true) (bus : op.cfgSpace = false)
    (endian : op.endian = 0 ∨ op.endian = endianBits order) (s : Session Mem) :
    seen p native order (perform (memoryBus native) s (operationRequest p op)).1.bus =
      store (seen p native order s.bus) op.address ((order.getD native).store op.size op.unValue) := by
  have place := pick_address native accepted endian
  have after : (perform (memoryBus native) s (operationRequest p op)).1.bus =
      store s.bus (native.pick (bigAddress p op) (littleAddress p op)) (native.store op.size op.unValue) := by
    rw [operationRequest, if_pos isWrite, bus]
    simp only [Bool.false_eq_true, if_false, perform, memoryBus, record, shifted, widthData accepted]
  rw [after, place, seen, seen, view, view]
  by_cases same : native = order.getD native
  · rw [if_pos same, if_pos same, if_pos same, ← same]
  · have inside := (lane_inside accepted).2
    rw [if_neg same, if_neg same, if_neg same, mirror_eq,
      Lanes.turn_store inside s.bus (native.length_store op.size op.unValue)]
    congr 1
    generalize order.getD native = other at same
    cases native <;> cases other <;> simp_all [Host.store]

theorem seen_read (accepted : Accepted p op) (isRead : op.isWrite = false) (bus : op.cfgSpace = false)
    (endian : op.endian = 0 ∨ op.endian = endianBits order) (s : Session Mem) :
    (perform (memoryBus native) s (operationRequest p op)).1.bus = s.bus ∧
      (perform (memoryBus native) s (operationRequest p op)).2 =
        (order.getD native).load (slice (seen p native order s.bus) op.address op.size) := by
  have place := pick_address native accepted endian
  have after : perform (memoryBus native) s (operationRequest p op) =
      (record (shifted s false) (.busRead (UInt8.ofNat (p.addr * 16 + op.size)) (bigAddress p op) (littleAddress p op))
        (native.load (slice s.bus (native.pick (bigAddress p op) (littleAddress p op)) op.size)) false,
        native.load (slice s.bus (native.pick (bigAddress p op) (littleAddress p op)) op.size)) := by
    rw [operationRequest, isRead, bus]
    simp only [Bool.false_eq_true, if_false, perform, memoryBus, widthData accepted]
  rw [after]
  refine ⟨rfl, ?_⟩
  simp only []
  rw [place, seen, view]
  by_cases same : native = order.getD native
  · rw [if_pos same, if_pos same, ← same]
  · have inside := (lane_inside accepted).2
    rw [if_neg same, if_neg same, mirror_eq, Lanes.slice_turn inside s.bus]
    generalize order.getD native = other at same
    cases native <;> cases other <;> simp_all [Host.load]

end

theorem endianBits_known {order : Option Host} (known : order ≠ none) :
    endianBits order ≠ ebBigEndian ||| ebLittleEndian ∧ endianBits order ≠ 0 := by
  revert known
  rcases order with _ | _ | _ <;> decide

/-! ### The checks of flush -/

/-- A bus operation of one of the supported sizes, with an endianness where it needs one. -/
structure Sized (p : Port) (order : Option Host) (size : Nat) (op : Operation) : Prop where
  format : op.format = endianBits order ||| UInt8.ofNat size
  isSize : IsSize size
  small : size ≤ p.data
  needed : size ≠ p.data → order ≠ none
  bus : op.cfgSpace = false
  aligned : size ∣ op.address
  fits : op.isWrite = true → op.unValue < 256 ^ size

theorem formats_all (data size : Nat) (order : Option Host) (isData : IsSize data)
    (isSize : IsSize size) (small : size ≤ data) :
    ebWidthRefine ((endianBits order ||| UInt8.ofNat size) &&& UInt8.ofNat (data - 1 + data)) = UInt8.ofNat size ∧
      (UInt8.ofNat size).toNat = size ∧ UInt8.ofNat size ≠ 0 ∧
      (endianBits order ||| UInt8.ofNat size) &&& ebEndianMask = endianBits order ∧
      (endianBits order ||| UInt8.ofNat size) &&& ebDataX = UInt8.ofNat size := by
  have all : ∀ data ∈ [1, 2, 4, 8], ∀ size ∈ [1, 2, 4, 8], ∀ order ∈
    [none, some Host.big, some Host.little], size ≤ data →
      ebWidthRefine ((endianBits order ||| UInt8.ofNat size) &&& UInt8.ofNat (data - 1 + data)) = UInt8.ofNat size ∧
        (UInt8.ofNat size).toNat = size ∧ UInt8.ofNat size ≠ 0 ∧
        (endianBits order ||| UInt8.ofNat size) &&& ebEndianMask = endianBits order ∧
        (endianBits order ||| UInt8.ofNat size) &&& ebDataX = UInt8.ofNat size := by decide +kernel
  apply all data (by simpa [IsSize] using isData) size (by simpa [IsSize] using isSize) order _ small
  rcases order with _ | _ | _ <;> simp

section
variable {p : Port} {order : Option Host} {size : Nat} {op : Operation}

theorem checkOperation_bus (sized : Sized p order size op) (inside : op.address < 2 ^ (8 * p.addr)) :
    checkOperation p op = .ok { op with format := (if size = p.data then 0 else endianBits order) ||| UInt8.ofNat size } := by
  obtain ⟨refined, back, some, endian, _⟩ := formats_all p.data size order p.data_size sized.isSize sized.small
  have known : ¬((if size = p.data then (0 : UInt8) else endianBits order) = ebBigEndian ||| ebLittleEndian ∨
      (size ≠ p.data ∧ (if size = p.data then (0 : UInt8) else endianBits order) = 0)) := by
    by_cases full : size = p.data
    · rw [if_pos full]
      rintro (both | ⟨sub, _⟩)
      · exact absurd both (by decide)
      · exact sub full
    · rw [if_neg full]
      have single := endianBits_known (sized.needed full)
      exact fun either => either.elim single.1 fun missing => single.2 missing.2
  have kept : op.address &&& (p.addressMask - (size - 1)) = op.address := by
    obtain ⟨k, _, pow⟩ := sized.isSize.exists_pow
    have aligned := sized.aligned
    have ordered : k ≤ 8 * p.addr := by
      have small := sized.small.trans (Nat.le_of_dvd (Nat.two_pow_pos _) p.data_dvd_addr_space)
      rw [pow] at small
      exact (Nat.pow_le_pow_iff_right (by decide)).mp small
    have positive := Nat.two_pow_pos k
    have mask : 2 ^ (8 * p.addr) - 1 - (2 ^ k - 1) = 2 ^ (8 * p.addr) - 2 ^ k := by omega
    rw [pow] at aligned
    rw [p.addressMask_eq, pow, mask, Bits.and_mask_range _ ordered, Nat.mod_eq_of_lt inside,
      Nat.mod_eq_zero_of_dvd aligned, Nat.sub_zero]
  have small : ¬(op.isWrite = true ∧ op.unValue &&& p.dataMask size ≠ op.unValue) := by
    rintro ⟨isWrite, cut⟩
    rw [p.dataMask_eq (sized.small.trans p.data_le), Nat.and_two_pow_sub_one_eq_mod, ← BigEndian.pow_byte,
      Nat.mod_eq_of_lt (sized.fits isWrite)] at cut
    exact cut rfl
  unfold checkOperation
  rw [sized.format]
  simp only [refined, back, endian]
  rw [if_neg some, if_neg known, if_neg (fun moved => moved.2 kept), if_neg (by rw [sized.bus]; simp), if_neg small]

theorem checkOperation_outside (bus : op.cfgSpace = false) (outside : 2 ^ (8 * p.addr) ≤ op.address) :
    ∃ bad, checkOperation p op = .error bad := by
  cases result : checkOperation p op with
  | error bad => exact ⟨bad, rfl⟩
  | ok op' =>
    obtain ⟨accepted, same⟩ := accepted_of_check p op op' result
    have address : op'.address = op.address := by rw [same]
    have space : op'.cfgSpace = op.cfgSpace := by rw [same]
    have below := accepted.bus_lt (space.trans bus)
    omega

theorem sized_checked (sized : Sized p order size op) (inside : op.address < 2 ^ (8 * p.addr)) :
    ∃ op', checkOperation p op = .ok op' ∧ Accepted p op' ∧ op' = { op with format := op'.format } ∧ op'.size = size ∧
      (op'.endian = 0 ∨ op'.endian = endianBits order) := by
  have passed := checkOperation_bus sized inside
  have accepted := (accepted_of_check p op _ passed).1
  refine ⟨_, passed, accepted, rfl, ?_, ?_⟩
  · have bits := (formats_all p.data size order p.data_size sized.isSize sized.small).2
    have none := (formats_all p.data size none p.data_size sized.isSize sized.small).2.2.2.2
    rw [Operation.size]
    by_cases full : size = p.data
    · rw [if_pos full]
      exact (congrArg UInt8.toNat none).trans bits.1
    · rw [if_neg full]
      exact (congrArg UInt8.toNat bits.2.2.2).trans bits.1
  · have bits := (formats_all p.data size order p.data_size sized.isSize sized.small).2.2.2.1
    have none := (formats_all p.data size none p.data_size sized.isSize sized.small).2.2.2.1
    rw [Operation.endian]
    by_cases full : size = p.data
    · rw [if_pos full]
      exact Or.inl none
    · rw [if_neg full]
      exact Or.inr bits

variable (native : Host)

theorem runCycle_writes {ops : List Operation}
    (each : ∀ op ∈ ops, Sized p order size op ∧ op.isWrite = true ∧ op.address < 2 ^ (8 * p.addr)) (s : Session Mem) :
    ∃ s' values, runCycle p (memoryBus native) s ops = some (s', values) ∧
      seen p native order s'.bus =
        ops.foldl (fun m op => store m op.address ((order.getD native).store size op.unValue))
          (seen p native order s.bus) := by
  suffices checked : ∀ s : Session Mem, ∃ ops', checkOperations p ops = .ok ops' ∧
      seen p native order (runRequests (memoryBus native) s (ops'.map (operationRequest p))).1.bus =
        ops.foldl (fun m op => store m op.address ((order.getD native).store size op.unValue))
          (seen p native order s.bus) by
    obtain ⟨ops', passed, written⟩ := checked s
    refine ⟨_, (runRequests (memoryBus native) s (ops'.map (operationRequest p))).2, ?_, written⟩
    rw [runCycle, passed]
  induction ops with
  | nil =>
    intro s
    exact ⟨[], rfl, rfl⟩
  | cons op ops ih =>
    intro s
    obtain ⟨sized, isWrite, inside⟩ := each op List.mem_cons_self
    obtain ⟨op', passed, accepted, same, width, endian⟩ := sized_checked sized inside
    have address : op'.address = op.address := by rw [same]
    have value : op'.unValue = op.unValue := by rw [same]
    have written := seen_write native accepted (by rw [same]; exact isWrite) (by rw [same]; exact sized.bus) endian s
    obtain ⟨ops', rest, after⟩ := ih (fun other member => each other (List.mem_cons_of_mem _ member))
      (perform (memoryBus native) s (operationRequest p op')).1
    refine ⟨op' :: ops', ?_, ?_⟩
    · rw [checkOperations, passed, rest]
    · rw [List.map_cons, runRequests, List.foldl_cons, ← value, ← address, ← width, ← written, width]
      exact after

theorem runCycle_outside {σ : Type} (bus : Bus σ) (ops : List Operation) (space : op.cfgSpace = false)
    (outside : 2 ^ (8 * p.addr) ≤ op.address) (s : Session σ) : runCycle p bus s (op :: ops) = none := by
  obtain ⟨bad, refused⟩ := checkOperation_outside space outside
  rw [runCycle, checkOperations, refused]

theorem runCycle_read (sized : Sized p order size op) (isRead : op.isWrite = false)
    (inside : op.address < 2 ^ (8 * p.addr)) (s : Session Mem) :
    ∃ s', runCycle p (memoryBus native) s [op] =
        some (s', [(order.getD native).load (slice (seen p native order s.bus) op.address size)]) ∧ s'.bus = s.bus := by
  obtain ⟨op', passed, accepted, same, width, endian⟩ := sized_checked sized inside
  have address : op'.address = op.address := by rw [same]
  obtain ⟨bus, value⟩ := seen_read native accepted (by rw [same]; exact isRead) (by rw [same]; exact sized.bus) endian s
  refine ⟨(perform (memoryBus native) s (operationRequest p op')).1, ?_, bus⟩
  rw [runCycle, checkOperations, passed, checkOperations]
  rw [address, width] at value
  rw [← value]
  rfl

end

/-! ### The sizes picked -/

variable (p : Port)

theorem widths_data : p.widths &&& ebDataX = UInt8.ofNat p.data := by
  have all : ∀ addr ∈ [1, 2, 4, 8], ∀ data ∈ [1, 2, 4, 8], UInt8.ofNat (addr * 16 + data) &&& ebDataX =
    UInt8.ofNat data := by
    decide
  exact all p.addr (by simpa [IsSize] using p.addr_size) p.data (by simpa [IsSize] using p.data_size)

theorem size_dvd {small big : Nat} (isSmall : IsSize small) (isBig : IsSize big) (le : small ≤ big) : small ∣ big := by
  obtain ⟨k, _, rfl⟩ := isSmall.exists_pow
  obtain ⟨n, _, rfl⟩ := isBig.exists_pow
  exact Nat.pow_dvd_pow 2 ((Nat.pow_le_pow_iff_right (by decide)).mp le)

/-- What the size arithmetic comes to, on every set of sizes. -/
def sizesCheck (data : Nat) (size writeSizes : UInt8) : Bool :=
  let fragmentSizes := smear size
  let completeSize := fragmentSizes ^^^ (fragmentSizes >>> 1)
  let fragments := smear (fragmentSizes &&& writeSizes)
  let fragmentSize := fragments ^^^ (fragments >>> 1)
  let wholeSize := writeSizes &&& (0 - writeSizes)
  completeSize == size &&
    (if size &&& writeSizes ≠ 0 then size &&& writeSizes == size && decide (size.toNat ≤ data)
    else if smear size &&& writeSizes ≠ 0 then
      decide (IsSize fragmentSize.toNat) && decide (fragmentSize.toNat < size.toNat) &&
        decide (fragmentSize.toNat ≤ data)
    else writeSizes == 0 ||
      decide (IsSize wholeSize.toNat) && decide (size.toNat < wholeSize.toNat) && decide (wholeSize.toNat ≤ data))

theorem sizesCheck_all {size : UInt8} (isSize : size = 1 ∨ size = 2 ∨ size = 4 ∨ size = 8) (support : UInt8) :
    sizesCheck p.data size (((p.widths &&& ebDataX) <<< 1) - 1 &&& support) = true := by
  rw [widths_data]
  revert support
  have all : ∀ data ∈ [1, 2, 4, 8], ∀ size ∈ [(1 : UInt8), 2, 4, 8], ∀ bits : BitVec 8,
      sizesCheck data size ((UInt8.ofNat data <<< 1) - 1 &&& ⟨bits⟩) = true := by decide +kernel
  exact forall_byte (all p.data (by simpa [IsSize] using p.data_size) size (by simpa using isSize))

theorem sizes_choice {size support common : UInt8} (sizes : size = 1 ∨ size = 2 ∨ size = 4 ∨ size = 8)
    (line : ((p.widths &&& ebDataX) <<< 1) - 1 &&& support = common) (fidelity : Bool) {α : Type} (fine : α → Prop)
    {refused fragment wide direct : α} (refuses : common = 0 ∨ size &&& common = 0 ∧ fidelity = true → fine refused)
    (fragments : common ≠ 0 ∧ size &&& common = 0 ∧ fidelity ≠ true →
      smear size ^^^ (smear size >>> 1) = size → ∀ fragmentSize : UInt8,
      smear (smear size &&& common) ^^^ (smear (smear size &&& common) >>> 1) = fragmentSize →
        IsSize fragmentSize.toNat →
      fragmentSize.toNat < size.toNat → fragmentSize.toNat ≤ p.data → fine fragment)
    (widens : common ≠ 0 ∧ size &&& common = 0 ∧ fidelity ≠ true → smear size ^^^ (smear size >>> 1) = size →
      ∀ wholeSize : UInt8, common &&& (0 - common) = wholeSize →
      IsSize wholeSize.toNat → size.toNat < wholeSize.toNat → wholeSize.toNat ≤ p.data → fine wide)
    (fits : common ≠ 0 ∧ size &&& common ≠ 0 → size &&& common = size → size.toNat ≤ p.data → fine direct) :
    fine (if common = 0 then refused
      else if size &&& common = 0 then
        if fidelity then refused else if smear size &&& common ≠ 0 then fragment else wide
      else direct) := by
  have checked := sizesCheck_all p sizes support
  rw [line, sizesCheck, Bool.and_eq_true, beq_iff_eq] at checked
  obtain ⟨complete, picked⟩ := checked
  split_ifs with noSize apart strict narrower
  · exact refuses (Or.inl noSize)
  · exact refuses (Or.inr ⟨apart, strict⟩)
  · simp only [apart, ne_eq, not_true_eq_false, if_false, narrower, not_false_eq_true, if_true, Bool.and_eq_true,
      decide_eq_true_eq] at picked
    obtain ⟨⟨isFragment, smaller⟩, small⟩ := picked
    exact fragments ⟨noSize, apart, strict⟩ complete _ rfl isFragment smaller small
  · simp only [apart, narrower, ne_eq, not_true_eq_false, if_false, Bool.or_eq_true, beq_iff_eq, noSize, false_or,
      Bool.and_eq_true, decide_eq_true_eq] at picked
    obtain ⟨⟨isWhole, wider⟩, small⟩ := picked
    exact widens ⟨noSize, apart, strict⟩ complete _ rfl isWhole wider small
  · simp only [apart, ne_eq, not_false_eq_true, if_true, Bool.and_eq_true, beq_iff_eq, decide_eq_true_eq] at picked
    exact fits ⟨noSize, apart⟩ picked.1 picked.2

theorem dataMask_eq {size : Nat} (small : size ≤ p.word) : dataMask p size = 2 ^ (8 * size) - 1 := by
  rw [← p.dataMask_eq small, Port.dataMask, dataMask, Nat.shiftLeft_eq]

end BelProject.Tools.EbWrite
