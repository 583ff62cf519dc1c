import BelProject.Tools.Stored

/-! `eb-read`. The tool picks its way as `eb-write` does: it reads directly, in fragments that
its callback puts together again, or a wider word that it cuts the bytes out of. Whichever
it picks, it prints what is in the memory at the address. -/

namespace BelProject.Tools.EbRead
open BelProject.Library Memory Etherbone Width Operations Execute Requests EbWrite

/-- What the tool does once it has decided: give up, or close one cycle of reads and shift what
comes back. -/
inductive Plan where
  | refused
  | read (ops : List Operation) (shift : Nat)

section
variable (p : Port) (config : Bool)

/-- `eb_cycle_read` or `eb_cycle_read_config` without a pointer. -/
def cycleRead (address : Nat) (format : UInt8) : Operation := ⟨address, 0, .readVal, config, false, false, format⟩

/-- The loop over the fragments. The stride is negative where the bytes count the other way. -/
def readFragments (format : UInt8) (stride : Int) : Nat → Nat → List Operation
  | 0, _ => []
  | count + 1, address =>
    cycleRead config address format :: readFragments format stride count ((address + stride) % p.wordMod : Int).toNat

def fragment (endian size readSizes : UInt8) (address : Nat) : Plan :=
  let fragmentSizes := smear size
  let completeSize := fragmentSizes ^^^ (fragmentSizes >>> 1)
  let fragmentSizes := smear (fragmentSizes &&& readSizes)
  let fragmentSize := fragmentSizes ^^^ (fragmentSizes >>> 1)
  let format := endian ||| fragmentSize
  let chunk := (format &&& ebDataX).toNat
  let count := completeSize.toNat / chunk
  if format &&& ebEndianMask = ebBigEndian then .read (readFragments p config format chunk count address) 0
  else if format &&& ebEndianMask = ebLittleEndian then
    .read (readFragments p config format (-chunk) count ((address + chunk * (count - 1)) % p.wordMod)) 0
  else .refused

def wide (endian size readSizes : UInt8) (address : Nat) : Plan :=
  let fragmentSizes := smear size
  let fragmentSize := fragmentSizes ^^^ (fragmentSizes >>> 1)
  let completeSize := readSizes &&& (0 - readSizes)
  let format := endian ||| completeSize
  let alignedAddress := address &&& (p.wordMod - 1 - (completeSize.toNat - 1))
  if format &&& ebEndianMask = ebBigEndian then
    .read [cycleRead config alignedAddress format]
      ((completeSize.toNat - fragmentSize.toNat) - (address - alignedAddress))
  else if format &&& ebEndianMask = ebLittleEndian then
    .read [cycleRead config alignedAddress format] (address - alignedAddress)
  else .refused

def direct (endian size readSizes : UInt8) (address : Nat) : Plan :=
  let format := endian ||| (size &&& readSizes)
  if format &&& p.widths &&& ebDataX = 0 ∧ format &&& ebEndianMask = 0 then .refused
  else .read [cycleRead config address format] 0

/-- `main` from the sizes of the line and the device to the cycle. -/
def chosen (fidelity : Bool) (endian size support : UInt8) (address : Nat) : Plan :=
  let lineWidths := ((p.widths &&& ebDataX) <<< 1) - 1
  let readSizes := lineWidths &&& support
  if readSizes = 0 then .refused
  else if size &&& readSizes = 0 then
    if fidelity then .refused
    else if smear size &&& readSizes ≠ 0 then fragment p config endian size readSizes address
    else wide p config endian size readSizes address
  else direct p config endian size readSizes address

end

/-- `main` from the command line on. The options are those of `eb-write`; there is no data. -/
def ebRead (p : Port) (arguments : Arguments) : Plan :=
  let address := arguments.address % p.wordMod
  let size := arguments.size
  if size ≠ 1 ∧ size ≠ 2 ∧ size ≠ 4 ∧ size ≠ 8 then .refused
  else if address &&& (size.toNat - 1) ≠ 0 then .refused
  else if size.toNat > p.word then .refused
  else
    match deviceSupport arguments with
    | none => .refused
    | some support =>
      let endian := if endianBits arguments.endian = 0 then support &&& ebEndianMask else endianBits arguments.endian
      chosen p arguments.config arguments.fidelity endian size support address

/-- `set_stop`: the operations are read off in their order. -/
def gathered (p : Port) (results : List (Nat × Nat)) : Nat :=
  results.foldl (fun data result => ((data <<< (result.1 * 8)) % p.wordMod) ||| result.2) 0

/-- What is printed, if the cycle passes. -/
def Plan.print {σ : Type} (p : Port) (bus : Bus σ) (s : Session σ) (size : UInt8) : Plan → Option Nat
  | .refused => none
  | .read ops shift =>
    match checkOperations p ops with
    | .error _ => none
    | .ok ops =>
      let values := (runRequests bus s (ops.map (operationRequest p))).2
      some ((gathered p ((ops.map Operation.size).zip values) >>> (shift * 8)) &&& dataMask p size.toNat)

section
variable {p : Port} {order : Option Host} {size : Nat} (native : Host)

theorem cycleRead_sized {size : UInt8} (isSize : IsSize size.toNat) (small : size.toNat ≤ p.data)
    (needed : size.toNat ≠ p.data → order ≠ none) {address : Nat} (aligned : size.toNat ∣ address) :
    Sized p order size.toNat (cycleRead false address (endianBits order ||| size)) :=
  ⟨by rw [UInt8.ofNat_toNat]; rfl, isSize, small, needed, rfl, aligned, by simp [cycleRead, Operation.isWrite]⟩

theorem read_values {ops : List Operation}
    (each : ∀ op ∈ ops, Sized p order size op ∧ op.isWrite = false ∧ op.address < 2 ^ (8 * p.addr)) (s : Session Mem) :
    ∃ ops', checkOperations p ops = .ok ops' ∧
      (ops'.map Operation.size).zip (runRequests (memoryBus native) s (ops'.map (operationRequest p))).2 =
        ops.map fun op => (size, (order.getD native).load (slice (seen p native order s.bus) op.address size)) := by
  induction ops generalizing s with
  | nil => exact ⟨[], rfl, rfl⟩
  | cons op ops ih =>
    obtain ⟨sized, isRead, inside⟩ := each op List.mem_cons_self
    obtain ⟨op', passed, accepted, same, width, endian⟩ := sized_checked sized inside
    have address : op'.address = op.address := by rw [same]
    obtain ⟨bus, value⟩ :=
      seen_read native accepted (by rw [same]; exact isRead) (by rw [same]; exact sized.bus) endian s
    obtain ⟨ops', rest, after⟩ := ih (fun other member => each other (List.mem_cons_of_mem _ member))
      (perform (memoryBus native) s (operationRequest p op')).1
    refine ⟨op' :: ops', by rw [checkOperations, passed, rest], ?_⟩
    rw [address, width] at value
    rw [bus] at after
    rw [List.map_cons, List.map_cons, List.map_cons, runRequests, List.zip_cons_cons, value, width, after]

theorem print_read {ops : List Operation} {shift : Nat} {bytes : UInt8}
    (each : ∀ op ∈ ops, Sized p order size op ∧ op.isWrite = false ∧ op.address < 2 ^ (8 * p.addr)) (s : Session Mem) :
    (Plan.read ops shift).print p (memoryBus native) s bytes =
      some ((gathered p (ops.map fun op => (size, (order.getD native).load
        (slice (seen p native order s.bus) op.address size))) >>> (shift * 8)) &&& dataMask p bytes.toNat) := by
  obtain ⟨ops', passed, values⟩ := read_values native each s
  rw [Plan.print, passed]
  simp only [values]

theorem print_outside {σ : Type} (bus : Bus σ) {op : Operation} (ops : List Operation) {shift : Nat} {bytes : UInt8}
    (space : op.cfgSpace = false) (outside : 2 ^ (8 * p.addr) ≤ op.address) (s : Session σ) :
    (Plan.read (op :: ops) shift).print p bus s bytes = none := by
  obtain ⟨bad, refused⟩ := checkOperation_outside space outside
  rw [Plan.print, checkOperations, refused]

end

theorem load_part (host : Host) (m : Mem) (address low size high : Nat) :
    host.load (slice m address (low + (size + high))) / 256 ^ host.below low high % 256 ^ size =
      host.load (slice m (address + low) size) := by
  have window := host.load_window (slice m address low) (slice m (address + low) size)
    (slice m (address + low + size) high)
  simp only [length_slice] at window
  rw [slice_add, slice_add, window]

variable (p : Port)

theorem gathered_digits (size : Nat) {count : Nat} (room : size * count ≤ p.word) (value : Nat) :
    gathered p ((List.range count).map fun i => (size, value / 256 ^ (size * (count - 1 - i)) % 256 ^ size)) =
      value % 256 ^ (size * count) := by
  induction count generalizing value with
  | zero => simp [gathered, Nat.mod_one]
  | succ count ih =>
    have step : size * (count + 1) = size + size * count := by rw [Nat.mul_succ, Nat.add_comm]
    have front : ((List.range count).map fun i => (size, value / 256 ^ (size * (count + 1 - 1 - i)) % 256 ^ size)) =
        (List.range count).map fun i => (size, value / 256 ^ size / 256 ^ (size * (count - 1 - i)) % 256 ^ size) := by
      apply List.map_congr_left
      intro i member
      have below := List.mem_range.mp member
      rw [Nat.div_div_eq_div_mul, ← pow_add, show count + 1 - 1 - i = count - 1 - i + 1 by omega, Nat.mul_succ,
        Nat.add_comm size]
    have high := ih (by omega) (value / 256 ^ size)
    have fits : value / 256 ^ size % 256 ^ (size * count) * 2 ^ (size * 8) < p.wordMod := by
      have digits := Nat.mod_lt (value / 256 ^ size) (Nat.pow_pos (n := size * count) (by decide : 0 < 256))
      rw [Port.wordMod, ← BigEndian.pow_byte, Nat.mul_comm size 8, ← BigEndian.pow_byte]
      calc value / 256 ^ size % 256 ^ (size * count) * 256 ^ size
          < 256 ^ (size * count) * 256 ^ size := Nat.mul_lt_mul_of_pos_right digits (Nat.pow_pos (by decide))
        _ = 256 ^ (size * (count + 1)) := by rw [← pow_add, step, Nat.add_comm]
        _ ≤ 256 ^ p.word := Nat.pow_le_pow_right (by decide) room
    have low : value % 256 ^ size < 2 ^ (size * 8) := by
      rw [Nat.mul_comm, ← BigEndian.pow_byte]
      exact Nat.mod_lt _ (Nat.pow_pos (by decide))
    rw [gathered] at high
    rw [gathered, List.range_succ, List.map_append, List.foldl_append, front, high, List.map_singleton, List.foldl_cons,
      List.foldl_nil, Nat.add_sub_cancel, Nat.sub_self, Nat.mul_zero, pow_zero, Nat.div_one, Nat.shiftLeft_eq,
      Nat.mod_eq_of_lt fits, ← Nat.shiftLeft_eq, ← Nat.shiftLeft_add_eq_or_of_lt low, Nat.shiftLeft_eq, step, pow_add,
      Nat.mod_mul, Nat.mul_comm size 8, ← BigEndian.pow_byte, Nat.mul_comm, Nat.add_comm]

theorem readFragments_eq (config : Bool) (format : UInt8) (stride : Int) {count : Nat} (place : Nat → Nat)
    (word : ∀ i < count, place i < p.wordMod) (moves : ∀ i, i + 1 < count → (place i + stride : Int) = place (i + 1)) :
    readFragments p config format stride count (place 0) =
      (List.range count).map fun i => cycleRead config (place i) format := by
  induction count generalizing place with
  | zero => rfl
  | succ count ih =>
    rw [readFragments, List.range_succ_eq_map, List.map_cons, List.map_map]
    congr 1
    cases count with
    | zero => rfl
    | succ count =>
      have inside := word 1 (by omega)
      have step : (place 0 + stride : Int) = place 1 := moves 0 (by omega)
      have next : ((place 0 + stride) % p.wordMod : Int).toNat = place 1 := by
        rw [step, Int.emod_eq_of_lt (by omega) (by omega), Int.toNat_natCast]
      rw [next]
      exact ih (fun i => place (i + 1)) (fun i below => word (i + 1) (by omega)) fun i below => moves (i + 1) (by omega)

def fragmentPlace (host : Host) (address size count i : Nat) : Nat := address + size * host.pick i (count - 1 - i)

theorem gathered_fragments (host : Host) (m : Mem) (address size count : Nat) (room : size * count ≤ p.word) :
    gathered p ((List.range count).map fun i =>
      (size, host.load (slice m (fragmentPlace host address size count i) size))) =
      host.load (slice m address (size * count)) := by
  have digits := gathered_digits p size room (host.load (slice m address (size * count)))
  have small := host.load_lt (slice m address (size * count))
  rw [length_slice] at small
  rw [Nat.mod_eq_of_lt small] at digits
  rw [← digits]
  congr 1
  apply List.map_congr_left
  intro i member
  have below := List.mem_range.mp member
  obtain ⟨rest, rfl⟩ := Nat.exists_eq_add_of_lt below
  have behind : i + rest + 1 - 1 - i = rest := by omega
  rw [fragmentPlace, behind]
  cases host with
  | big =>
    have part := load_part .big m address (size * i) size (size * rest)
    rw [show size * i + (size + size * rest) = size * (i + rest + 1) by ring] at part
    exact congrArg (size, ·) part.symm
  | little =>
    have part := load_part .little m address (size * rest) size (size * i)
    rw [show size * rest + (size + size * i) = size * (i + rest + 1) by ring] at part
    exact congrArg (size, ·) part.symm

/-- A plan prints the word at the address. An address the port cannot carry is refused by flush. -/
def Loads (p : Port) (order : Option Host) (plan : Plan) (address : Nat) (size : UInt8) : Prop :=
  ∀ native (s : Session Mem), plan.print p (memoryBus native) s size =
    if address < 2 ^ (8 * p.addr) then
      some ((order.getD native).load (slice (seen p native order s.bus) address size.toNat))
    else none

theorem masked {size : Nat} (inWord : size ≤ p.word) (value : Nat) :
    value &&& dataMask p size = value % 256 ^ size := by
  rw [dataMask_eq p inWord, Nat.and_two_pow_sub_one_eq_mod, BigEndian.pow_byte]

theorem gathered_one (size value : Nat) : gathered p [(size, value)] = value := by
  rw [gathered, List.foldl_cons, List.foldl_nil, Nat.zero_shiftLeft, Nat.zero_mod, Nat.zero_or]

variable (order : Option Host)

theorem part_loads {size wholeSize : UInt8} {address low high : Nat}
    (shift : Nat) (isWhole : IsSize wholeSize.toNat) (small : wholeSize.toNat ≤ p.data)
    (needed : wholeSize.toNat ≠ p.data → order ≠ none)
    (inWord : size.toNat ≤ p.word) (place : wholeSize.toNat = low + (size.toNat + high)) (below : low ≤ address)
    (aligned : wholeSize.toNat ∣ address - low) (positive : 0 < size.toNat)
    (cut : ∀ native, shift = (order.getD native).below low high) :
    Loads p order (.read [cycleRead false (address - low) (endianBits order ||| wholeSize)] shift) address size := by
  intro native s
  have sized := cycleRead_sized isWhole small needed aligned
  by_cases inside : address < 2 ^ (8 * p.addr)
  · have each : ∀ op ∈ [cycleRead false (address - low) (endianBits order ||| wholeSize)],
        Sized p order wholeSize.toNat op ∧ op.isWrite = false ∧ op.address < 2 ^ (8 * p.addr) := by
      intro op member
      rw [List.mem_singleton.mp member]
      exact ⟨sized, rfl, by simp only [cycleRead]; omega⟩
    have part := load_part (order.getD native) (seen p native order s.bus) (address - low) low size.toNat high
    rw [Nat.sub_add_cancel below, ← place] at part
    rw [print_read native each s, if_pos inside, List.map_singleton, gathered_one, masked p inWord,
      Nat.shiftRight_eq_div_pow,
      cut native, Nat.mul_comm, ← BigEndian.pow_byte]
    exact congrArg some part
  · have outside : 2 ^ (8 * p.addr) ≤ address - low := by
      by_contra inside'
      have room := add_le_of_dvd aligned (size_dvd_space p isWhole) (Nat.lt_of_not_le inside')
      omega
    rw [print_outside _ [] rfl outside, if_neg inside]

theorem direct_loads {size readSizes : UInt8} {address : Nat} (isSize : IsSize size.toNat)
    (picked : size &&& readSizes = size) (small : size.toNat ≤ p.data) (aligned : size.toNat ∣ address) :
    direct p false (endianBits order) size readSizes address = .refused ∨
      Loads p order (direct p false (endianBits order) size readSizes address) address size := by
  rw [direct, picked]
  by_cases missing : (endianBits order ||| size) &&& p.widths &&& ebDataX = 0 ∧
    (endianBits order ||| size) &&& ebEndianMask = 0
  · exact Or.inl (if_pos missing)
  rw [if_neg missing]
  have unshifted : ∀ native : Host, 0 = (order.getD native).below 0 0 := by
    intro native
    cases order.getD native <;> rfl
  exact Or.inr (part_loads p order 0 isSize small (endian_needed isSize missing) (small.trans p.data_le)
    (by omega) (Nat.zero_le _) aligned
    (by rcases isSize with h | h | h | h <;> omega) unshifted)

theorem fragment_loads {size readSizes fragmentSize : UInt8} {address : Nat}
    (complete : smear size ^^^ (smear size >>> 1) = size)
    (largest : smear (smear size &&& readSizes) ^^^ (smear (smear size &&& readSizes) >>> 1) = fragmentSize)
    (isSize : IsSize size.toNat) (isFragment : IsSize fragmentSize.toNat) (smaller : fragmentSize.toNat < size.toNat)
    (small : fragmentSize.toNat ≤ p.data) (inWord : size.toNat ≤ p.word) (word : address < p.wordMod)
    (aligned : size.toNat ∣ address) :
    fragment p false (endianBits order) size readSizes address = .refused ∨
      Loads p order (fragment p false (endianBits order) size readSizes address) address size := by
  obtain ⟨count, whole⟩ := size_dvd isFragment isSize smaller.le
  have positive : 0 < fragmentSize.toNat := by rcases isFragment with h | h | h | h <;> omega
  have bits := (formats_all p.data fragmentSize.toNat order p.data_size isFragment small).2.2.2
  rw [UInt8.ofNat_toNat] at bits
  have counted : size.toNat / fragmentSize.toNat = count := by rw [whole, Nat.mul_div_cancel_left _ positive]
  rw [fragment]
  simp only [complete, largest, bits, counted]
  rcases order with _ | host
  · exact Or.inl rfl
  have space : size.toNat ∣ p.wordMod := by
    obtain ⟨k, below, pow⟩ := isSize.exists_pow
    rw [pow, Port.wordMod]
    exact Nat.pow_dvd_pow 2 (by rcases p.word_size with h | h | h <;> omega)
  have room := add_le_of_dvd aligned space word
  rw [whole] at room
  have inside : ∀ i < count, fragmentSize.toNat * host.pick i (count - 1 - i) + fragmentSize.toNat ≤
      fragmentSize.toNat * count := by
    intro i below
    rw [← Nat.mul_succ]
    apply Nat.mul_le_mul_left
    cases host <;> simp only [Host.pick] <;> omega
  -- the loop, from the most significant fragment on
  have looped : ∀ stride : Int, (∀ i, i + 1 < count →
    (fragmentPlace host address fragmentSize.toNat count i + stride : Int) =
      fragmentPlace host address fragmentSize.toNat count (i + 1)) →
      Loads p (some host) (.read (readFragments p false (endianBits (some host) ||| fragmentSize) stride count
        (fragmentPlace host address fragmentSize.toNat count 0)) 0) address size := by
    intro stride moves native s
    rw [readFragments_eq p false _ stride _ (fun i below => by have := inside i below; rw [fragmentPlace]; omega) moves]
    by_cases reached : address < 2 ^ (8 * p.addr)
    · have end' := add_le_of_dvd aligned (size_dvd_space p isSize) reached
      rw [whole] at end'
      have each : ∀ op ∈ (List.range count).map fun i => cycleRead false
          (fragmentPlace host address fragmentSize.toNat count i) (endianBits (some host) ||| fragmentSize),
          Sized p (some host) fragmentSize.toNat op ∧ op.isWrite = false ∧ op.address < 2 ^ (8 * p.addr) := by
        intro op member
        obtain ⟨i, below, rfl⟩ := List.mem_map.mp member
        have last := inside i (List.mem_range.mp below)
        refine ⟨cycleRead_sized isFragment small (by simp) ?_, rfl, ?_⟩
        · rw [whole] at aligned
          exact Nat.dvd_add ((Nat.dvd_mul_right _ _).trans aligned) (Nat.dvd_mul_right _ _)
        · simp only [cycleRead, fragmentPlace]
          omega
      have gathers := gathered_fragments p host (seen p native (some host) s.bus) address fragmentSize.toNat count
        (by rwa [← whole])
      have value := host.load_lt (slice (seen p native (some host) s.bus) address size.toNat)
      rw [length_slice] at value
      rw [print_read native each s, if_pos reached, List.map_map]
      refine congrArg some ((congrArg (fun data => (data >>> (0 * 8)) &&& dataMask p size.toNat) gathers).trans ?_)
      rw [Nat.zero_mul, Nat.shiftRight_zero, masked p inWord, ← whole, Nat.mod_eq_of_lt value]
      rfl
    · cases count with
      | zero => omega
      | succ count =>
        rw [List.range_succ_eq_map, List.map_cons, if_neg reached]
        exact print_outside _ _ rfl (by simp only [cycleRead, fragmentPlace]; omega) s
  refine Or.inr ?_
  cases host with
  | big => exact looped fragmentSize.toNat fun i below => by simp only [fragmentPlace, Host.pick]; push_cast; ring
  | little =>
    have first : (address + fragmentSize.toNat * (count - 1)) % p.wordMod =
        fragmentPlace .little address fragmentSize.toNat count 0 := by
      have top : fragmentSize.toNat * (count - 1) + fragmentSize.toNat = fragmentSize.toNat * count := by
        cases count with
        | zero => omega
        | succ count => rfl
      rw [fragmentPlace, Host.pick, Nat.sub_zero, Nat.mod_eq_of_lt (by omega)]
    simp only [first]
    refine looped (-fragmentSize.toNat) fun i below => ?_
    obtain ⟨rest, rfl⟩ := Nat.exists_eq_add_of_lt below
    have here : i + 1 + rest + 1 - 1 - i = rest + 1 := by omega
    have next : i + 1 + rest + 1 - 1 - (i + 1) = rest := by omega
    simp only [fragmentPlace, Host.pick, here, next]
    push_cast
    ring

theorem wide_loads {size readSizes wholeSize : UInt8} {address : Nat}
    (complete : smear size ^^^ (smear size >>> 1) = size) (smallest : readSizes &&& (0 - readSizes) = wholeSize)
    (isSize : IsSize size.toNat) (isWhole : IsSize wholeSize.toNat) (wider : size.toNat < wholeSize.toNat)
    (small : wholeSize.toNat ≤ p.data) (inWord : size.toNat ≤ p.word) (word : address < p.wordMod)
    (aligned : size.toNat ∣ address) :
    wide p false (endianBits order) size readSizes address = .refused ∨
      Loads p order (wide p false (endianBits order) size readSizes address) address size := by
  have bits := (formats_all p.data wholeSize.toNat order p.data_size isWhole small).2.2.2.1
  rw [UInt8.ofNat_toNat] at bits
  have rounded := aligned_address p isWhole word
  have below := Nat.mod_le address wholeSize.toNat
  have back : address - (address - address % wholeSize.toNat) = address % wholeSize.toNat := by omega
  rw [wide]
  simp only [complete, smallest, bits, rounded, back]
  rcases order with _ | host
  · exact Or.inl rfl
  have loads := fun shift => part_loads p (some host) shift isWhole small (by simp) inWord
    (filled_place isSize isWhole wider aligned) below (Nat.dvd_sub_mod address)
    (by rcases isSize with h | h | h | h <;> omega)
  cases host with
  | big => exact Or.inr (loads _ fun _ => rfl)
  | little => exact Or.inr (loads _ fun _ => rfl)

theorem chosen_loads (fidelity : Bool) {size support : UInt8} {address : Nat}
    (sizes : size = 1 ∨ size = 2 ∨ size = 4 ∨ size = 8) (isSize : IsSize size.toNat) (inWord : size.toNat ≤ p.word)
    (word : address < p.wordMod) (aligned : size.toNat ∣ address) :
    chosen p false fidelity (endianBits order) size support address = .refused ∨
      Loads p order (chosen p false fidelity (endianBits order) size support address) address size := by
  rw [chosen]
  exact sizes_choice p sizes rfl fidelity (fun plan => plan = .refused ∨
    Loads p order plan address size) (fun _ => Or.inl rfl)
    (fun _ complete _ largest isFragment smaller small =>
      fragment_loads p order complete largest isSize isFragment smaller small inWord word aligned)
    (fun _ complete _ smallest isWhole wider small =>
      wide_loads p order complete smallest isSize isWhole wider small inWord word aligned)
    (fun _ picked small => direct_loads p order isSize picked small aligned)

theorem guards {size : UInt8} {address : Nat} (listed : ¬(size ≠ 1 ∧ size ≠ 2 ∧ size ≠ 4 ∧ size ≠ 8))
    (straight : ¬address &&& (size.toNat - 1) ≠ 0) :
    (size = 1 ∨ size = 2 ∨ size = 4 ∨ size = 8) ∧ IsSize size.toNat ∧ size.toNat ∣ address := by
  have sizes : size = 1 ∨ size = 2 ∨ size = 4 ∨ size = 8 := by tauto
  have isSize : IsSize size.toNat := by
    rcases sizes with h | h | h | h <;> rw [h] <;> decide
  obtain ⟨k, _, pow⟩ := isSize.exists_pow
  rw [pow, Nat.and_two_pow_sub_one_eq_mod, not_not] at straight
  exact ⟨sizes, isSize, by rw [pow]; exact Nat.dvd_of_mod_eq_zero straight⟩

section
variable {p : Port} {arguments : Arguments}

theorem ebRead_accepted (bus : arguments.config = false) (accepted : ebRead p arguments ≠ .refused) :
    Loads p (selected arguments) (ebRead p arguments) (arguments.address % p.wordMod) arguments.size := by
  have word : arguments.address % p.wordMod < p.wordMod := Nat.mod_lt _ (Nat.two_pow_pos _)
  revert accepted
  unfold ebRead
  cases known : deviceSupport arguments with
  | none =>
    simp only [ite_self]
    exact fun accepted => absurd rfl accepted
  | some support =>
    simp only [bus, selected_endian known]
    split_ifs with unlisted skew wide
    · exact fun accepted => absurd rfl accepted
    · exact fun accepted => absurd rfl accepted
    · exact fun accepted => absurd rfl accepted
    · obtain ⟨sizes, isSize, aligned⟩ := guards unlisted skew
      exact (chosen_loads p (selected arguments) arguments.fidelity sizes isSize (Nat.le_of_not_lt wide) word
        aligned).resolve_left

theorem ebWrite_accepted (bus : arguments.config = false) {plan : EbWrite.Plan}
    (planned : ebWrite p arguments = some plan)
    (accepted : plan ≠ .refused) : arguments.data % p.wordMod < 256 ^ arguments.size.toNat ∧
      Stores p (selected arguments) plan (arguments.address % p.wordMod) arguments.size.toNat
        (arguments.data % p.wordMod) := by
  have word : arguments.address % p.wordMod < p.wordMod := Nat.mod_lt _ (Nat.two_pow_pos _)
  unfold ebWrite at planned
  cases known : deviceSupport arguments with
  | none =>
    simp only [known, ite_self] at planned
    exact absurd (Option.some.inj planned).symm accepted
  | some support =>
    simp only [known, bus, selected_endian known] at planned
    split_ifs at planned with unlisted skew wide cut
    · exact absurd (Option.some.inj planned).symm accepted
    · exact absurd (Option.some.inj planned).symm accepted
    · exact absurd (Option.some.inj planned).symm accepted
    · exact absurd (Option.some.inj planned).symm accepted
    · obtain ⟨sizes, isSize, aligned⟩ := guards unlisted skew
      have inWord := Nat.le_of_not_lt wide
      have fits : arguments.data % p.wordMod < 256 ^ arguments.size.toNat := by
        rw [masked p inWord, not_not] at cut
        rw [← cut]
        exact Nat.mod_lt _ (Nat.pow_pos (by decide))
      obtain ⟨plan', chosen', stores⟩ := chosen_stores p (selected arguments) arguments.fidelity sizes
        isSize inWord word aligned fits
      cases planned.symm.trans chosen'
      exact ⟨fits, stores.resolve_left accepted⟩

end

/-- Whatever way of reading the tool chooses, it prints what the bytes at the address are in the
selected byte order. -/
theorem ebRead_loads (arguments : Arguments) (bus : arguments.config = false) :
    ebRead p arguments = .refused ∨
      Loads p (selected arguments) (ebRead p arguments) (arguments.address % p.wordMod) arguments.size := by
  by_cases refused : ebRead p arguments = .refused
  · exact Or.inl refused
  · exact Or.inr (ebRead_accepted bus refused)

theorem ebRead_loads_lastByte : ebRead Port.wishbone32 lastByte = .read [cycleRead false 0x1000 0x14] 0 ∧
    Loads Port.wishbone32 (some .big) (ebRead Port.wishbone32 lastByte) 0x1003 1 := by
  have way : ebRead Port.wishbone32 lastByte = .read [cycleRead false 0x1000 0x14] 0 := rfl
  exact ⟨way, (ebRead_loads Port.wishbone32 lastByte rfl).resolve_left (by rw [way]; exact Plan.noConfusion)⟩

/-- What one call of `eb-write` leaves, a call of `eb-read` for the same bytes in the same byte
order prints, each with its own way to the device. -/
theorem ebRead_ebWrite (writer reader : Arguments) (writes : writer.config = false) (reads : reader.config = false)
    (address : reader.address = writer.address) (size : reader.size = writer.size)
    (order : selected reader = selected writer)
    (plan : EbWrite.Plan) (planned : ebWrite p writer = some plan) (accepted : plan ≠ .refused)
    (accepted' : ebRead p reader ≠ .refused) (inside : writer.address % p.wordMod < 2 ^ (8 * p.addr)) (native : Host)
    (s : Session Mem) :
    (ebRead p reader).print p (memoryBus native) (plan.run p (memoryBus native) s) reader.size =
      some (writer.data % p.wordMod) := by
  obtain ⟨fits, stores⟩ := ebWrite_accepted writes planned accepted
  have loads := ebRead_accepted reads accepted' native (plan.run p (memoryBus native) s)
  have stored := stores native s
  rw [if_pos inside] at stored
  have back := slice_store (seen p native (selected writer) s.bus) (writer.address % p.wordMod)
    (((selected writer).getD native).store writer.size.toNat (writer.data % p.wordMod))
  rw [Host.length_store] at back
  rw [loads, address, size, order, if_pos inside, stored, back, Host.load_store _ fits]

def unprobed : Arguments := ⟨0x1003, 1, 0, some .big, .off, false, false⟩

theorem ebRead_ebWrite_lastByte : ∃ plan, ebWrite Port.wishbone32 lastByte = some plan ∧
    (ebRead Port.wishbone32 unprobed).print Port.wishbone32 (memoryBus .big)
      (plan.run Port.wishbone32 (memoryBus .big) ⟨fun _ => 0, 0, false, []⟩) 1 = some 0x5a :=
  ⟨_, rfl, ebRead_ebWrite Port.wishbone32 lastByte unprobed rfl rfl rfl rfl rfl _ rfl EbWrite.Plan.noConfusion
    Plan.noConfusion (by decide) .big ⟨fun _ => 0, 0, false, []⟩⟩

end BelProject.Tools.EbRead
