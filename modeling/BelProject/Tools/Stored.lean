import BelProject.Tools.EbWrite

/-! The three ways of `eb-write`, each of which leaves the memory as one write of the whole size
does. -/

namespace BelProject.Tools.EbWrite
open BelProject.Library Memory Etherbone Width Operations Execute Requests

variable (p : Port)

/-! ### The fragments -/

section
variable (p : Port) (config : Bool) (format fragmentSize : UInt8) (data : Nat) (shiftStep : Int)

/-- The write of fragment `i`. -/
def fragmentOp (address : Nat) (shift : Int) (i : Nat) : Operation :=
  cycleWrite config ((address + fragmentSize.toNat * i) % p.wordMod) format
    ((data >>> (shift + shiftStep * i).toNat) &&& dataMask p fragmentSize.toNat)

theorem writeFragments_eq (positive : 0 < fragmentSize.toNat) {count fuel : Nat}
    (short : fragmentSize.toNat * count < p.wordMod) (enough : count < fuel) {address : Nat}
    (word : address < p.wordMod)
    (shift : Int) :
    writeFragments p config format fragmentSize data ((address + fragmentSize.toNat * count) % p.wordMod) shiftStep fuel
        address shift =
      some ((List.range count).map (fragmentOp p config format fragmentSize data shiftStep address shift)) := by
  induction count generalizing fuel address shift with
  | zero =>
    obtain ⟨fuel, rfl⟩ := Nat.exists_eq_succ_of_ne_zero (Nat.ne_zero_of_lt enough)
    rw [writeFragments, Nat.mul_zero, Nat.add_zero, Nat.mod_eq_of_lt word, if_pos rfl]
    rfl
  | succ count ih =>
    obtain ⟨fuel, rfl⟩ := Nat.exists_eq_succ_of_ne_zero (Nat.ne_zero_of_lt enough)
    have step : fragmentSize.toNat * (count + 1) = fragmentSize.toNat * count + fragmentSize.toNat := Nat.mul_succ _ _
    have moved : ¬address = (address + fragmentSize.toNat * (count + 1)) % p.wordMod := by
      intro same
      rcases Nat.lt_or_ge (address + fragmentSize.toNat * (count + 1)) p.wordMod with inside | wraps
      · rw [Nat.mod_eq_of_lt inside] at same
        omega
      · rw [Nat.mod_eq_sub_mod wraps, Nat.mod_eq_of_lt (by omega)] at same
        omega
    have rest := ih (by omega) (Nat.lt_of_succ_lt_succ enough)
      (Nat.mod_lt (address + fragmentSize.toNat) (by omega : 0 < p.wordMod)) (shift + shiftStep)
    rw [Nat.mod_add_mod, show address + fragmentSize.toNat + fragmentSize.toNat * count =
      address + fragmentSize.toNat * (count + 1) by omega] at rest
    rw [writeFragments, if_neg moved]
    simp only [rest, Option.map_some]
    rw [List.range_succ_eq_map, List.map_cons, List.map_map]
    congr 2
    · rw [fragmentOp, Nat.mul_zero, Nat.add_zero, Nat.mod_eq_of_lt word]
      simp
    · apply List.map_congr_left
      intro i _
      rw [Function.comp_apply, fragmentOp, fragmentOp, Nat.mod_add_mod, Nat.mul_succ]
      congr 2
      · omega
      · congr 2
        push_cast
        ring

end

/-! ### The three ways to write -/

/-- A plan leaves the memory as one write of the whole size does. An address the port
cannot carry is refused by flush, and then nothing is written at all. -/
def Stores (p : Port) (order : Option Host) (plan : Plan) (address size data : Nat) : Prop :=
  ∀ native (s : Session Mem), seen p native order (plan.run p (memoryBus native) s).bus =
    if address < 2 ^ (8 * p.addr) then
      store (seen p native order s.bus) address ((order.getD native).store size data)
    else seen p native order s.bus

variable {address data : Nat}

theorem cycleWrite_sized {p : Port} {order : Option Host} {size : UInt8} (isSize : IsSize size.toNat)
    (small : size.toNat ≤ p.data) (needed : size.toNat ≠ p.data → order ≠ none)
    (aligned : size.toNat ∣ address) (fits : data < 256 ^ size.toNat) :
    Sized p order size.toNat (cycleWrite false address (endianBits order ||| size) data) :=
  ⟨by rw [UInt8.ofNat_toNat]; rfl, isSize, small, needed, rfl, aligned, fun _ => fits⟩

theorem runCycle_nil_outside {p : Port} {σ : Type} (bus : Bus σ) {format : UInt8} (ops : List Operation)
    (outside : ¬address < 2 ^ (8 * p.addr)) (s : Session σ) :
    runCycle p bus s (cycleWrite false address format data :: ops) = none :=
  runCycle_outside bus ops rfl (Nat.le_of_not_lt outside) s

/-- A size below that of the port, with no byte order. -/
theorem endian_missing {p : Port} {order : Option Host} {size : UInt8} (isSize : IsSize size.toNat) :
    ((endianBits order ||| size) &&& p.widths &&& ebDataX = 0 ∧ (endianBits order ||| size) &&& ebEndianMask = 0) ↔
      size.toNat ≠ p.data ∧ order = none := by
  have table : ∀ size ∈ [1, 2, 4, 8], ∀ data ∈ [1, 2, 4, 8], ∀ order ∈ [none, some Host.big, some Host.little],
      ((endianBits order ||| UInt8.ofNat size) &&& UInt8.ofNat data = 0 ∧
        (endianBits order ||| UInt8.ofNat size) &&& ebEndianMask = 0) ↔
        size ≠ data ∧ order = none := by decide
  have listed : order ∈ [none, some Host.big, some Host.little] := by
    rcases order with _ | _ | _ <;> simp
  have row := table size.toNat (by simpa [IsSize] using isSize) p.data
    (by simpa [IsSize] using p.data_size) order listed
  rw [UInt8.ofNat_toNat] at row
  rw [UInt8.and_assoc, widths_data]
  exact row

theorem endian_needed {p : Port} {order : Option Host} {size : UInt8} (isSize : IsSize size.toNat)
    (given : ¬((endianBits order ||| size) &&& p.widths &&& ebDataX = 0 ∧
      (endianBits order ||| size) &&& ebEndianMask = 0)) :
    size.toNat ≠ p.data → order ≠ none := fun sub none => given ((endian_missing isSize).mpr ⟨sub, none⟩)

theorem direct_stores (order : Option Host) {size writeSizes : UInt8}
    (isSize : IsSize size.toNat) (picked : size &&& writeSizes = size) (small : size.toNat ≤ p.data)
    (aligned : size.toNat ∣ address) (fits : data < 256 ^ size.toNat) :
    direct p false (endianBits order) size writeSizes address data = .refused ∨
      Stores p order (direct p false (endianBits order) size writeSizes address data) address size.toNat data := by
  rw [direct, picked]
  by_cases missing : (endianBits order ||| size) &&& p.widths &&& ebDataX = 0 ∧
    (endianBits order ||| size) &&& ebEndianMask = 0
  · exact Or.inl (if_pos missing)
  rw [if_neg missing]
  refine Or.inr fun native s => ?_
  have sized := cycleWrite_sized isSize small (endian_needed isSize missing) aligned fits
  rw [Plan.run]
  by_cases inside : address < 2 ^ (8 * p.addr)
  · have each : ∀ op ∈ [cycleWrite false address (endianBits order ||| size) data],
        Sized p order size.toNat op ∧ op.isWrite = true ∧ op.address < 2 ^ (8 * p.addr) := by
      simpa using ⟨sized, rfl, inside⟩
    obtain ⟨s', values, ran, written⟩ := runCycle_writes native each s
    rw [ran, if_pos inside]
    exact written
  · rw [runCycle_nil_outside _ _ inside, if_neg inside]

section
variable {p : Port} {order : Option Host} {size fragmentSize : UInt8} {address data : Nat}

/-- The way the shift of the fragments moves is the order of the narrower words in the wide one. -/
def fragmentShift (order : Host) (fragmentSize count : Nat) : Int × Int :=
  order.pick (((count - 1) * fragmentSize * 8 : Nat), -(fragmentSize * 8)) (0, fragmentSize * 8)

theorem fragmentShift_rank (order : Host) (fragmentSize : Nat) {count i : Nat} (below : i < count) :
    ((fragmentShift order fragmentSize count).1 + (fragmentShift order fragmentSize count).2 * i).toNat =
      8 * (fragmentSize * order.rank count i) := by
  cases order with
  | big =>
    obtain ⟨rest, rfl⟩ := Nat.exists_eq_add_of_lt below
    have more : i + rest - i = rest := by omega
    have total : i + rest + 1 - 1 = i + rest := by omega
    simp only [fragmentShift, Host.pick, Host.rank, total, more]
    have value : (((i + rest) * fragmentSize * 8 : Nat) : Int) + -((fragmentSize : Int) * 8) * (i : Int) =
        ((8 * (fragmentSize * rest) : Nat) : Int) := by
      push_cast
      ring
    rw [value, Int.toNat_natCast]
  | little =>
    simp only [fragmentShift, Host.pick, Host.rank, zero_add]
    have value : ((fragmentSize : Int) * 8) * (i : Int) = ((8 * (fragmentSize * i) : Nat) : Int) := by
      push_cast
      ring
    rw [value, Int.toNat_natCast]

theorem fragments_store (host : Host) (m : Mem) (address size count data : Nat) :
    ((List.range count).map fun i => (address + size * i,
      (data >>> (8 * (size * host.rank count i))) % 256 ^ size)).foldl
        (fun m write => store m write.1 (host.store size write.2)) m =
      store m address (host.store (size * count) data) := by
  rw [List.foldl_map]
  have word : ∀ i, host.store size ((data >>> (8 * (size * host.rank count i))) % 256 ^ size) =
      host.store size (data / 256 ^ (size * host.rank count i)) := by
    intro i
    rw [Host.store_mod, Nat.shiftRight_eq_div_pow, BigEndian.pow_byte]
  simp only [word]
  rw [foldl_store m address size count (fun i => host.store size (data / 256 ^ (size * host.rank count i)))
    (fun i _ => host.length_store _ _), host.store_words]

end

theorem size_dvd_space {size : Nat} (isSize : IsSize size) : size ∣ 2 ^ (8 * p.addr) := by
  obtain ⟨k, small, rfl⟩ := isSize.exists_pow
  apply Nat.pow_dvd_pow
  rcases p.addr_size with h | h | h | h <;> omega

theorem add_le_of_dvd {size address space : Nat} (aligned : size ∣ address) (whole : size ∣ space)
    (inside : address < space) :
    address + size ≤ space := by
  obtain ⟨k, rfl⟩ := aligned
  obtain ⟨n, rfl⟩ := whole
  have fewer : k < n := Nat.lt_of_mul_lt_mul_left inside
  calc size * k + size = size * (k + 1) := by ring
    _ ≤ size * n := Nat.mul_le_mul_left _ fewer

theorem space_le_wordMod : 2 ^ (8 * p.addr) ≤ p.wordMod :=
  Nat.pow_le_pow_right (by decide) (Nat.mul_le_mul_left 8 p.addr_le)

theorem fragments_stores (host : Host) (data : Nat) {fragmentSize : UInt8} {count address : Nat}
    (isSize : IsSize (fragmentSize.toNat * count)) (isFragment : IsSize fragmentSize.toNat)
    (small : fragmentSize.toNat ≤ p.data) (word : address < p.wordMod)
    (aligned : fragmentSize.toNat * count ∣ address) :
    Stores p (some host)
      (.write ((List.range count).map (fragmentOp p false (endianBits (some host) ||| fragmentSize) fragmentSize data
        (fragmentShift host fragmentSize.toNat count).2 address (fragmentShift host fragmentSize.toNat count).1)))
      address (fragmentSize.toNat * count) data := by
  intro native s
  rw [Plan.run]
  by_cases inside : address < 2 ^ (8 * p.addr)
  · have room := add_le_of_dvd aligned (size_dvd_space p isSize) inside
    have space := space_le_wordMod p
    have place : ∀ i < count, (address + fragmentSize.toNat * i) % p.wordMod = address + fragmentSize.toNat * i ∧
        address + fragmentSize.toNat * i < 2 ^ (8 * p.addr) := by
      intro i below
      have earlier : fragmentSize.toNat * i < fragmentSize.toNat * count :=
        Nat.mul_lt_mul_of_pos_left below (by rcases isFragment with h | h | h | h <;> omega)
      exact ⟨Nat.mod_eq_of_lt (by omega), by omega⟩
    have value : ∀ i < count, ((data >>> ((fragmentShift host fragmentSize.toNat count).1 +
        (fragmentShift host fragmentSize.toNat count).2 * i).toNat) &&& dataMask p fragmentSize.toNat) =
        (data >>> (8 * (fragmentSize.toNat * host.rank count i))) % 256 ^ fragmentSize.toNat := by
      intro i below
      rw [fragmentShift_rank host _ below, dataMask_eq p (small.trans p.data_le), Nat.and_two_pow_sub_one_eq_mod,
        BigEndian.pow_byte]
    have each : ∀ op ∈ (List.range count).map
      (fragmentOp p false (endianBits (some host) ||| fragmentSize) fragmentSize data
        (fragmentShift host fragmentSize.toNat count).2 address (fragmentShift host fragmentSize.toNat count).1),
        Sized p (some host) fragmentSize.toNat op ∧ op.isWrite = true ∧ op.address < 2 ^ (8 * p.addr) := by
      intro op member
      obtain ⟨i, below, rfl⟩ := List.mem_map.mp member
      have below := List.mem_range.mp below
      obtain ⟨same, low⟩ := place i below
      rw [fragmentOp, same, value i below]
      refine ⟨cycleWrite_sized isFragment small (by simp) ?_ (Nat.mod_lt _ (by positivity)), rfl, low⟩
      exact Nat.dvd_add ((Nat.dvd_mul_right _ _).trans aligned) (Nat.dvd_mul_right _ _)
    obtain ⟨s', values, ran, written⟩ := runCycle_writes native each s
    rw [ran, if_pos inside]
    simp only []
    rw [written, Option.getD_some, ← fragments_store, List.foldl_map, List.foldl_map]
    apply List.foldl_ext
    intro m i member
    have below := List.mem_range.mp member
    simp only [fragmentOp, cycleWrite, (place i below).1, value i below]
  · have some : 0 < count := by
      rcases Nat.eq_zero_or_pos count with rfl | some
      · rcases isSize with h | h | h | h <;> omega
      · exact some
    obtain ⟨rest, rfl⟩ := Nat.exists_eq_succ_of_ne_zero some.ne'
    have first : (fragmentOp p false (endianBits (Option.some host) ||| fragmentSize) fragmentSize data
        (fragmentShift host fragmentSize.toNat (rest + 1)).2 address
        (fragmentShift host fragmentSize.toNat (rest + 1)).1 0).address = address := by
      rw [fragmentOp, cycleWrite, Nat.mul_zero, Nat.add_zero, Nat.mod_eq_of_lt word]
    rw [List.range_succ_eq_map, List.map_cons, runCycle_outside _ _ rfl (by rw [first]; omega), if_neg inside]

theorem fragment_stores (order : Option Host) {size writeSizes fragmentSize : UInt8}
    (complete : smear size ^^^ (smear size >>> 1) = size)
    (largest : smear (smear size &&& writeSizes) ^^^ (smear (smear size &&& writeSizes) >>> 1) = fragmentSize)
    (isSize : IsSize size.toNat) (isFragment : IsSize fragmentSize.toNat) (smaller : fragmentSize.toNat < size.toNat)
    (small : fragmentSize.toNat ≤ p.data) (inWord : size.toNat ≤ p.word) (word : address < p.wordMod)
    (aligned : size.toNat ∣ address) :
    ∃ plan, fragment p false (endianBits order) size writeSizes address data = some plan ∧
      (plan = .refused ∨ Stores p order plan address size.toNat data) := by
  obtain ⟨count, whole⟩ := size_dvd isFragment isSize smaller.le
  have positive : 0 < fragmentSize.toNat := by rcases isFragment with h | h | h | h <;> omega
  have bits := (formats_all p.data fragmentSize.toNat order p.data_size isFragment small).2.2.2.1
  rw [UInt8.ofNat_toNat] at bits
  have room : p.word < p.wordMod := by
    rw [Port.wordMod]
    exact lt_of_le_of_lt (by omega) Nat.lt_two_pow_self
  have fewer : count < size.toNat + 1 := by
    rw [whole]
    exact Nat.lt_succ_of_le (Nat.le_mul_of_pos_left count positive)
  have some : 0 < count := by
    rcases Nat.eq_zero_or_pos count with rfl | some
    · omega
    · exact some
  have looped : ∀ step shift, writeFragments p false (endianBits order ||| fragmentSize) fragmentSize data
      ((address + size.toNat) % p.wordMod) step (size.toNat + 1) address shift =
        Option.some ((List.range count).map (fragmentOp p false
          (endianBits order ||| fragmentSize) fragmentSize data step address
          shift)) := by
    intro step shift
    have ends := writeFragments_eq p false (endianBits order ||| fragmentSize) fragmentSize data step positive
      (by rw [← whole]; omega) fewer word shift
    rwa [← whole] at ends
  have stores := fun host => fragments_stores p host data (by rwa [← whole]) isFragment small word (by rwa [← whole])
  rw [← whole] at stores
  rw [fragment]
  simp only [complete, largest, bits, looped, Option.map_some]
  rcases order with _ | _ | _
  · exact ⟨.refused, rfl, Or.inl rfl⟩
  · have start : (((size.toNat - fragmentSize.toNat) * 8 : Nat) : Int) =
      (fragmentShift .big fragmentSize.toNat count).1 := by
      rw [fragmentShift, Host.pick, whole, Nat.sub_one_mul, Nat.mul_comm count]
    rw [start]
    exact ⟨_, rfl, Or.inr (stores .big)⟩
  · exact ⟨_, rfl, Or.inr (stores .little)⟩

theorem filled_place {size whole address : Nat} (isSize : IsSize size) (isWhole : IsSize whole) (smaller : size < whole)
    (aligned : size ∣ address) :
    whole = address % whole + (size + (whole - size - address % whole)) := by
  have dvd := size_dvd isSize isWhole smaller.le
  have room := add_le_of_dvd ((Nat.dvd_mod_iff dvd).mpr aligned) dvd
    (Nat.mod_lt address (by rcases isWhole with h | h | h | h <;> omega))
  omega

theorem filled_value (host : Host) (before middle after : List UInt8) {data : Nat}
    (fits : data < 256 ^ middle.length) (room : before.length + (middle.length + after.length) ≤ p.word) :
    (data <<< (host.below before.length after.length * 8)) % p.wordMod |||
        (host.load (before ++ (middle ++ after)) &&& ((p.wordMod - 1) ^^^
          ((dataMask p middle.length <<< (host.below before.length after.length * 8)) % p.wordMod))) =
      host.load (before ++ (host.store middle.length data ++ after)) := by
  have shift : host.below before.length after.length + middle.length ≤ p.word := by
    rw [Host.below]
    cases host <;> simp only [Host.pick] <;> omega
  have kept : ∀ value, value < 256 ^ middle.length →
      (value <<< (host.below before.length after.length * 8)) % p.wordMod =
        value <<< (8 * host.below before.length after.length) := by
    intro value small
    rw [Nat.mul_comm _ 8]
    apply Nat.mod_eq_of_lt
    rw [Nat.shiftLeft_eq, Port.wordMod, Nat.mul_comm]
    rw [BigEndian.pow_byte] at small
    calc 2 ^ (8 * host.below before.length after.length) * value
        < 2 ^ (8 * host.below before.length after.length) * 2 ^ (8 * middle.length) :=
          Nat.mul_lt_mul_of_pos_left small (Nat.two_pow_pos _)
      _ = 2 ^ (8 * (host.below before.length after.length + middle.length)) := by rw [← pow_add, Nat.mul_add]
      _ ≤ 2 ^ (8 * p.word) := Nat.pow_le_pow_right (by decide) (by omega)
  have mask : 2 ^ (8 * middle.length) - 1 < 256 ^ middle.length := by
    rw [BigEndian.pow_byte]
    exact Nat.sub_lt (Nat.two_pow_pos _) Nat.one_pos
  rw [dataMask_eq p (by omega), kept data fits, kept _ mask, Port.wordMod]
  exact host.load_merge before middle after fits (by omega)

theorem filled_stores (host : Host) {size wholeSize : UInt8}
    (isSize : IsSize size.toNat) (isWhole : IsSize wholeSize.toNat) (wider : size.toNat < wholeSize.toNat)
    (small : wholeSize.toNat ≤ p.data) (aligned : size.toNat ∣ address) (fits : data < 256 ^ size.toNat) :
    Stores p (some host)
      (.fill (cycleRead false (address - address % wholeSize.toNat) (endianBits (some host) ||| wholeSize))
        (fun original =>
          let shift := host.below (address % wholeSize.toNat) (wholeSize.toNat - size.toNat - address % wholeSize.toNat)
          cycleWrite false (address - address % wholeSize.toNat) (endianBits (some host) ||| wholeSize)
            ((data <<< (shift * 8)) % p.wordMod |||
              (original &&& ((p.wordMod - 1) ^^^ ((dataMask p size.toNat <<< (shift * 8)) % p.wordMod))))))
      address size.toNat data := by
  intro native s
  have place := filled_place isSize isWhole wider aligned
  have below := Nat.mod_le address wholeSize.toNat
  set low := address % wholeSize.toNat with low_eq
  set high := wholeSize.toNat - size.toNat - low with high_eq
  set v := seen p native (some host) s.bus with v_eq
  have wholeAligned : wholeSize.toNat ∣ address - low := Nat.dvd_sub_mod address
  have read : Sized p (some host) wholeSize.toNat
      (cycleRead false (address - low) (endianBits (some host) ||| wholeSize)) :=
    ⟨by rw [UInt8.ofNat_toNat]; rfl, isWhole, small, by simp, rfl, wholeAligned, by simp [cycleRead, Operation.isWrite]⟩
  rw [Plan.run]
  by_cases inside : address < 2 ^ (8 * p.addr)
  · obtain ⟨s', ran, kept⟩ := runCycle_read native read rfl (by simp only [cycleRead]; omega) s
    have before := length_slice v (address - low) low
    have middle := length_slice v (address - low + low) size.toNat
    have after := length_slice v (address - low + low + size.toNat) high
    have parts : slice v (address - low) wholeSize.toNat =
        slice v (address - low) low ++ (slice v (address - low + low) size.toNat ++
          slice v (address - low + low + size.toNat) high) := by
      rw [place, slice_add, slice_add]
    have value := filled_value p host (slice v (address - low) low) (slice v (address - low + low) size.toNat)
      (slice v (address - low + low + size.toNat) high) (by rwa [middle])
      (by rw [before, middle, after]; have := p.data_le; omega)
    rw [before, middle, after, ← parts] at value
    set filled := slice v (address - low) low ++ (host.store size.toNat data ++
      slice v (address - low + low + size.toNat) high) with filled_eq
    have length : filled.length = wholeSize.toNat := by
      rw [filled_eq, List.length_append, List.length_append, before, after, host.length_store]
      exact place.symm
    have each : ∀ op ∈ [cycleWrite false (address - low) (endianBits (some host) ||| wholeSize) (host.load filled)],
        Sized p (some host) wholeSize.toNat op ∧ op.isWrite = true ∧ op.address < 2 ^ (8 * p.addr) := by
      have fits' : host.load filled < 256 ^ wholeSize.toNat := by
        rw [← length]
        exact host.load_lt filled
      intro op member
      rw [List.mem_singleton] at member
      rw [member]
      exact ⟨cycleWrite_sized isWhole small (by simp) wholeAligned fits', rfl, by simp only [cycleWrite]; omega⟩
    obtain ⟨s'', values, ran', written⟩ := runCycle_writes native each s'
    have wrote : seen p native (some host) s''.bus = store v address (host.store size.toNat data) := by
      rw [written, kept, List.foldl_cons, List.foldl_nil, Option.getD_some]
      simp only [cycleWrite]
      have merged := store_middle v (address - low) low high (host.store size.toNat data)
      rw [host.length_store] at merged
      rw [← length, host.store_load, filled_eq, merged, Nat.sub_add_cancel below]
    have original : runCycle p (memoryBus native) s
        [cycleRead false (address - low) (endianBits (some host) ||| wholeSize)] =
          some (s', [host.load (slice v (address - low) wholeSize.toNat)]) := ran
    simp only [original, value, ran', if_pos inside]
    exact wrote
  · have outside : ¬address - low < 2 ^ (8 * p.addr) := by
      intro inside'
      have room := add_le_of_dvd wholeAligned (size_dvd_space p isWhole) inside'
      have positive : 0 < size.toNat := by rcases isSize with h | h | h | h <;> omega
      omega
    rw [runCycle_outside _ _ rfl (Nat.le_of_not_lt outside), if_neg inside]

theorem aligned_address {size address : Nat} (isSize : IsSize size) (word : address < p.wordMod) :
    address &&& (p.wordMod - 1 - (size - 1)) = address - address % size := by
  obtain ⟨k, most, pow⟩ := isSize.exists_pow
  have ordered : k ≤ 8 * p.word := by rcases p.word_size with h | h | h <;> omega
  have positive := Nat.two_pow_pos k
  have mask : 2 ^ (8 * p.word) - 1 - (2 ^ k - 1) = 2 ^ (8 * p.word) - 2 ^ k := by omega
  rw [Port.wordMod] at word ⊢
  rw [pow, mask, Bits.and_mask_range address ordered, Nat.mod_eq_of_lt word]

theorem fill_stores (order : Option Host) {size writeSizes wholeSize : UInt8}
    (complete : smear size ^^^ (smear size >>> 1) = size) (smallest : writeSizes &&& (0 - writeSizes) = wholeSize)
    (isSize : IsSize size.toNat) (isWhole : IsSize wholeSize.toNat) (wider : size.toNat < wholeSize.toNat)
    (small : wholeSize.toNat ≤ p.data) (word : address < p.wordMod) (aligned : size.toNat ∣ address)
    (fits : data < 256 ^ size.toNat) :
    fill p false (endianBits order) size writeSizes address data = .refused ∨
      Stores p order (fill p false (endianBits order) size writeSizes address data) address size.toNat data := by
  have bits := (formats_all p.data wholeSize.toNat order p.data_size isWhole small).2.2.2.1
  rw [UInt8.ofNat_toNat] at bits
  have rounded := aligned_address p isWhole word
  have back : address - (address - address % wholeSize.toNat) = address % wholeSize.toNat := by
    have below := Nat.mod_le address wholeSize.toNat
    omega
  rw [fill]
  simp only [complete, smallest, bits, rounded, back]
  rcases order with _ | host
  · exact Or.inl rfl
  · have stores := filled_stores p host isSize isWhole wider small aligned fits
    cases host with
    | big => exact Or.inr stores
    | little => exact Or.inr stores

/-! ### The whole tool -/

theorem selected_endian {arguments : Arguments} {support : UInt8} (known : deviceSupport arguments = some support) :
    (if endianBits arguments.endian = 0 then support &&& ebEndianMask else endianBits arguments.endian) =
      endianBits (selected arguments) := by
  have masked : ∀ order : Option Host, ∀ sizes : UInt8,
      (endianBits order ||| (sizes &&& ebDataX)) &&& ebEndianMask = endianBits order := by
    intro order
    rcases order with _ | _ | _
    · exact forall_byte (by decide)
    · exact forall_byte (by decide)
    · exact forall_byte (by decide)
  rw [deviceSupport] at known
  rw [selected]
  cases endian : arguments.endian with
  | some order =>
    rw [if_neg (endianBits_known (by simp)).2]
  | none =>
    rw [if_pos (show endianBits none = 0 from rfl)]
    rw [endian] at known
    cases probe : arguments.probe with
    | off =>
      rw [probe] at known
      cases known
      exact masked none ebDataX
    | failed =>
      rw [probe] at known
      cases known
    | found busSpecific =>
      rw [probe] at known
      cases known
      simp only []
      by_cases little : busSpecific &&& sdbWishboneLittleEndian ≠ 0
      · rw [if_pos little, if_pos little]
        exact masked (some .little) busSpecific.toUInt8
      · rw [if_neg little, if_neg little]
        exact masked (some .big) busSpecific.toUInt8

theorem chosen_stores (order : Option Host) (fidelity : Bool) {size support : UInt8}
    (sizes : size = 1 ∨ size = 2 ∨ size = 4 ∨ size = 8) (isSize : IsSize size.toNat) (inWord : size.toNat ≤ p.word)
    (word : address < p.wordMod) (aligned : size.toNat ∣ address) (fits : data < 256 ^ size.toNat) :
    ∃ plan, chosen p false fidelity (endianBits order) size support address data = some plan ∧
      (plan = .refused ∨ Stores p order plan address size.toNat data) := by
  rw [chosen]
  exact sizes_choice p sizes rfl fidelity
    (fun planned => ∃ plan, planned = some plan ∧ (plan = .refused ∨ Stores p order plan address size.toNat data))
    (fun _ => ⟨.refused, rfl, Or.inl rfl⟩)
    (fun _ complete _ largest isFragment smaller small =>
      fragment_stores p order complete largest isSize isFragment smaller small inWord word aligned)
    (fun _ complete _ smallest isWhole wider small =>
      ⟨_, rfl, fill_stores p order complete smallest isSize isWhole wider small word aligned fits⟩)
    (fun _ picked small => ⟨_, rfl, direct_stores p order isSize picked small aligned fits⟩)

/-- Whatever way of writing the tool chooses, the bytes at the address hold the data in the
selected byte order and every other byte is as before. -/
theorem ebWrite_stores (p : Port) (arguments : Arguments) (bus : arguments.config = false) :
    ∃ plan, ebWrite p arguments = some plan ∧ (plan = .refused ∨
      Stores p (selected arguments) plan (arguments.address % p.wordMod) arguments.size.toNat
        (arguments.data % p.wordMod)) := by
  have word : arguments.address % p.wordMod < p.wordMod := Nat.mod_lt _ (Nat.two_pow_pos _)
  unfold ebWrite
  simp only [bus]
  by_cases odd : arguments.size ≠ 1 ∧ arguments.size ≠ 2 ∧ arguments.size ≠ 4 ∧ arguments.size ≠ 8
  · exact ⟨.refused, if_pos odd, Or.inl rfl⟩
  have size : arguments.size = 1 ∨ arguments.size = 2 ∨ arguments.size = 4 ∨ arguments.size = 8 := by tauto
  have isSize : IsSize arguments.size.toNat := by
    rcases size with h | h | h | h <;> rw [h] <;> decide
  simp only [if_neg odd]
  by_cases skew : arguments.address % p.wordMod &&& (arguments.size.toNat - 1) ≠ 0
  · exact ⟨.refused, if_pos skew, Or.inl rfl⟩
  have aligned : arguments.size.toNat ∣ arguments.address % p.wordMod := by
    obtain ⟨k, _, pow⟩ := isSize.exists_pow
    rw [pow, Nat.and_two_pow_sub_one_eq_mod, not_not] at skew
    rw [pow]
    exact Nat.dvd_of_mod_eq_zero skew
  simp only [if_neg skew]
  by_cases wide : arguments.size.toNat > p.word
  · exact ⟨.refused, if_pos wide, Or.inl rfl⟩
  have inWord := Nat.le_of_not_lt wide
  simp only [if_neg wide]
  by_cases cut : arguments.data % p.wordMod &&& dataMask p arguments.size.toNat ≠ arguments.data % p.wordMod
  · exact ⟨.refused, if_pos cut, Or.inl rfl⟩
  have fits : arguments.data % p.wordMod < 256 ^ arguments.size.toNat := by
    rw [dataMask_eq p inWord, Nat.and_two_pow_sub_one_eq_mod, not_not, ← BigEndian.pow_byte] at cut
    rw [← cut]
    exact Nat.mod_lt _ (by positivity)
  simp only [if_neg cut]
  cases known : deviceSupport arguments with
  | none => exact ⟨.refused, rfl, Or.inl rfl⟩
  | some support =>
    simp only [selected_endian known]
    exact chosen_stores p (selected arguments) arguments.fidelity size isSize inWord word aligned fits

/-- One byte for a device that takes nothing narrower than 32 bits. -/
def lastByte : Arguments := ⟨0x1003, 1, 0x5a, none, .found 0x04, false, false⟩

theorem ebWrite_stores_lastByte : ∃ read filled, ebWrite Port.wishbone32 lastByte = some (.fill read filled) ∧
    Stores Port.wishbone32 (some .big) (.fill read filled) 0x1003 1 0x5a := by
  have way : ∃ read filled, ebWrite Port.wishbone32 lastByte = some (.fill read filled) := ⟨_, _, rfl⟩
  obtain ⟨read, filled, made⟩ := way
  obtain ⟨plan, planned, outcome⟩ := ebWrite_stores Port.wishbone32 lastByte rfl
  cases made.symm.trans planned
  exact ⟨read, filled, made, outcome.resolve_left (by simp)⟩

end BelProject.Tools.EbWrite
