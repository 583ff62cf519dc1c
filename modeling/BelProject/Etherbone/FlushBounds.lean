import BelProject.Etherbone.Packets

/-! The local buffer of `eb_device_flush`. Its size is fixed by the build, the packets are
bounded by the MTU of the transport; all stores stay inside exactly when the first is
not smaller than the second. -/

namespace BelProject.Etherbone.FlushBounds
open Width Operations Wire Format Flush Packets

/-- The MTUs of `transports.c` and `lm32.c`: character device, UDP, TCP, tunnel and lm32. -/
def transportMtus : List Nat := [0, 1472, 0, 1472, 1472]

def InBuffer (p : Port) (s : Pack) : Prop := ∀ store ∈ s.stores, store.1 + store.2 ≤ p.bufferSize

instance (p : Port) (s : Pack) : Decidable (InBuffer p s) := by
  unfold InBuffer
  infer_instance

section
variable (p : Port) (mtu : Nat)

structure Bounded (s : Pack) : Prop where
  stores : InBuffer p s
  length : s.buffer.length ≤ p.bufferSize
  front : mtu ≠ 0 → p.headerAlignment ≤ s.buffer.length ∧ p.headerAlignment ≤ s.cptr

theorem header_le_bufferSize : p.headerAlignment ≤ p.bufferSize := by
  have := p.recordAlignment_le
  unfold Port.headerAlignment Port.bufferSize
  omega

variable {s : Pack}

theorem InBuffer.push (inside : InBuffer p s) {store : Nat × Nat} (fits : store.1 + store.2 ≤ p.bufferSize) :
    ∀ other ∈ s.stores ++ [store], other.1 + other.2 ≤ p.bufferSize := by
  intro other member
  rcases List.mem_append.mp member with before | last
  · exact inside other before
  · rw [List.mem_singleton.mp last]
    exact fits

variable {p mtu}

theorem Bounded.toggle (bounded : Bounded p mtu s) : Bounded p mtu s.toggle := by
  unfold Pack.toggle
  split
  · exact bounded
  · refine ⟨bounded.stores.push p ?_, ?_, ?_⟩
    · show 2 + 1 ≤ p.bufferSize
      unfold Port.bufferSize
      omega
    · simpa only [List.length_modify] using bounded.length
    · simpa only [List.length_modify] using bounded.front

theorem Bounded.flushPrior (packet : mtu ≠ 0) (bounded : Bounded p mtu s) :
    Bounded p mtu (s.flushPrior p) := by
  unfold Pack.flushPrior
  split
  · have toggled := bounded.toggle
    obtain ⟨front, back⟩ := toggled.front packet
    have length := toggled.length
    have header := header_le_bufferSize p
    refine ⟨toggled.stores.push p ?_, ?_, fun _ => ⟨?_, le_rfl⟩⟩
    · show p.headerAlignment + (s.toggle.buffer.length - s.toggle.cptr) ≤ p.bufferSize
      omega
    · simp only [List.length_append, List.length_take, List.length_drop]
      omega
    · simp only [List.length_append, List.length_take, List.length_drop]
      omega
  · exact bounded

theorem Bounded.reserve (small : mtu ≤ p.bufferSize) (bounded : Bounded p mtu s) {length : Nat}
    (record : length ≤ p.bufferSize) :
    Bounded p mtu (s.reserve p mtu length).1 ∧
      ((s.reserve p mtu length).2 = true → (s.reserve p mtu length).1.buffer.length + length ≤ p.bufferSize) := by
  have limit : eob p mtu ≤ p.bufferSize := by
    unfold eob
    split <;> omega
  unfold Pack.reserve
  split
  · split
    next stream =>
      refine ⟨⟨bounded.stores, Nat.zero_le _, fun packet => absurd stream packet⟩, fun _ => ?_⟩
      simpa using record
    next packet =>
      refine ⟨bounded.flushPrior packet, fun fits => ?_⟩
      have fits := of_decide_eq_true fits
      dsimp only
      omega
  · refine ⟨bounded, fun _ => ?_⟩
    dsimp only
    omega

theorem Bounded.append (bounded : Bounded p mtu s) (r : Record)
    (fits : s.buffer.length + (p.recordAlignment + r.total * p.alignment) ≤ p.bufferSize) :
    Bounded p mtu (s.append p r) := by
  have length : (r.encode p).length = p.recordAlignment + r.total * p.alignment := Record.length_encode p r
  refine ⟨bounded.stores.push p fits, ?_, fun packet => ?_⟩
  · simp only [Pack.append, List.length_append]
    omega
  · have front := bounded.front packet
    simp only [Pack.append, List.length_append]
    exact ⟨by omega, front.2⟩

def Counted (batches : List Batch) : Prop := ∀ batch ∈ batches, batch.writes.length ≤ 255 ∧ batch.reads.length ≤ 255

theorem length_toRecord_le (p : Port) (rba : Nat) (batch : Batch)
    (counted : batch.writes.length ≤ 255 ∧ batch.reads.length ≤ 255) :
    p.recordAlignment + (batch.toRecord p rba).total * p.alignment ≤ p.bufferSize := by
  have bound := (batch.toRecord p rba).length_encode_le p
    (by simpa only [Batch.toRecord, List.length_map] using counted.1)
    (by
      simp only [Batch.toRecord]
      split
      · simp
      · simpa only [List.length_map] using counted.2)
  rwa [Record.length_encode] at bound

theorem Bounded.records (small : mtu ≤ p.bufferSize) (bounded : Bounded p mtu s) (rba : Nat)
    (batches : List Batch) (counted : Counted batches) : Bounded p mtu (s.records p mtu rba batches).1 := by
  induction batches generalizing s with
  | nil => exact bounded
  | cons batch batches ih =>
    have record := length_toRecord_le p rba batch (counted batch List.mem_cons_self)
    obtain ⟨next, room⟩ := bounded.reserve small record
    simp only [Pack.records]
    generalize s.reserve p mtu _ = result at next room ⊢
    obtain ⟨w, fits⟩ := result
    dsimp only at next room
    cases fits with
    | true =>
      apply ih
      · exact next.append _ (room rfl)
      · exact fun other member => counted other (List.mem_cons_of_mem _ member)
    | false =>
      have length := next.length
      refine ⟨next.stores, ?_, fun packet => ?_⟩
      · simp only [List.length_take]
        omega
      · have front := next.front packet
        simp only [List.length_take]
        exact ⟨by omega, front.2⟩

theorem formats_counted {check : Bool} {maxops ops : Nat} {operations : List Operation} {batches : List Batch}
    (formats : Formats p check maxops ops operations batches) (accepted : ∀ op ∈ operations, Accepted p op) :
    Counted batches := by
  induction formats with
  | @last ops operations _ =>
    have spec := planRecord_spec p check maxops ops operations accepted
    intro batch member
    rw [List.mem_singleton.mp member]
    exact ⟨spec.writes_length, spec.reads_length⟩
  | @more ops operations _ _ _ ih =>
    have spec := planRecord_spec p check maxops ops operations accepted
    have rest := ih (fun op member => accepted op (by
      rw [spec.split]
      exact List.mem_append_right _ (List.mem_append_right _ member)))
    intro batch member
    rcases List.mem_cons.mp member with rfl | later
    · exact ⟨spec.writes_length, spec.reads_length⟩
    · exact rest batch later

theorem Bounded.emit (bounded : Bounded p mtu s) (effect : Effect) : Bounded p mtu (s.emit effect) :=
  ⟨bounded.stores, bounded.length, bounded.front⟩

theorem Bounded.cycle (small : mtu ≤ p.bufferSize) (bounded : Bounded p mtu s) (time : Nat)
    (alloc : Nat → Bool) (cycle : Cycle) : Bounded p mtu (flushCycle p mtu time alloc s cycle) := by
  unfold flushCycle
  split
  · exact bounded.emit _
  next operations screened =>
    have accepted := accepted_of_screen p screened
    have counted := formats_counted (formatCycle_formats p operations accepted) accepted
    have written := bounded.records small s.rba (formatCycle p operations) counted
    dsimp only
    generalize s.records p mtu s.rba (formatCycle p operations) = result at written ⊢
    obtain ⟨w, rest⟩ := result
    cases rest with
    | some rest => exact written.emit _
    | none =>
      have closed : Bounded p mtu { w with cptr := w.buffer.length } :=
        ⟨written.stores, written.length, fun packet => ⟨(written.front packet).1, (written.front packet).1⟩⟩
      dsimp only
      split
      · exact ⟨closed.stores, closed.length, closed.front⟩
      · exact closed.emit _

theorem Bounded.finish (bounded : Bounded p mtu s) : Bounded p mtu (s.finish p mtu) := by
  unfold Pack.finish
  apply Bounded.emit
  split
  · split
    · exact bounded.emit _
    · exact bounded
  · split
    · exact bounded.toggle.emit _
    · exact bounded

theorem begin_bounded (rba : Nat) : Bounded p mtu (Pack.begin p mtu rba) := by
  have header := header_le_bufferSize p
  unfold Pack.begin headerSize
  by_cases stream : mtu = 0
  · simp only [if_pos stream]
    exact ⟨by simp [InBuffer], Nat.zero_le _, fun packet => absurd stream packet⟩
  · simp only [if_neg stream]
    refine ⟨?_, ?_, fun _ => ⟨?_, le_rfl⟩⟩
    · simpa [InBuffer] using header
    · simpa only [length_packetHeader] using header
    · simp only [length_packetHeader, le_refl]

theorem ebDeviceFlush_bounded (small : mtu ≤ p.bufferSize) (time rba : Nat) (alloc : Nat → Bool)
    (ready : List Cycle) : InBuffer p (ebDeviceFlush p mtu time alloc rba ready) := by
  have run : ∀ (cycles : List Cycle) (s : Pack), Bounded p mtu s →
      Bounded p mtu (cycles.foldl (flushCycle p mtu time alloc) s) := by
    intro cycles
    induction cycles with
    | nil => exact fun s bounded => bounded
    | cons cycle cycles ih => exact fun s bounded => ih _ (bounded.cycle small time alloc cycle)
  exact (run ready.reverse _ (begin_bounded rba)).finish.stores

end

def twoRecords (data : Nat) : List Cycle :=
  [⟨0, .live (List.replicate 510 ⟨0, 0, .write, false, false, false, UInt8.ofNat data⟩)⟩]

def wishbone16 (data addr : Nat) (dataFits : data = 1 ∨ data = 2) (addrFits : addr = 1 ∨ addr = 2) : Port :=
  { word := 2
    data := data
    addr := addr
    word_size := Or.inl rfl
    data_size := dataFits.elim Or.inl fun two => Or.inr (Or.inl two)
    addr_size := addrFits.elim Or.inl fun two => Or.inr (Or.inl two)
    data_le := by omega
    addr_le := by omega }

theorem overrun_sixteen (p : Port) (sixteen : p.word = 2) :
    ¬InBuffer p (ebDeviceFlush p 1472 0 (fun _ => true) 0x8000 (twoRecords p.data)) := by
  have narrow : ∀ {size : Nat}, IsSize size → size ≤ p.word → size = 1 ∨ size = 2 := by
    intro size isSize le
    rcases isSize with h | h | h | h <;> omega
  have data := narrow p.data_size p.data_le
  have addr := narrow p.addr_size p.addr_le
  obtain ⟨word, _, _, _, _, _, _, _⟩ := p
  dsimp only at sixteen data addr
  subst sixteen
  rcases data with rfl | rfl <;> rcases addr with rfl | rfl
  · show ¬InBuffer (wishbone16 1 1 (Or.inl rfl) (Or.inl rfl))
      (ebDeviceFlush (wishbone16 1 1 (Or.inl rfl) (Or.inl rfl)) 1472 0 (fun _ => true) 0x8000
        (twoRecords 1))
    decide +kernel
  · show ¬InBuffer (wishbone16 1 2 (Or.inl rfl) (Or.inr rfl))
      (ebDeviceFlush (wishbone16 1 2 (Or.inl rfl) (Or.inr rfl)) 1472 0 (fun _ => true) 0x8000
        (twoRecords 1))
    decide +kernel
  · show ¬InBuffer (wishbone16 2 1 (Or.inr rfl) (Or.inl rfl))
      (ebDeviceFlush (wishbone16 2 1 (Or.inr rfl) (Or.inl rfl)) 1472 0 (fun _ => true) 0x8000
        (twoRecords 2))
    decide +kernel
  · show ¬InBuffer (wishbone16 2 2 (Or.inr rfl) (Or.inr rfl))
      (ebDeviceFlush (wishbone16 2 2 (Or.inr rfl) (Or.inr rfl)) 1472 0 (fun _ => true) 0x8000
        (twoRecords 2))
    decide +kernel

/-- On every transport of the library: all flushes stay inside their buffer if and only if the
buffer of the build is at least as large as the MTU. -/
theorem ebDeviceFlush_inBuffer_iff (p : Port) (mtu : Nat) (defined : mtu ∈ transportMtus) :
    (∀ (time rba : Nat) (alloc : Nat → Bool) (ready : List Cycle),
      InBuffer p (ebDeviceFlush p mtu time alloc rba ready)) ↔ mtu ≤ p.bufferSize := by
  constructor
  · intro inside
    by_contra large
    have udp : mtu = 1472 := by
      simp only [transportMtus, List.mem_cons, List.not_mem_nil, or_false] at defined
      omega
    have sixteen : p.word = 2 := by
      have := p.word_size
      unfold Port.bufferSize at large
      omega
    subst udp
    exact overrun_sixteen p sixteen (inside 0 0x8000 (fun _ => true) (twoRecords p.data))
  · intro small time rba alloc ready
    exact ebDeviceFlush_bounded small time rba alloc ready

/-- A 32-bit build and UDP. -/
theorem ebDeviceFlush_inBuffer_udp :
    1472 ∈ transportMtus ∧ ∀ (time rba : Nat) (alloc : Nat → Bool) (ready : List Cycle),
      InBuffer Port.wishbone32 (ebDeviceFlush Port.wishbone32 1472 time alloc rba ready) :=
  ⟨by decide, (ebDeviceFlush_inBuffer_iff Port.wishbone32 1472 (by decide)).mpr (by decide)⟩

theorem ebDeviceFlush_overrun :
    1472 ∈ transportMtus ∧
      ¬InBuffer (wishbone16 2 2 (Or.inr rfl) (Or.inr rfl))
        (ebDeviceFlush (wishbone16 2 2 (Or.inr rfl) (Or.inr rfl)) 1472 0 (fun _ => true) 0x8000 (twoRecords 2)) :=
  ⟨by decide, overrun_sixteen (wishbone16 2 2 (Or.inr rfl) (Or.inr rfl)) rfl⟩

end BelProject.Etherbone.FlushBounds
