import BelProject.Etherbone.FlushBounds
import BelProject.Etherbone.Slave

/-! The no-reads bit of the packet header. A receiver may drop the answer to a packet that
has it, so no record of such a packet may read. The bit stays in the header buffer for
all later packets of a flush, and it is decided by the records formatted since the last
packet instead of those the packet contains. -/

namespace BelProject.Etherbone.NoReads
open BelProject.Library Packing Width Operations Wire Format Flush Packets FlushBounds Slave

section
variable (p : Port)

def readCounts : Nat → List Byte → List Nat
  | fuel + 1, flags :: select :: wcount :: rcount :: rest =>
    rcount.toNat :: readCounts fuel ((flags :: select :: wcount :: rcount :: rest).drop
      (p.recordAlignment + Machine.recordTotal wcount rcount * p.alignment))
  | _, _ => []

/-- If the header promises no reads, no record in the packet has one. -/
def Sound (packet : List Byte) : Prop :=
  (packet.getD 2 0) &&& headerNr ≠ 0 →
    ∀ count ∈ readCounts p packet.length (packet.drop p.headerAlignment), count = 0

instance (packet : List Byte) : Decidable (Sound p packet) := by
  unfold Sound
  infer_instance

/-- Counts that survive being written into one byte. -/
def ByteCounts (r : Record) : Prop := r.writes.length ≤ 255 ∧ r.reads.length ≤ 255

theorem recordTotal_counts (r : Record) (counts : ByteCounts r) :
    Machine.recordTotal (UInt8.ofNat r.writes.length) (UInt8.ofNat r.reads.length) = r.total := by
  have positive : ∀ byte : Byte, byte > 0 ↔ byte.toNat > 0 := fun byte => UInt8.lt_iff_toNat_lt
  simp only [Machine.recordTotal, Record.total, positive, toNat_count counts.1, toNat_count counts.2]

theorem readCounts_stream (records : List Record) (fuel : Nat) (counts : ∀ r ∈ records, ByteCounts r)
    (enough : records.length ≤ fuel) : readCounts p fuel (stream p records) = records.map (·.reads.length) := by
  induction records generalizing fuel with
  | nil => cases fuel <;> rfl
  | cons r records ih =>
    obtain ⟨fuel, rfl⟩ : ∃ rest, fuel = rest + 1 := ⟨fuel - 1, by simp only [List.length_cons] at enough; omega⟩
    have here := counts r List.mem_cons_self
    have length : (r.encode p).length = p.recordAlignment + Machine.recordTotal (UInt8.ofNat r.writes.length)
        (UInt8.ofNat r.reads.length) * p.alignment := by
      rw [Record.length_encode, recordTotal_counts r here]
    have tail : (stream p (r :: records)).drop (p.recordAlignment + Machine.recordTotal
        (UInt8.ofNat r.writes.length) (UInt8.ofNat r.reads.length) * p.alignment) = stream p records := by
      rw [← length]
      exact List.drop_left
    have rest := ih fuel (fun other member => counts other (List.mem_cons_of_mem _ member))
      (by simp only [List.length_cons] at enough; omega)
    have step : readCounts p (fuel + 1) (stream p (r :: records)) = (UInt8.ofNat r.reads.length).toNat ::
        readCounts p fuel ((stream p (r :: records)).drop (p.recordAlignment + Machine.recordTotal
          (UInt8.ofNat r.writes.length) (UInt8.ofNat r.reads.length) * p.alignment)) := rfl
    rw [step, tail, rest, toNat_count here.2, List.map_cons]

theorem header_noReads (noReads : Bool) (rest : List Byte) :
    ((packetHeader p noReads ++ rest).getD 2 0 &&& headerNr ≠ 0) ↔ noReads = true := by
  cases noReads with
  | true =>
    show (0x10 ||| headerNr) &&& headerNr ≠ 0 ↔ true = true
    decide
  | false =>
    show 0x10 &&& headerNr ≠ 0 ↔ false = true
    decide

theorem sound_packet (content : Bool × List (List Record)) (counts : ∀ r ∈ content.2.flatten, ByteCounts r) :
    Sound p (packet p content) ↔ (content.1 = true → content.2.flatten.any reading = false) := by
  have body : (packet p content).drop p.headerAlignment = stream p content.2.flatten := by
    rw [packet, ← length_packetHeader p content.1]
    exact List.drop_left
  have long : content.2.flatten.length ≤ (packet p content).length := by
    have each : ∀ records : List Record, records.length ≤ (stream p records).length := by
      intro records
      induction records with
      | nil => simp
      | cons r records ih =>
        have positive := size_pos p r
        simp only [stream, List.flatMap_cons, List.length_append, List.length_cons, size] at ih positive ⊢
        omega
    have body := each content.2.flatten
    rw [packet, List.length_append]
    omega
  unfold Sound
  rw [body, readCounts_stream p _ _ counts long, packet, header_noReads]
  simp only [List.mem_map, forall_exists_index, and_imp, List.any_eq_false]
  constructor
  · intro sound set r member
    have zero := sound set _ r member rfl
    simp [reading, List.length_eq_zero_iff.mp zero]
  · intro quiet set count r member same
    have empty := quiet set r member
    rw [← same]
    simpa [reading] using empty

theorem toRecord_counts (rba : Nat) (batch : Batch)
    (counted : batch.writes.length ≤ 255 ∧ batch.reads.length ≤ 255) : ByteCounts (batch.toRecord p rba) := by
  refine ⟨by simpa only [Batch.toRecord, List.length_map] using counted.1, ?_⟩
  simp only [Batch.toRecord]
  split
  · simp
  · simpa only [List.length_map] using counted.2

end

/-- Every parcel with a read was preceded, since the parcel before it, by a placed read,
and so were all parcels before it. -/
def Announced {α : Type} (reads : α → Bool) (parcels : List (Parcel α)) : Prop :=
  ∀ before parcel after, parcels = before ++ parcel :: after → parcel.groups.flatten.any reads = true →
    ∀ earlier ∈ before ++ [parcel], earlier.since.any reads = true

theorem announced_cons {α : Type} (reads : α → Bool) (parcel : Parcel α) (parcels : List (Parcel α)) :
    Announced reads (parcel :: parcels) ↔
      ((∃ other ∈ parcel :: parcels, other.groups.flatten.any reads = true) → parcel.since.any reads = true) ∧
        Announced reads parcels := by
  constructor
  · intro announced
    refine ⟨fun found => ?_, fun before later after split reading earlier member => ?_⟩
    · obtain ⟨other, member, reading⟩ := found
      obtain ⟨before, after, split⟩ := List.append_of_mem member
      apply announced before other after split reading
      cases before with
      | nil =>
        rw [List.nil_append, List.cons.injEq] at split
        rw [split.1]
        exact List.mem_singleton_self _
      | cons first before =>
        rw [List.cons_append, List.cons.injEq] at split
        rw [split.1]
        exact List.mem_cons_self
    · exact announced (parcel :: before) later after (by rw [split]; rfl) reading earlier
        (List.mem_cons_of_mem _ member)
  · intro ⟨first, rest⟩ before later after split reading earlier member
    cases before with
    | nil =>
      rw [List.nil_append, List.cons.injEq] at split
      rw [List.nil_append, List.mem_singleton] at member
      subst member
      rw [← split.1] at reading ⊢
      exact first ⟨parcel, List.mem_cons_self, reading⟩
    | cons head before =>
      rw [List.cons_append, List.cons.injEq] at split
      rcases List.mem_cons.mp member with rfl | inside
      · rw [← split.1]
        apply first
        refine ⟨later, ?_, reading⟩
        rw [split.2]
        exact List.mem_cons_of_mem _ (List.mem_append_right _ List.mem_cons_self)
      · exact rest before later after split.2 reading earlier inside

theorem flagged_sound_iff (noReads : Bool) (parcels : List (Parcel Record)) :
    (∀ content ∈ flagged noReads parcels, content.1 = true → content.2.flatten.any reading = false) ↔
      (noReads = true → ∀ parcel ∈ parcels, parcel.groups.flatten.any reading = false) ∧
        (noReads = false → Announced reading parcels) := by
  induction parcels generalizing noReads with
  | nil => simp [flagged, Announced]
  | cons parcel parcels ih =>
    simp only [flagged, List.forall_mem_cons, ih, announced_cons]
    cases noReads with
    | true => simp
    | false =>
      cases placed : parcel.since.any reading with
      | true => simp
      | false =>
        simp only [Bool.not_false, Bool.or_true, true_implies, Bool.true_eq_false, false_implies, and_true,
          Bool.false_eq_true, true_and, imp_false, not_exists, not_and, List.forall_mem_cons, Bool.not_eq_true]
        constructor
        · intro quiet
          refine ⟨quiet, fun before later after split reads => ?_⟩
          have silent := quiet.2 later (by rw [split]; exact List.mem_append_right _ List.mem_cons_self)
          rw [silent] at reads
          cases reads
        · exact fun holds => holds.1

theorem announced_map {α β : Type} (f : α → β) (reads : β → Bool) (parcels : List (Parcel α)) :
    Announced reads (parcels.map (Parcel.map f)) ↔ Announced (reads ∘ f) parcels := by
  have flat : ∀ groups : List (List α), (groups.map (List.map f)).flatten.any reads = groups.flatten.any (reads ∘ f) := by
    intro groups
    rw [← List.map_flatten, List.any_map]
  induction parcels with
  | nil => simp [Announced]
  | cons parcel parcels ih =>
    rw [List.map_cons, announced_cons, announced_cons]
    apply and_congr _ ih
    simp only [List.mem_cons, exists_eq_or_imp, List.mem_map, exists_exists_and_eq_and, Parcel.map, flat,
      List.any_map]

theorem exists_lawful {p : Port} {alloc : Nat → Bool} {refusal : Cycle → Status → Prop} {cycles : List Cycle}
    {fates : List Fate} (lawful : List.Forall₂ (Lawful p alloc refusal) cycles fates) {fate : Fate}
    (member : fate ∈ fates) : ∃ cycle ∈ cycles, Lawful p alloc refusal cycle fate := by
  induction lawful with
  | nil => cases member
  | cons first _ ih =>
    rcases List.mem_cons.mp member with rfl | later
    · exact ⟨_, List.mem_cons_self, first⟩
    · obtain ⟨cycle, inside, law⟩ := ih later
      exact ⟨cycle, List.mem_cons_of_mem _ inside, law⟩

/-- The reads of a flush are announced: each packet that contains one, and each packet of the
flush before it, had a record with a read formatted since the packet before it was sent.
Packets are cut by the sizes of the accepted cycles alone. -/
def KeepsPromise (p : Port) (mtu : Nat) (alloc : Nat → Bool) (ready : List Cycle) : Prop :=
  Announced Prod.snd (layout Prod.fst p.headerAlignment mtu (acceptedShapes p alloc ready.reverse))

theorem ebDeviceFlush_sound_iff (p : Port) (mtu time rba : Nat) (alloc : Nat → Bool) (ready : List Cycle)
    (packet : mtu ≠ 0) :
    (∀ sent ∈ sends (ebDeviceFlush p mtu time alloc rba ready).effects, Sound p sent) ↔
      KeepsPromise p mtu alloc ready := by
  obtain ⟨fates, d, lawful, between, whole, _, shapes⟩ := flushCycles_between p packet time alloc ready.reverse
    (Pack.begin p mtu rba) Draft.empty (begin_between p packet rba)
  obtain ⟨sent, _⟩ := between.finish p packet
  have counts : ∀ content ∈ flagged false d.ship.shipped, ∀ r ∈ content.2.flatten, ByteCounts r := by
    intro content inside r member
    obtain ⟨records, group, last⟩ := List.mem_flatten.mp member
    have listed : content.2 ∈ d.ship.shipped.map Parcel.groups := by
      rw [← flagged_groups false]
      exact List.mem_map_of_mem inside
    have kept : records ∈ fates.filterMap Fate.records? := by
      have all : d.ship.whole = fates.filterMap Fate.records? := by
        rw [Draft.ship_whole, whole]
        rfl
      rw [← all, Draft.whole, Draft.ship_groups, List.append_nil]
      exact List.mem_flatten.mpr ⟨_, listed, group⟩
    obtain ⟨fate, among, same⟩ := List.mem_filterMap.mp kept
    obtain ⟨cycle, _, law⟩ := exists_lawful lawful among
    cases fate with
    | refused status => cases same
    | sent found =>
      cases same
      obtain ⟨_, operations, rba', screened, rfl⟩ := law
      have accepted := accepted_of_screen p screened
      obtain ⟨batch, formatted, rfl⟩ := List.mem_map.mp last
      exact toRecord_counts p rba' batch
        (formats_counted (formatCycle_formats p operations accepted) accepted batch formatted)
  have cut : layout Prod.fst p.headerAlignment mtu (acceptedShapes p alloc ready.reverse) =
      d.ship.shipped.map (Parcel.map (shape p)) := by
    have start : (Draft.empty : Draft Record).map (shape p) = Draft.empty := rfl
    rw [layout, ← start, ← shapes, Draft.map_ship]
    rfl
  have keeps : KeepsPromise p mtu alloc ready ↔ Announced reading d.ship.shipped := by
    rw [KeepsPromise, cut, announced_map]
    rfl
  have flags := flagged_sound_iff false d.ship.shipped
  simp only [Bool.false_eq_true, false_implies, true_and, true_implies] at flags
  rw [keeps, ← flags, ebDeviceFlush, sent]
  simp only [List.forall_mem_map]
  constructor
  · intro sound content inside
    exact (sound_packet p content (counts content inside)).mp (sound content inside)
  · intro quiet content inside
    exact (sound_packet p content (counts content inside)).mpr (quiet content inside)

/-- The arguments of one call of `eb_device_flush`. -/
structure FlushCall where
  time : Nat
  rba : Nat
  alloc : Nat → Bool
  ready : List Cycle

/-- Over any run of flushes of a device, no packet with the no-reads bit contains a read if and
only if every flush of the run keeps its promise. -/
theorem flushes_sound_iff (p : Port) (mtu : Nat) (run : List FlushCall) (packet : mtu ≠ 0) :
    (∀ call ∈ run, ∀ sent ∈ sends (ebDeviceFlush p mtu call.time call.alloc call.rba call.ready).effects,
      Sound p sent) ↔ ∀ call ∈ run, KeepsPromise p mtu call.alloc call.ready := by
  constructor
  · intro sound call member
    exact (ebDeviceFlush_sound_iff p mtu call.time call.rba call.alloc call.ready packet).mp (sound call member)
  · intro keeps call member
    exact (ebDeviceFlush_sound_iff p mtu call.time call.rba call.alloc call.ready packet).mpr (keeps call member)

/-- A single checked read goes out in a packet that does not promise anything. -/
theorem flushes_sound_read :
    1472 ≠ 0 ∧ KeepsPromise Port.wishbone32 1472 (fun _ => true)
      [⟨0, .live [⟨0x100, 0, .readVal, false, false, true, 4⟩]⟩] :=
  ⟨by decide, (flushes_sound_iff Port.wishbone32 1472
    [⟨0, 0x8000, fun _ => true, [⟨0, .live [⟨0x100, 0, .readVal, false, false, true, 4⟩]⟩]⟩] (by decide)).mp
      (by decide +kernel) _ (List.mem_singleton_self _)⟩

/-- Unchecked writes and then unchecked reads, together too long for one packet. -/
def writesThenReads : List Cycle :=
  [⟨1, .live (List.replicate 60 ⟨0x200, 0, .readVal, false, false, false, 8⟩)⟩,
    ⟨0, .live (List.replicate 130 ⟨0x100, 0, .write, false, false, false, 8⟩)⟩]

/-- The first packet promises no reads, and so does the second, which consists of them. -/
theorem flushes_promise_broken :
    ¬∀ sent ∈ sends (ebDeviceFlush Port.wishbone64 1472 0 (fun _ => true) 0x8000 writesThenReads).effects,
      Sound Port.wishbone64 sent := by
  decide +kernel

end BelProject.Etherbone.NoReads
