import BelProject.Etherbone.Agreement
import BelProject.Etherbone.Seams

/-! One cycle on its way to the other end. Flushed alone, it leaves as a stream of its
records or as one packet; however a stream is cut behind its first header, the calls of
`eb_device_slave` that receive it execute the records and send their replies. -/

namespace BelProject.Etherbone.Transfer
open BelProject.Library Memory Width Operations Wire Format Flush Packets Requests Header Execute Slave Deliver Segments
  Seams Agreement

section
variable (p : Port)

def written (s : Pack) : List Byte := (sends s.effects).flatten ++ s.buffer

theorem records_stream (rba : Nat) (batches : List Batch) (s : Pack) :
    (s.records p 0 rba batches).2 = none ∧
      written (s.records p 0 rba batches).1 = written s ++ stream p (batches.map (Batch.toRecord p rba)) := by
  induction batches generalizing s with
  | nil => exact ⟨rfl, (List.append_nil _).symm⟩
  | cons batch batches ih =>
    have room : (s.reserve p 0 (p.recordAlignment + (batch.toRecord p rba).total * p.alignment)).2 = true ∧
        written (s.reserve p 0 (p.recordAlignment + (batch.toRecord p rba).total * p.alignment)).1 = written s := by
      unfold Pack.reserve
      split
      · refine ⟨rfl, ?_⟩
        simp [written, Pack.emit, sends]
      · exact ⟨rfl, rfl⟩
    simp only [Pack.records]
    generalize s.reserve p 0 (p.recordAlignment + (batch.toRecord p rba).total * p.alignment) = reserved at room
    obtain ⟨roomed, fits⟩ := reserved
    obtain ⟨yes, same⟩ := room
    dsimp only at yes same
    subst yes
    dsimp only
    obtain ⟨done, rest⟩ := ih (roomed.append p (batch.toRecord p rba))
    refine ⟨done, ?_⟩
    rw [rest, List.map_cons, stream_cons, ← List.append_assoc, ← same]
    congr 1
    simp only [written, Pack.append, List.append_assoc]

theorem flush_stream (time rba : Nat) (alloc : Nat → Bool) (cycle : Cycle) (operations : List Operation)
    (screened : screen p alloc cycle = .ok operations) :
    (sends (ebDeviceFlush p 0 time alloc rba [cycle]).effects).flatten = stream p (cycleRecords p rba operations) := by
  obtain ⟨done, all⟩ := records_stream p rba (formatCycle p operations) (Pack.begin p 0 rba)
  have finished : ∀ s : Pack, (sends (s.finish p 0).effects).flatten = written s := by
    intro s
    unfold Pack.finish
    simp only [if_true]
    split
    · simp [written, Pack.emit, sends]
    next empty =>
      have none : s.buffer = [] := List.length_eq_zero_iff.mp (not_not.mp empty)
      simp [written, Pack.emit, none, sends]
  have started : (Pack.begin p 0 rba).rba = rba := rfl
  simp only [ebDeviceFlush, List.reverse_singleton, List.foldl_cons, List.foldl_nil, finished, flushCycle, screened,
    started]
  generalize (Pack.begin p 0 rba).records p 0 rba (formatCycle p operations) = result at done all
  obtain ⟨s, rest⟩ := result
  dsimp only at done all
  subst done
  dsimp only
  have begun : written (Pack.begin p 0 rba) = [] := rfl
  rw [begun, List.nil_append] at all
  rw [cycleRecords, ← all]
  split <;> simp [written, Pack.emit, sends]

theorem records_alone (mtu rba : Nat) (packet : mtu ≠ 0) (batches : List Batch) (s : Pack)
    (first : s.cptr = p.headerAlignment) (header : p.headerAlignment ≤ s.buffer.length) :
    (s.records p mtu rba batches).1.effects = s.effects ∧
      ((s.records p mtu rba batches).2 = none →
        (s.records p mtu rba batches).1.buffer = s.buffer ++ stream p (batches.map (Batch.toRecord p rba)) ∧
          (s.records p mtu rba batches).1.hasReads = (s.hasReads || readback batches)) ∧
      ((s.records p mtu rba batches).2 ≠ none →
        (s.records p mtu rba batches).1.buffer.length = p.headerAlignment) := by
  induction batches generalizing s with
  | nil => exact ⟨rfl, fun _ => ⟨(List.append_nil _).symm, (Bool.or_false _).symm⟩, fun bad => absurd rfl bad⟩
  | cons batch batches ih =>
    have room : ∃ fits, s.reserve p mtu (p.recordAlignment + (batch.toRecord p rba).total *
      p.alignment) = (s, fits) := by
      have prior : s.flushPrior p = s := by
        unfold Pack.flushPrior
        rw [if_neg (not_not.mpr first)]
      unfold Pack.reserve
      rw [prior, if_neg packet]
      split
      · exact ⟨_, rfl⟩
      · exact ⟨true, rfl⟩
    obtain ⟨fits, room⟩ := room
    simp only [Pack.records, room]
    cases fits with
    | false =>
      refine ⟨rfl, fun bad => (by cases bad), fun _ => ?_⟩
      show (s.buffer.take p.headerAlignment).length = _
      rw [List.length_take]
      omega
    | true =>
      obtain ⟨effects, done, stopped⟩ := ih (s.append p (batch.toRecord p rba)) first (by
        simp only [Pack.append, List.length_append]
        omega)
      refine ⟨effects, fun none => ?_, stopped⟩
      obtain ⟨buffer, reads⟩ := done none
      constructor
      · rw [buffer, List.map_cons, stream_cons, ← List.append_assoc]
        rfl
      · have here : (!(batch.toRecord p rba).reads.isEmpty) = (batch.inserted || !batch.reads.isEmpty) :=
          toRecord_reading p rba batch
        rw [reads]
        show ((s.hasReads || !(batch.toRecord p rba).reads.isEmpty) || readback batches) =
          (s.hasReads || ((batch.inserted || !batch.reads.isEmpty) || readback batches))
        rw [here, Bool.or_assoc]

theorem flush_announced (mtu time rba : Nat) (packet : mtu ≠ 0) (alloc : Nat → Bool) (cycle : Cycle)
    (operations : List Operation) (screened : screen p alloc cycle = .ok operations) :
    sends (ebDeviceFlush p mtu time alloc rba [cycle]).effects = [] ∨
      sends (ebDeviceFlush p mtu time alloc rba [cycle]).effects =
        [packetHeader p (!readback (formatCycle p operations)) ++ stream p (cycleRecords p rba operations)] := by
  have header : (Pack.begin p mtu rba).buffer = packetHeader p false := by simp [Pack.begin, packet]
  obtain ⟨effects, done, stopped⟩ := records_alone p mtu rba packet (formatCycle p operations) (Pack.begin p mtu rba)
    (by simp [Pack.begin, headerSize, packet]) (by rw [header, length_packetHeader])
  have started : (Pack.begin p mtu rba).rba = rba := rfl
  have quiet : sends (Pack.begin p mtu rba).effects = [] := rfl
  have finished : ∀ s : Pack, sends s.effects = [] → sends (s.finish p mtu).effects =
      if s.buffer.length ≠ p.headerAlignment then [s.toggle.buffer] else [] := by
    intro s none
    unfold Pack.finish
    simp only [if_neg packet]
    split
    · simp only [Pack.emit, sends_append, toggle_effects, none]
      rfl
    · simp only [Pack.emit, sends_append, none]
      rfl
  simp only [ebDeviceFlush, List.reverse_singleton, List.foldl_cons, List.foldl_nil, flushCycle, screened, started]
  generalize (Pack.begin p mtu rba).records p mtu rba (formatCycle p operations) = result at effects done stopped
  obtain ⟨s, rest⟩ := result
  dsimp only at effects done stopped
  have silent : ∀ effect, sends [effect] = [] → sends (s.effects ++ [effect]) = [] := by
    intro effect none
    rw [sends_append, effects, quiet, none]
    rfl
  cases rest with
  | some rest =>
    left
    dsimp only
    rw [finished _ (silent _ rfl), if_neg]
    exact not_not.mpr (stopped (by simp))
  | none =>
    right
    dsimp only
    obtain ⟨buffer, reads⟩ := done rfl
    rw [header] at buffer
    have long : s.buffer.length ≠ p.headerAlignment := by
      have some := formatCycle_ne_nil p operations
      obtain ⟨batch, batches, same⟩ := List.exists_cons_of_ne_nil some
      have positive := size_pos p (batch.toRecord p rba)
      rw [buffer, List.length_append, length_packetHeader, same, List.map_cons, stream_cons, List.length_append]
      unfold size at positive
      omega
    have begun : (Pack.begin p mtu rba).hasReads = false := rfl
    rw [begun, Bool.false_or] at reads
    rw [← reads]
    have toggled : s.toggle.buffer = packetHeader p (!s.hasReads) ++ stream p (cycleRecords p rba operations) := by
      unfold Pack.toggle
      cases reads : s.hasReads with
      | true => exact buffer
      | false =>
        show s.buffer.modify 2 (· ||| headerNr) = _
        rw [buffer, modify_packetHeader]
        rfl
    have sent : ∀ s' : Pack, s'.buffer = s.buffer → s'.hasReads = s.hasReads → sends s'.effects = [] →
        sends (s'.finish p mtu).effects = [packetHeader p (!s.hasReads) ++ stream p
          (cycleRecords p rba operations)] := by
      intro s' same reads none
      have toggled' : s'.toggle.buffer = s.toggle.buffer := by
        unfold Pack.toggle
        rw [reads]
        split
        · exact same
        · show s'.buffer.modify 2 (· ||| headerNr) = s.buffer.modify 2 (· ||| headerNr)
          rw [same]
      rw [finished s' none, if_pos (same ▸ long), toggled', toggled]
    split
    · exact sent _ rfl rfl (silent _ rfl)
    · exact sent _ rfl rfl (silent _ rfl)

theorem flush_packet (mtu time rba : Nat) (packet : mtu ≠ 0) (alloc : Nat → Bool) (cycle : Cycle)
    (operations : List Operation) (screened : screen p alloc cycle = .ok operations) :
    sends (ebDeviceFlush p mtu time alloc rba [cycle]).effects = [] ∨
      ∃ noReads, sends (ebDeviceFlush p mtu time alloc rba [cycle]).effects =
        [packetHeader p noReads ++ stream p (cycleRecords p rba operations)] :=
  (flush_announced p mtu time rba packet alloc cycle operations screened).imp_right fun one => ⟨_, one⟩

variable {records : List Record}

theorem endsCycle_whole (whole : WholeCycle records) (low : Bool) :
    endsCycle low records = true := by
  obtain ⟨init, last, rfl, ended, _⟩ := whole
  rw [endsCycle_append]
  exact ended

theorem endsCycle_running (some : records ≠ [])
    (running : ∀ r ∈ records, r.has recordCyc = false) (low : Bool) : endsCycle low records = false := by
  induction records generalizing low with
  | nil => exact absurd rfl some
  | cons r records ih =>
    have first := running r List.mem_cons_self
    show endsCycle (r.has recordCyc) records = false
    rw [first]
    cases records with
    | nil => rfl
    | cons other records =>
      apply ih (by simp)
      intro later member
      exact running later (List.mem_cons_of_mem _ member)

theorem wholeCycle_parts {parts : List (List Record)} (whole : WholeCycle records)
    (same : parts.flatten = records) (some : ∀ part ∈ parts, part ≠ [])
    (ended : ∀ part ∈ parts, endsCycle true part = true) : parts = [records] := by
  obtain ⟨init, last, rfl, _, running⟩ := whole
  cases parts with
  | nil => simp at same
  | cons part parts =>
    cases parts with
    | nil => rw [← same, List.flatten_singleton]
    | cons other parts =>
      exfalso
      rw [List.flatten_cons] at same
      have behind : (other :: parts).flatten ≠ [] := by
        intro none
        rw [List.flatten_cons] at none
        exact some other (by simp) (List.append_eq_nil_iff.mp none).1
      have before : part <+: init := by
        rcases List.append_eq_append_iff.mp same with ⟨rest, split, _⟩ | ⟨rest, split, short⟩
        · exact ⟨rest, split.symm⟩
        · cases rest with
          | nil => exact ⟨[], by rw [split]; simp⟩
          | cons r rest =>
            rw [List.cons_append] at short
            have := (List.append_eq_nil_iff.mp (List.cons.inj short).2.symm).2
            exact absurd this behind
      have low := endsCycle_running (some part List.mem_cons_self)
        (fun r member => running r (before.subset member)) true
      rw [ended part List.mem_cons_self] at low
      cases low

theorem parseHeader_packet (socketWidths : UInt8) (peer : Peer) (noReads : Bool) (rest : List Byte)
    (possible : ebWidthPossible (ebWidthRefine (p.widths &&& socketWidths)) = true) :
    parseHeader socketWidths peer (packetHeader p noReads ++ rest) = .proceed p.widths := by
  have flags : ∀ noReads : Bool, (if noReads then 0x10 ||| headerNr else 0x10) &&& headerPf = 0 ∧
      (if noReads then 0x10 ||| headerNr else 0x10) &&& headerPr = 0 ∧
      (if noReads then 0x10 ||| headerNr else (0x10 : Byte)) &&& 0xf0 = 0x10 := by decide
  obtain ⟨request, response, version⟩ := flags noReads
  simp only [packetHeader, List.cons_append, List.nil_append, parseHeader, request, response, version, possible, ne_eq,
    not_true_eq_false, or_self, Bool.true_eq_false, if_false]

theorem sizes_widths : dataSize p.widths = p.data ∧ addrSize p.widths = p.addr := by
  have finite : ∀ data ∈ [1, 2, 4, 8], ∀ addr ∈ [1, 2, 4, 8],
      dataSize (UInt8.ofNat (addr * 16 + data)) = data ∧ addrSize (UInt8.ofNat (addr * 16 + data)) = addr := by decide
  exact finite p.data (by simpa [IsSize] using p.data_size) p.addr (by simpa [IsSize] using p.addr_size)

theorem port_widths (socket : Socket) (word : p.word = socket.word)
    (supported : ebWidthRefine (p.widths &&& socket.widths) = p.widths)
    (possible : ebWidthPossible (ebWidthRefine (p.widths &&& socket.widths)) = true) :
    socket.port p.widths possible = p := by
  obtain ⟨data, addr⟩ := sizes_widths p
  rw [← supported] at data addr
  cases p
  simp only [Socket.port, Port.mk.injEq]
  exact ⟨word.symm, data, addr⟩

variable {σ : Type}

theorem widths_possible (socket : Socket) (supported : ebWidthRefine (p.widths &&& socket.widths) = p.widths) :
    ebWidthPossible (ebWidthRefine (p.widths &&& socket.widths)) = true := by
  have finite : ∀ data ∈ [1, 2, 4, 8], ∀ addr ∈ [1, 2, 4, 8],
      ebWidthPossible (UInt8.ofNat (addr * 16 + data)) = true := by decide
  rw [supported]
  exact finite p.data (by simpa [IsSize] using p.data_size) p.addr (by simpa [IsSize] using p.addr_size)

theorem ebDeviceSlave_answered (socket : Socket) (peer : Peer) (mtu : Nat) (packet : mtu ≠ 0) (bus : Bus σ) (start : σ)
    (word : p.word = socket.word) (supported : ebWidthRefine (p.widths &&& socket.widths) = p.widths)
    (noReads : Bool) (records : List Record) (fits : ∀ r ∈ records, r.Fits p) (whole : endsCycle true records = true)
    (room : (packetHeader p noReads ++ stream p records).length ≤ socket.bufferSize) :
    let called := ebDeviceSlave socket peer mtu bus
      (Link.fresh none start [packetHeader p noReads ++ stream p records])
    called.1 = .more ∧ called.2.trace = (execRecords p bus (opening start) records).1.trace ∧
      called.2.bus = (execRecords p bus (opening start) records).1.bus ∧
      called.2.sent = if asks records then
        [packetHeader p true ++ stream p (execRecords p bus (opening start) records).2] else [] := by
  have possible := widths_possible p socket supported
  have four := p.four_le_recordAlignment
  have header := length_packetHeader p noReads
  have aligned : p.headerAlignment = p.recordAlignment := rfl
  have length : (packetHeader p noReads ++ stream p records).length =
    p.headerAlignment + (stream p records).length := by
    rw [List.length_append, header]
  have parsed := parseHeader_packet p socket.widths peer noReads (stream p records) possible
  have counted := length_le_stream p records
  have polled : poll socket.bufferSize mtu [packetHeader p noReads ++ stream p records] =
      (packetHeader p noReads ++ stream p records, []) := by
    simp only [poll, List.take_of_length_le room, if_pos (Or.inl packet : mtu ≠ 0 ∨ _)]
  simp only [ebDeviceSlave, Link.fresh, polled, if_neg packet, parsed, dif_pos possible,
    port_widths p socket word supported, if_neg
      (show ¬(packetHeader p noReads ++ stream p records).length = 0 by omega),
    if_neg (show ¬(packetHeader p noReads ++ stream p records).length < 2 by omega)]
  have all := slice_store (fun _ => 0) 0 (packetHeader p noReads ++ stream p records)
  obtain ⟨front, rest⟩ := slice_eq_append all
  rw [header] at front rest
  have content : slice (store (fun _ => 0) 0 (packetHeader p noReads ++ stream p records)) p.headerAlignment
      (stream p records).length = stream p records := (congrArg (slice _ · _) (Nat.zero_add _)).symm.trans rest
  -- the flag that announces a reply without reads lies inside the header
  have flagged : ∀ byte, slice (store (store (fun _ => 0) 0 (packetHeader p noReads ++ stream p records)) 2 [byte])
      p.headerAlignment (stream p records).length = stream p records := by
    intro byte
    rw [slice_store_outside _ 2 [byte] _ _ (Or.inr (by simp only [List.length_singleton]; omega)), content]
  have announced : slice (store (store (fun _ => 0) 0 (packetHeader p noReads ++ stream p records)) 2
      [store (fun _ => 0) 0 (packetHeader p noReads ++ stream p records) 2 ||| headerNr]) 0 p.headerAlignment =
      packetHeader p true := by
    have changed := slice_store_byte (store (fun _ => 0) 0 (packetHeader p noReads ++ stream p records))
      0 p.headerAlignment 2
      (· ||| headerNr)
    have modified := modify_packetHeader p noReads []
    rw [List.append_nil, List.append_nil] at modified
    rw [front, modified, Nat.zero_add] at changed
    exact changed
  have delivered : ∀ (st : Machine σ) (fuel : Nat), st.session = opening start → st.cycleEnd = true →
      st.reply = false → st.sent = [] → st.wptr = p.headerAlignment → st.rptr = p.headerAlignment →
      st.eos = (packetHeader p noReads ++ stream p records).length →
      slice st.buf p.headerAlignment (stream p records).length = stream p records →
      slice st.buf 0 p.headerAlignment = packetHeader p true → records.length < fuel →
      (st.slaveLoop p bus mtu fuel).outcome = .more ∧
        (st.slaveLoop p bus mtu fuel).state.session.trace = (execRecords p bus (opening start) records).1.trace ∧
        (st.slaveLoop p bus mtu fuel).state.session.bus = (execRecords p bus (opening start) records).1.bus ∧
        (st.slaveLoop p bus mtu fuel).state.sent = if asks records then
          [packetHeader p true ++ stream p (execRecords p bus (opening start) records).2] else [] := by
    intro st fuel session low unreplied unsent wptr rptr eos known answer enough
    obtain ⟨more, done, _, sent⟩ := slaveLoop_delivered p bus mtu records fuel st fits (by rw [low]; exact whole)
      (by omega) (by omega)
      (by rw [rptr, eos, length, Nat.add_sub_cancel_left, known]) enough
    rw [unreplied, unsent, wptr, answer, session, Bool.false_or, List.nil_append] at sent
    exact ⟨more, by rw [done, session], by rw [done, session], sent⟩
  apply delivered
  · rfl
  · rfl
  · rfl
  · rfl
  · rfl
  · rfl
  · rfl
  · exact flagged _
  · exact announced
  · simp only [Machine.fuelFor, Link.beginPacket, Link.begin, Machine.start]
    omega

theorem ebDeviceSlave_packet (socket : Socket) (peer : Peer) (mtu : Nat) (packet : mtu ≠ 0) (bus : Bus σ) (start : σ)
    (word : p.word = socket.word) (supported : ebWidthRefine (p.widths &&& socket.widths) = p.widths)
    (noReads : Bool) (records : List Record) (fits : ∀ r ∈ records, r.Fits p) (whole : WholeCycle records)
    (room : (packetHeader p noReads ++ stream p records).length ≤ socket.bufferSize) :
    let called := ebDeviceSlave socket peer mtu bus
      (Link.fresh none start [packetHeader p noReads ++ stream p records])
    called.1 = .more ∧ called.2.trace = (execRecords p bus (opening start) records).1.trace := by
  obtain ⟨more, trace, _⟩ :=
    ebDeviceSlave_answered p socket peer mtu packet bus start word supported noReads records fits
    (endsCycle_whole whole true) room
  exact ⟨more, trace⟩

theorem serve_stream {socket : Socket} (port : { p : Port // p.word = socket.word }) (peer : Peer)
    (alone : peer ≠ .transport) (bus : Bus σ) (start : σ) (delivery : Delivery port.val)
    (whole : WholeCycle delivery.records)
    (headers : HeadersWhole port.val true 0 delivery.records 0 delivery.chunks) (calls : Nat)
    (enough : delivery.chunks.length ≤ calls) :
    let served := serve socket peer 0 bus calls (Link.fresh (some port) start delivery.chunks)
    served.1 = .idle ∧
      served.2.trace = (execRecords port.val bus (opening start) delivery.records).1.trace ∧
      served.2.sent.flatten = stream port.val (execRecords port.val bus (opening start) delivery.records).2 := by
  rcases serve_waiting peer bus calls alone (delivery.waiting start) enough with
    ⟨_, start', member, cut, here, inside⟩ | ⟨idle, _, parts, same, located, _, trace, sent⟩
  · exact absurd inside (headers start' member cut here)
  have single := wholeCycle_parts whole same located.some located.ended
  rw [single] at trace sent
  refine ⟨idle, trace, sent.trans ?_⟩
  show stream port.val ((execRecords port.val bus (opening start) delivery.records).2 ++ []) = _
  rw [List.append_nil]

/-- The operations of a cycle, each with the format `eb_device_flush` settled on. -/
def Resolves (listed operations : List Operation) : Prop :=
  List.Forall₂ (fun op op' => op' = { op with format := op'.format }) listed operations

theorem screen_resolves {alloc : Nat → Bool} {cycle : Cycle} {operations : List Operation}
    (screened : screen p alloc cycle = .ok operations) :
    ∃ listed, cycle.ops = .live listed ∧ Resolves listed operations := by
  have all : ∀ listed operations, checkOperations p listed = .ok operations → Resolves listed operations := by
    intro listed
    induction listed with
    | nil =>
      intro operations passed
      cases passed
      exact .nil
    | cons op next ih =>
      intro operations passed
      simp only [checkOperations] at passed
      split at passed
      · cases passed
      next op' first =>
        split at passed
        · cases passed
        next next' rest =>
          cases passed
          exact .cons (accepted_of_check p op op' first).2 (ih next' rest)
  unfold screen at screened
  split at screened
  · cases screened
  · cases screened
  next listed _ live =>
    split at screened
    · cases screened
    next passed =>
      split at screened
      · cases screened
        exact ⟨listed, live, all listed _ passed⟩
      · cases screened

/-- A stream as the receiving end gets it. Its first header arrives unbroken, and every chunk
is one `poll` or `recv` can return. -/
structure Arrives (records : List Record) (bytes : List Byte) (chunks : List (List Byte)) : Prop where
  whole : chunks.flatten = bytes
  some : ∀ chunk ∈ chunks, chunk ≠ []
  granted : Granted p 0 records 0 chunks
  headers : HeadersWhole p true 0 records 0 chunks

/-- What `eb_device_flush` sends for a cycle, `eb_device_slave` executes: the operations in
list order, with nothing but status reads between them. -/
theorem ebDeviceFlush_agreed (socket : Socket) (port : { p : Port // p.word = socket.word }) (peer : Peer)
    (bus : Bus σ) (start : σ) (time : Nat) (rba : UInt16) (alloc : Nat → Bool) (cycle : Cycle)
    (operations : List Operation) (screened : screen port.val alloc cycle = .ok operations)
    (reachable : ∀ op ∈ operations, Reachable port.val op) :
    (∃ listed, cycle.ops = .live listed ∧ Resolves listed operations) ∧
    (∀ chunks calls, peer ≠ .transport → chunks.length ≤ calls →
      Arrives port.val (cycleRecords port.val rba.toNat operations)
        (sends (ebDeviceFlush port.val 0 time alloc rba.toNat [cycle]).effects).flatten chunks →
      let served := serve socket peer 0 bus calls (Link.fresh (some port) start chunks)
      served.1 = .idle ∧ Agreed port.val operations served.2.trace) ∧
    (∀ mtu ≠ 0, ∀ packet ∈ sends (ebDeviceFlush port.val mtu time alloc rba.toNat [cycle]).effects,
      ebWidthRefine (port.val.widths &&& socket.widths) = port.val.widths → packet.length ≤ socket.bufferSize →
      let called := ebDeviceSlave socket peer mtu bus (Link.fresh none start [packet])
      called.1 = .more ∧ Agreed port.val operations called.2.trace) := by
  have accepted := accepted_of_screen port.val screened
  have whole : WholeCycle (cycleRecords port.val rba.toNat operations) :=
    formats_wholeCycle port.val (formatCycle_formats port.val operations accepted)
  have fits := cycleRecords_fits rba.toNat rba.toNat_lt operations accepted
  have agreed := execRecords_agreed bus start rba.toNat operations accepted reachable
  refine ⟨screen_resolves port.val screened, ?_, ?_⟩
  · intro chunks calls alone enough arrives
    let delivery : Delivery port.val :=
      { records := cycleRecords port.val rba.toNat operations
        chunks := chunks
        fits := fits
        ended := endsCycle_whole whole true
        whole := arrives.whole.trans (flush_stream port.val time rba.toNat alloc cycle operations screened)
        some := arrives.some
        granted := arrives.granted }
    obtain ⟨idle, trace, _⟩ := serve_stream port peer alone bus start delivery whole arrives.headers calls enough
    exact ⟨idle, by rw [trace]; exact agreed⟩
  · intro mtu isPacket packet member supported room
    rcases flush_packet port.val mtu time rba.toNat isPacket alloc cycle operations screened with none | ⟨noReads, one⟩
    · rw [none] at member
      cases member
    · rw [one, List.mem_singleton] at member
      subst member
      obtain ⟨more, trace⟩ := ebDeviceSlave_packet port.val socket peer mtu isPacket bus start port.property supported
        noReads (cycleRecords port.val rba.toNat operations) fits whole room
      exact ⟨more, by rw [trace]; exact agreed⟩

end

def mixedCycle : Cycle :=
  ⟨1, .live [⟨0x4000, 7, .write, false, false, true, 0x4⟩, ⟨0x4005, 0, .readVal, false, false, true, 0x21⟩,
    ⟨0x10, 9, .write, true, false, true, 0x4⟩]⟩

def mixedOperations : List Operation :=
  [⟨0x4000, 7, .write, false, false, true, 0x4⟩, ⟨0x4005, 0, .readVal, false, false, true, 0x21⟩,
    ⟨0x10, 9, .write, true, false, true, 0x4⟩]

def mixedBytes : List Byte :=
  (sends (ebDeviceFlush Port.wishbone32 0 0 (fun _ => true) 0x8000 [mixedCycle]).effects).flatten

theorem mixedBytes_arrive : Arrives Port.wishbone32 (cycleRecords Port.wishbone32 0x8000 mixedOperations)
    (sends (ebDeviceFlush Port.wishbone32 0 0 (fun _ => true) 0x8000 [mixedCycle]).effects).flatten [mixedBytes] := by
  refine ⟨by simp [mixedBytes], by decide +kernel, ?_, ?_⟩
  · unfold Granted
    decide +kernel
  · unfold HeadersWhole
    decide +kernel

theorem ebDeviceFlush_agreed_mixed :
    screen Port.wishbone32 (fun _ => true) mixedCycle = .ok mixedOperations ∧
      (serve board .passive 0 broken 1 (Link.fresh (some boardPort) () [mixedBytes])).1 = .idle ∧
      Agreed Port.wishbone32 mixedOperations
        (serve board .passive 0 broken 1 (Link.fresh (some boardPort) () [mixedBytes])).2.trace := by
  have screened : screen Port.wishbone32 (fun _ => true) mixedCycle = .ok mixedOperations := by decide +kernel
  have reachable : ∀ op ∈ mixedOperations, Reachable Port.wishbone32 op := by
    unfold Reachable
    decide
  obtain ⟨_, streamed, _⟩ := ebDeviceFlush_agreed board boardPort .passive broken () 0 0x8000 (fun _ => true) mixedCycle
    mixedOperations screened reachable
  exact ⟨screened, streamed [mixedBytes] 1 (by decide) le_rfl mixedBytes_arrive⟩

def namedRequest (p : Port) : Item → Request
  | .operation op =>
    if op.cfgSpace && !op.isWrite then .cfgRead (UInt8.ofNat (p.addr * 16 + op.size)) op.address
    else operationRequest p op
  | .status => Item.status.request p

/-- The accesses are the operations in list order, config reads at the address they name. -/
def AgreedByName (p : Port) (operations : List Operation) (trace : List Access) : Prop :=
  ∃ asked : List Item, asked.filterMap Item.operation? = operations ∧
    trace.map Access.request = asked.map (namedRequest p)

def littleConfigRead : Operation := ⟨0, 0, .readVal, true, false, false, 0x21⟩

/-- Config space is always big endian: this byte is read at address 3. -/
theorem ebDeviceFlush_config_mirrored :
    screen Port.wishbone32 (fun _ => true) ⟨1, .live [littleConfigRead]⟩ = .ok [littleConfigRead] ∧
      ¬AgreedByName Port.wishbone32 [littleConfigRead] (ebDeviceSlave board .passive 1472 broken (Link.fresh none ()
        (sends (ebDeviceFlush Port.wishbone32 1472 0 (fun _ => true) 0x8000
          [⟨1, .live [littleConfigRead]⟩]).effects))).2.trace := by
  refine ⟨by decide +kernel, ?_⟩
  rintro ⟨asked, operations, requests⟩
  have trace : (ebDeviceSlave board .passive 1472 broken (Link.fresh none ()
      (sends (ebDeviceFlush Port.wishbone32 1472 0 (fun _ => true) 0x8000
        [⟨1, .live [littleConfigRead]⟩]).effects))).2.trace.map Access.request = [.cfgRead 0x41 3] := by decide +kernel
  rw [trace] at requests
  obtain ⟨item, rfl⟩ := List.length_eq_one_iff.mp (by simpa using (congrArg List.length requests).symm)
  cases item with
  | status => cases operations
  | operation op =>
    cases operations
    revert requests
    decide

end BelProject.Etherbone.Transfer
