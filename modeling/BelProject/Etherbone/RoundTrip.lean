import BelProject.Etherbone.Exchanges

/-! A cycle there and back. The packet `eb_device_flush` sends is executed at the other end by
one call of `eb_device_slave`; the packet that call sends back is executed at home by
another, and completes the response the flush left in flight. -/

namespace BelProject.Etherbone.RoundTrip
open BelProject.Library Width Operations Wire Format Flush Packets Requests Header Execute Slave InPlace
  Deliver Segments
  Segmentation Seams Agreement Transfer Answers ReplyRun Exchanges

section
variable {σ τ : Type} {p : Port} {check : Bool} {maxops ops : Nat} {operations : List Operation} {batch : Batch}
  {batches : List Batch}

theorem lanes_fit {op : Operation} {lanes : Lanes} {shift : Nat} (decoded : Decoded p op lanes shift) (value : Nat) :
    replyWord p lanes value < 256 ^ p.alignment := by
  have bits : shift <<< 3 + 8 * op.size ≤ 8 * p.alignment := by
    have := p.data_le_alignment
    have := decoded.shift_le
    rw [Nat.shiftLeft_eq]
    omega
  rw [replyWord, decoded.mask, Nat.and_two_pow_sub_one_eq_mod, decoded.shift_eq, BigEndian.pow_byte, Nat.shiftLeft_eq]
  have small : value % 2 ^ (8 * op.size) < 2 ^ (8 * op.size) := Nat.mod_lt _ (Nat.two_pow_pos _)
  calc (value % 2 ^ (8 * op.size)) * 2 ^ (shift <<< 3) % p.wordMod
      ≤ (value % 2 ^ (8 * op.size)) * 2 ^ (shift <<< 3) := Nat.mod_le _ _
    _ < 2 ^ (8 * op.size) * 2 ^ (shift <<< 3) := Nat.mul_lt_mul_of_pos_right small (Nat.two_pow_pos _)
    _ = 2 ^ (shift <<< 3 + 8 * op.size) := by rw [← pow_add, Nat.add_comm]
    _ ≤ 2 ^ (8 * p.alignment) := Nat.pow_le_pow_right (by decide) bits

theorem length_runRequests (bus : Bus σ) (s : Session σ) (requests : List Request) :
    (runRequests bus s requests).2.length = requests.length := by
  induction requests generalizing s with
  | nil => rfl
  | cons request requests ih => exact congrArg (· + 1) (ih _)

theorem execRecord_reply_fits (rba : Nat) (small : rba < 2 ^ 16) (accepted : ∀ op ∈ operations, Accepted p op)
    (spec : batch.Spec p check maxops ops operations) (bus : Bus σ) (s : Session σ) :
    ∀ r ∈ (execRecord p bus s (batch.toRecord p rba)).2, r.Fits p := by
  have fits := toRecord_fits rba small accepted spec
  have bare : cycleEndRecord.Fits p :=
    ⟨by decide, by decide, Nat.pow_pos (by decide), by simp [cycleEndRecord], Nat.pow_pos (by decide),
      by simp [cycleEndRecord]⟩
  obtain ⟨lined, _⟩ := carriedBatch_lined accepted spec
  rw [(execRecord_items bus s rba accepted spec).2]
  intro r member
  rcases List.mem_append.mp member with answered | ended
  · split at answered
    · cases answered
    next some =>
      rw [List.mem_singleton.mp answered]
      obtain ⟨op, found⟩ : ∃ op, op ∈ asked p (carriedBatch p batch) :=
        List.exists_mem_of_ne_nil _ (by simpa using some)
      have count : (readValues p bus s (carriedBatch p batch)).length ≤ 255 := by
        rw [readValues, length_runRequests, List.length_map, asked_carried]
        split
        · exact (by decide : (1 : Nat) ≤ 255)
        · rw [List.length_map]
          exact spec.reads_length
      refine ⟨?_, Nat.zero_le _, fits.bra_lt, ?_, Nat.pow_pos (by decide), by simp [replyRecord]⟩
      · rw [replyRecord, List.length_map]
        exact count
      · intro value inside
        obtain ⟨returned, _, rfl⟩ := List.mem_map.mp inside
        obtain ⟨_, _, _, decoded⟩ := lined.reads op found
        exact lanes_fit decoded returned
  · split at ended
    · rw [List.mem_singleton.mp ended]
      exact bare
    · cases ended

theorem length_replies_le (bus : Bus σ) (s : Session σ) (records : List Record) :
    (stream p (execRecords p bus s records).2).length ≤ (stream p records).length := by
  induction records generalizing s with
  | nil => exact le_rfl
  | cons r records ih =>
    have here := SlaveSafety.length_reply_le p bus s r
    have later := ih (execRecord p bus s r).1
    have reads : span p r.reads.length ≤ r.total * p.alignment := by
      apply Nat.mul_le_mul_right
      rw [Record.total]
      omega
    rw [stream_cons, List.length_append, Record.length_encode]
    simp only [execRecords, stream_append, List.length_append]
    rw [stream]
    omega

theorem endsCycle_reply (bus : Bus σ) (r : Record) (s : Session σ) :
    endsCycle (!s.cycleOpen) (execRecord p bus s r).2 = (r.has recordCyc || !(execRecord p bus s r).1.cycleOpen) := by
  have opened := execRecord_cycleOpen p bus s r
  have ended : cycleEndRecord.has recordCyc = true := by decide
  have answers : (execRecord p bus s r).2 = (execReadPart p bus (execWritePart p bus s r) r).2 ++
      if (execRecord p bus s r).1.cycleOpen && r.has recordCyc then [cycleEndRecord] else [] := rfl
  rw [answers, endsCycle_append, opened, stillOpen, execReadPart]
  cases empty : r.reads.isEmpty with
  | true =>
    simp only [if_true, endsCycle]
    cases s.cycleOpen <;> cases r.has recordCyc <;> simp [endsCycle, ended]
  | false =>
    have cyc := fun replies => (replyRecord_flags r replies).2.2
    simp only [Bool.false_eq_true, if_false, endsCycle, cyc]
    cases r.has recordCyc <;> simp [endsCycle]

/-- Records that answer some accesses: they can be transmitted, they take the cycle line from
`before` to `after`, and executed at home they are the words for these accesses. -/
structure Returned (p : Port) (home : Bus τ) (rba : Nat) (before after : Bool) (served : List (Item × Access))
    (replies : List Record) : Prop where
  fits : ∀ r ∈ replies, r.Fits p
  line : endsCycle before replies = after
  written : ∀ m : Session τ, m.cycleOpen = false → execRecords p home m replies =
    ((runRequests home m ((served.filterMap (reply p rba)).map writeBack)).1, [])

theorem Returned.append {home : Bus τ} {rba : Nat} {before between after : Bool} {first second : List (Item × Access)}
    {replies replies' : List Record} (head : Returned p home rba before between first replies)
    (tail : Returned p home rba between after second replies') :
    Returned p home rba before after (first ++ second) (replies ++ replies') := by
  refine ⟨List.forall_mem_append.mpr ⟨head.fits, tail.fits⟩, ?_, fun m closed => ?_⟩
  · rw [endsCycle_append, head.line, tail.line]
  · have still := (runRequests_cycleOpen home m ((first.filterMap (reply p rba)).map writeBack)).trans closed
    rw [execRecords_append, head.written m closed, tail.written _ still, List.filterMap_append, List.map_append,
      runRequests_append]
    rfl

theorem formats_returned (bus : Bus σ) (home : Bus τ) (rba : Nat) (small : rba < 2 ^ 16)
    (formats : Formats p check maxops ops operations batches) (accepted : ∀ op ∈ operations, Accepted p op) :
    ∀ s : Session σ, (execRecords p bus s (batches.map (Batch.toRecord p rba))).1.trace =
        s.trace ++ (exchanges p bus s (batches.flatMap items)).map Prod.snd ∧
      Returned p home rba (!s.cycleOpen) true (exchanges p bus s (batches.flatMap items))
        (execRecords p bus s (batches.map (Batch.toRecord p rba))).2 := by
  have one : ∀ (s : Session σ) {ops : Nat} {operations : List Operation} {batch : Batch},
      (∀ op ∈ operations, Accepted p op) → batch.Spec p check maxops ops operations →
      Returned p home rba (!s.cycleOpen) (batch.cycleEnd || !(execRecord p bus s (batch.toRecord p rba)).1.cycleOpen)
        (exchanges p bus s (items batch)) (execRecord p bus s (batch.toRecord p rba)).2 := by
    intro s ops operations batch accepted spec
    have line := endsCycle_reply (p := p) bus (batch.toRecord p rba) s
    rw [toRecord_cyc p rba batch] at line
    exact ⟨execRecord_reply_fits rba small accepted spec bus s, line,
      fun m closed => record_written bus home s m closed rba accepted spec⟩
  apply Formats.rule (P := fun _ _ batches => ∀ s : Session σ,
    (execRecords p bus s (batches.map (Batch.toRecord p rba))).1.trace =
        s.trace ++ (exchanges p bus s (batches.flatMap items)).map Prod.snd ∧
      Returned p home rba (!s.cycleOpen) true (exchanges p bus s (batches.flatMap items))
        (execRecords p bus s (batches.map (Batch.toRecord p rba))).2) _ _ formats accepted
  · intro ops operations accepted spec ended s
    have here := one s accepted spec
    rw [ended, Bool.true_or] at here
    have only := exchanges_record bus s rba accepted spec
    simpa only [List.flatMap_singleton, List.map_singleton, execRecords, List.append_nil] using And.intro only here
  · intro ops operations batches accepted spec running rest s
    have here := one s accepted spec
    obtain ⟨made, later⟩ := rest (execRecord p bus s ((planRecord p check maxops ops operations).toRecord p rba)).1
    rw [running, Bool.false_or] at here
    rw [exchanges_behind bus s rba accepted spec] at made later
    rw [exchanges_record bus s rba accepted spec, List.append_assoc, ← List.map_append] at made
    rw [List.flatMap_cons, exchanges_append]
    exact ⟨made, here.append later⟩

variable {response : Response}

theorem finish_responds (mtu : Nat) (s : Pack)
    (claimed : .respond response ∈ (s.finish p mtu).effects) : .respond response ∈ s.effects := by
  unfold Pack.finish at claimed
  simp only [Pack.emit] at claimed
  split at claimed
  · split at claimed <;> simpa [Pack.emit] using claimed
  · split at claimed
    · simpa [Pack.emit, toggle_effects] using claimed
    · simpa [Pack.emit] using claimed

theorem flush_responds (mtu time rba : Nat) (packet : mtu ≠ 0) (alloc : Nat → Bool) (cycle : Cycle)
    (operations : List Operation) (screened : screen p alloc cycle = .ok operations)
    (claimed : .respond response ∈ (ebDeviceFlush p mtu time alloc rba [cycle]).effects) :
    response = newResponse time rba cycle.handle operations ∧ readback (formatCycle p operations) = true := by
  have header : (Pack.begin p mtu rba).buffer = packetHeader p false := by simp [Pack.begin, packet]
  obtain ⟨effects, _, _⟩ := records_alone p mtu rba packet (formatCycle p operations) (Pack.begin p mtu rba)
    (by simp [Pack.begin, headerSize, packet]) (by rw [header, length_packetHeader])
  obtain ⟨_, kept⟩ := records_frame p mtu rba (formatCycle p operations) (Pack.begin p mtu rba)
  have started : (Pack.begin p mtu rba).rba = rba := rfl
  have quiet : .respond response ∉ (Pack.begin p mtu rba).effects := by simp [Pack.begin]
  have flushed := finish_responds mtu _ claimed
  simp only [List.reverse_singleton, List.foldl_cons, List.foldl_nil, flushCycle, screened, started] at flushed
  rw [← effects] at quiet
  generalize (Pack.begin p mtu rba).records p mtu rba (formatCycle p operations) = result at flushed kept quiet
  obtain ⟨s, rest⟩ := result
  have number : s.rba = rba := kept.trans started
  cases rest with
  | some rest =>
    dsimp only [Pack.emit] at flushed
    rcases List.mem_append.mp flushed with before | last
    · exact absurd before quiet
    · simp at last
  | none =>
    dsimp only at flushed
    split at flushed
    next reads =>
      dsimp only [Pack.emit] at flushed
      rcases List.mem_append.mp flushed with before | last
      · exact absurd before quiet
      · rw [List.mem_singleton, Effect.respond.injEq] at last
        exact ⟨by rw [last, number], reads⟩
    · dsimp only [Pack.emit] at flushed
      rcases List.mem_append.mp flushed with before | last
      · exact absurd before quiet
      · simp at last

theorem flush_in_flight (mtu time rba : Nat) (packet : mtu ≠ 0) (alloc : Nat → Bool) (cycle : Cycle)
    (operations : List Operation) (screened : screen p alloc cycle = .ok operations) {bytes : List Byte}
    (claimed : .respond response ∈ (ebDeviceFlush p mtu time alloc rba [cycle]).effects)
    (sent : bytes ∈ sends (ebDeviceFlush p mtu time alloc rba [cycle]).effects) :
    response = newResponse time rba cycle.handle operations ∧ readback (formatCycle p operations) = true ∧
      bytes = packetHeader p false ++ stream p (cycleRecords p rba operations) := by
  obtain ⟨same, reads⟩ := flush_responds mtu time rba packet alloc cycle operations screened claimed
  refine ⟨same, reads, ?_⟩
  rcases flush_announced p mtu time rba packet alloc cycle operations screened with none | one
  · rw [none] at sent
    cases sent
  · rw [one, List.mem_singleton, reads] at sent
    exact sent

theorem readback_replies (rba : Nat) (formats : Formats p check maxops ops operations batches)
    (accepted : ∀ op ∈ operations, Accepted p op) : readback batches = true →
      ∀ {exchanges : List (Item × Access)}, exchanges.map Prod.fst = batches.flatMap items →
        exchanges.filterMap (reply p rba) ≠ [] := by
  have found : readback batches = true → ∃ item ∈ batches.flatMap items, ∀ op, item = .operation op →
    op.isWrite = false := by
    have one : ∀ {ops : Nat} {operations : List Operation} {batch : Batch}, batch.Spec p check maxops ops operations →
        (batch.inserted || !batch.reads.isEmpty) = true →
        ∃ item ∈ items batch, ∀ op, item = .operation op → op.isWrite = false := by
      intro ops operations batch spec reads
      cases inserted : batch.inserted with
      | true => exact ⟨.status, by simp [items, inserted], by simp⟩
      | false =>
        rw [inserted, Bool.false_or] at reads
        obtain ⟨op, member⟩ := List.exists_mem_of_ne_nil batch.reads (by simpa using reads)
        refine ⟨.operation op, by simp [items, member], ?_⟩
        rintro other ⟨⟩
        exact spec.reads.isRead op member
    apply Formats.rule (P := fun _ _ batches => readback batches = true →
      ∃ item ∈ batches.flatMap items, ∀ op, item = .operation op → op.isWrite = false) _ _ formats accepted
    · intro ops operations _ spec _ reads
      rw [readback, List.any_cons, List.any_nil, Bool.or_false] at reads
      rw [List.flatMap_singleton]
      exact one spec reads
    · intro ops operations batches _ spec _ rest reads
      rw [readback, List.any_cons, Bool.or_eq_true] at reads
      rcases reads with here | later
      · obtain ⟨item, member, read⟩ := one spec here
        exact ⟨item, List.mem_append_left _ member, read⟩
      · obtain ⟨item, member, read⟩ := rest later
        exact ⟨item, List.mem_append_right _ member, read⟩
  intro reads exchanges same none
  obtain ⟨item, member, read⟩ := found reads
  rw [← same] at member
  obtain ⟨exchange, inside, rfl⟩ := List.mem_map.mp member
  rw [List.filterMap_eq_nil_iff] at none
  obtain ⟨op, operation, isWrite⟩ := (reply_none_iff p rba exchange).mp (none exchange inside)
  rw [read op operation] at isWrite
  cases isWrite

/-- The local bus of a socket with responses in flight. -/
def Inbox.bus (devices : Bus Inbox) : Bus Inbox :=
  { devices with writeConfig := fun inbox widths addr value => inbox.ebSocketWriteConfig ⟨widths, addr, value⟩ }

theorem runRequests_writeBack (devices : Bus Inbox) (m : Session Inbox) (writes : List ConfigWrite) :
    (runRequests (Inbox.bus devices) m (writes.map writeBack)).1.bus = writes.foldl Inbox.ebSocketWriteConfig m.bus ∧
      (runRequests (Inbox.bus devices) m (writes.map writeBack)).1.trace.map Access.request =
        m.trace.map Access.request ++ writes.map writeBack := by
  induction writes generalizing m with
  | nil => exact ⟨rfl, (List.append_nil _).symm⟩
  | cons write writes ih =>
    obtain ⟨bus, trace⟩ := ih (perform (Inbox.bus devices) m (writeBack write)).1
    refine ⟨bus, trace.trans ?_⟩
    show (m.trace ++ [_]).map Access.request ++ _ = _
    rw [List.map_append, List.append_assoc]
    rfl

theorem newResponse_awaiting (time rba handle : Nat) (operations : List Operation) :
    Awaiting (needsCheck operations) [] [] operations (newResponse time rba handle operations) :=
  ⟨rfl, rfl, rfl⟩

theorem formatCycle_asks (accepted : ∀ op ∈ operations, Accepted p op)
    (few : needsCheck operations = false → busCount operations < 2 ^ 32 - 1) :
    Asks (needsCheck operations) (maxOps p (needsCheck operations)) 0 operations
      ((formatCycle p operations).flatMap items) := by
  apply formats_asks p (formatCycle_formats p operations accepted) accepted (maxOps_pos p _) (Nat.zero_le _)
  intro plain
  rw [plain, Nat.zero_add]
  exact few plain

structure Reported (p : Port) (devices : Bus Inbox) (size rba : Nat) (operations : List Operation)
    (served : List (Item × Access)) (bytes : List Byte) : Prop where
  itemized : served.map Prod.fst = (formatCycle p operations).flatMap items
  operations : (own served).map Prod.fst = operations
  requests : ∀ exchange ∈ served, exchange.2.request = carriedRequest p exchange.1
  truthful : Truthful p 0 served
  records : ∃ replies, bytes = packetHeader p true ++ stream p replies ∧
    Returned p (Inbox.bus devices) rba true true served replies
  room : bytes.length ≤ size

section
variable (home : Socket) (word : p.word = home.word) (supported : ebWidthRefine (p.widths &&& home.widths) = p.widths)
  (peer : Peer) {mtu : Nat} (packet : mtu ≠ 0) {devices : Bus Inbox} (time : Nat) {rba : Nat} (small : rba < 2 ^ 16)
  (even : rba % 2 = 0) (handle : Nat) (accepted : ∀ op ∈ operations, Accepted p op)
  (few : needsCheck operations = false → busCount operations < 2 ^ 32 - 1)
  (reads : readback (formatCycle p operations) = true) {inbox : Inbox} {front back : List Response}
  (queued : inbox.queue = front ++ newResponse time rba handle operations :: back)
  (others : ∀ other ∈ front, other.address ≠ rba) {served : List (Item × Access)}
include word supported packet small even accepted few reads queued others

theorem Returned.completes {error : Nat} {replies : List Record}
    (itemized : served.map Prod.fst = (formatCycle p operations).flatMap items) (truthful : Truthful p error served)
    (returned : Returned p (Inbox.bus devices) rba true true served replies)
    (room : (packetHeader p true ++ stream p replies).length ≤ home.bufferSize) :
    let called := ebDeviceSlave home peer mtu (Inbox.bus devices)
      (Link.fresh none inbox [packetHeader p true ++ stream p replies])
    ∃ writes, (own served).map Prod.fst = operations ∧ called.1 = .more ∧
      called.2.trace.map Access.request = writes.map writeBack ∧
      called.2.bus = writes.foldl Inbox.ebSocketWriteConfig inbox ∧
      Completes (needsCheck operations) front back handle inbox writes (own served)
        ((own served).filterMap delivered) := by
  have formats := formatCycle_formats p operations accepted
  obtain ⟨more, trace, bus, _⟩ := ebDeviceSlave_answered p home peer mtu packet (Inbox.bus devices) inbox word supported
    true replies returned.fits returned.line room
  have written := returned.written (opening inbox) rfl
  obtain ⟨stepped, wrote⟩ := runRequests_writeBack devices (opening inbox) (served.filterMap (reply p rba))
  have asks := formatCycle_asks accepted few
  have completes := run_completes (p := p) asks (by
      intro checked
      rw [checked]
      rfl)
    itemized truthful (newResponse_awaiting time rba handle operations)
      (Recorded.fresh _ _ _) queued others rfl rfl even
    small (readback_replies rba formats accepted reads itemized)
  refine ⟨_, ?_, more, ?_, ?_, completes⟩
  · rw [own_operations, itemized, asks_operations asks]
  · rw [trace]
    exact (congrArg (fun result => result.1.trace.map Access.request) written).trans wrote
  · rw [bus]
    exact (congrArg (fun result => result.1.bus) written).trans stepped

theorem Reported.completes {bytes : List Byte}
    (reported : Reported p devices home.bufferSize rba operations served bytes) :
    let called := ebDeviceSlave home peer mtu (Inbox.bus devices) (Link.fresh none inbox [bytes])
    ∃ writes, called.1 = .more ∧ called.2.trace.map Access.request = writes.map writeBack ∧
      called.2.bus = writes.foldl Inbox.ebSocketWriteConfig inbox ∧
      Completes (needsCheck operations) front back handle inbox writes (own served)
        ((own served).filterMap delivered) := by
  obtain ⟨replies, rfl, returned⟩ := reported.records
  obtain ⟨writes, _, completed⟩ :=
    returned.completes home word supported peer packet time small even handle accepted few reads
    queued others reported.itemized reported.truthful reported.room
  exact ⟨writes, completed⟩

end

theorem cycle_served (socket home : Socket) (word : p.word = socket.word) (word' : p.word = home.word)
    (supported : ebWidthRefine (p.widths &&& socket.widths) = p.widths) (peer : Peer) {mtu : Nat} (packet : mtu ≠ 0)
    (bus : Bus σ) (start : σ) (devices : Bus Inbox) {rba : Nat} (small : rba < 2 ^ 16)
    (accepted : ∀ op ∈ operations, Accepted p op)
    (few : needsCheck operations = false → busCount operations < 2 ^ 32 - 1)
    (reads : readback (formatCycle p operations) = true)
    (room : (packetHeader p false ++ stream p (cycleRecords p rba operations)).length ≤ socket.bufferSize) :
    let called := ebDeviceSlave socket peer mtu bus
      (Link.fresh none start [packetHeader p false ++ stream p (cycleRecords p rba operations)])
    ∃ served bytes, called.1 = .more ∧ called.2.trace = served.map Prod.snd ∧ called.2.sent = [bytes] ∧
      Reported p devices home.bufferSize rba operations served bytes := by
  have formats := formatCycle_formats p operations accepted
  obtain ⟨more, trace, _, answered⟩ := ebDeviceSlave_answered p socket peer mtu packet bus start word supported false
    (cycleRecords p rba operations) (cycleRecords_fits rba small operations accepted)
    (endsCycle_whole (formats_wholeCycle p formats) true) room
  have asked : asks (cycleRecords p rba operations) = true := (readback_records p rba _).symm.trans reads
  rw [asked, if_pos rfl] at answered
  obtain ⟨made, returned⟩ := formats_returned bus (Inbox.bus devices) rba small formats accepted (opening start)
  have shorter := length_replies_le (p := p) bus (opening start) (cycleRecords p rba operations)
  have same : home.bufferSize = socket.bufferSize := by rw [Socket.bufferSize, Socket.bufferSize, ← word, ← word']
  have itemized := exchanges_items p bus (opening start) ((formatCycle p operations).flatMap items)
  have own := (own_operations _).trans ((congrArg _ itemized).trans (asks_operations (formatCycle_asks accepted few)))
  refine ⟨_, _, more, trace.trans made, answered, itemized, own,
    exchanges_requests p bus (opening start) _, exchanges_truthful p bus (opening start) _, ⟨_, rfl, returned⟩, ?_⟩
  rw [List.length_append, length_packetHeader] at room ⊢
  omega

/-- There and back: the packet of a cycle, executed at the other end, is answered with a packet
that completes the response at home. Every operation carries the answer of its own access. -/
theorem ebDeviceFlush_completed (socket home : Socket) (word : p.word = socket.word) (word' : p.word = home.word)
    (supported : ebWidthRefine (p.widths &&& socket.widths) = p.widths)
    (supported' : ebWidthRefine (p.widths &&& home.widths) = p.widths) (peer peer' : Peer) {mtu : Nat}
    (packet : mtu ≠ 0)
    (bus : Bus σ) (start : σ) (devices : Bus Inbox) (time : Nat) (rba : UInt16) (even : rba.toNat % 2 = 0)
    (alloc : Nat → Bool) (cycle : Cycle) (operations : List Operation)
    (screened : screen p alloc cycle = .ok operations)
    (few : needsCheck operations = false → busCount operations < 2 ^ 32 - 1) (response : Response) (bytes : List Byte)
    (claimed : .respond response ∈ (ebDeviceFlush p mtu time alloc rba.toNat [cycle]).effects)
    (sent : bytes ∈ sends (ebDeviceFlush p mtu time alloc rba.toNat [cycle]).effects)
    (room : bytes.length ≤ socket.bufferSize) (inbox : Inbox) (front back : List Response)
    (queued : inbox.queue = front ++ response :: back) (others : ∀ other ∈ front, other.address ≠ rba.toNat) :
    let called := ebDeviceSlave socket peer mtu bus (Link.fresh none start [bytes])
    let returned := ebDeviceSlave home peer' mtu (Inbox.bus devices) (Link.fresh none inbox called.2.sent)
    ∃ (exchanges : List (Item × Access)) (writes : List ConfigWrite),
      called.1 = .more ∧ called.2.trace = exchanges.map Prod.snd ∧ (own exchanges).map Prod.fst = operations ∧
      (∀ exchange ∈ exchanges, exchange.2.request = carriedRequest p exchange.1) ∧
      returned.1 = .more ∧ returned.2.trace.map Access.request = writes.map writeBack ∧
      returned.2.bus = writes.foldl Inbox.ebSocketWriteConfig inbox ∧
      Completes (needsCheck operations) front back cycle.handle inbox writes (own exchanges)
        ((own exchanges).filterMap delivered) := by
  have accepted := accepted_of_screen p screened
  obtain ⟨rfl, reads, rfl⟩ := flush_in_flight mtu time rba.toNat packet alloc cycle operations screened claimed sent
  obtain ⟨exchanges, _, more, trace, answered, reported⟩ :=
    cycle_served socket home word word' supported peer packet bus
    start devices rba.toNat_lt accepted few reads room
  -- the packet that comes back
  obtain ⟨writes, completed⟩ :=
    reported.completes home word' supported' peer' packet time rba.toNat_lt even cycle.handle
    accepted few reads queued others
  refine ⟨exchanges, writes, more, trace, reported.operations, reported.requests, ?_⟩
  rw [answered]
  exact completed

end

def mixedPacket : List Byte :=
  packetHeader Port.wishbone32 false ++ stream Port.wishbone32 (cycleRecords Port.wishbone32 0x8000 mixedOperations)

def mixedResponse : Response := newResponse 0 0x8000 1 mixedOperations

/-- Nothing but the responses in flight is on the bus at home. -/
def nobody : Bus Inbox :=
  ⟨fun inbox _ _ _ => (0, true, inbox), fun inbox _ _ _ _ => (true, inbox), fun inbox _ _ _ => inbox⟩

theorem ebDeviceFlush_completed_mixed : ∃ (exchanges : List (Item × Access)) (writes : List ConfigWrite),
    (own exchanges).map Prod.fst = mixedOperations ∧
      Completes true [] [] 1 ⟨[mixedResponse], [], []⟩ writes (own exchanges)
        ((own exchanges).filterMap delivered) := by
  obtain ⟨exchanges, writes, _, _, operations, _, _, _, _, completes⟩ := ebDeviceFlush_completed (p := Port.wishbone32)
    board board rfl rfl (by decide) (by decide) .passive .active (by decide : 1472 ≠ 0) broken () nobody 0 0x8000
    (by decide) (fun _ => true) mixedCycle mixedOperations (by decide +kernel) (by decide) mixedResponse mixedPacket
    (by decide +kernel) (by decide +kernel) (by decide +kernel) ⟨[mixedResponse], [], []⟩ [] [] rfl (by simp)
  exact ⟨exchanges, writes, operations, completes⟩

end BelProject.Etherbone.RoundTrip
