import BelProject.Interop.Return

/-! A cycle there and back through the slave core. The packet of `eb_device_flush` is one of the
packets a core takes in some run; the frame the core answers with, read by `eb_device_slave`
where the packet came from, completes the response that was left in flight. -/

namespace BelProject.Interop.CoreTrip
open BelProject.Library Etherbone Width Operations Wire Format Requests Flush Packets Agreement Transfer Answers
open ReplyRun Exchanges RoundTrip Words Service Return
open Execute (Session Bus)
open Deliver (endsCycle opening)
open Slave Header
open Segmentation (shifts)
open SlaveCore Headers Fsm Requests Core Frames History Drain Grammar Replies

theorem shiftError_toNat (errreg : BitVec 64) (ack : Bool) :
    (Core.shiftError errreg ack).toNat = Execute.shiftError errreg.toNat (!ack) := by
  have shifted : errreg.toNat <<< 1 % 2 ^ 64 = (errreg.toNat % 2 ^ 63) <<< 1 := by
    rw [Nat.shiftLeft_eq, Nat.shiftLeft_eq, pow_one, show 2 ^ 64 = 2 ^ 63 * 2 from rfl, Nat.mul_mod_mul_right]
  have bit : (BitVec.ofBool (!ack)).toNat = (!ack).toNat % 2 ^ 64 := by cases ack <;> rfl
  rw [Core.shiftError, BitVec.toNat_append, BitVec.extractLsb'_toNat, Nat.shiftRight_zero, bit, ← shifted,
    Execute.shiftError, Nat.or_mod_two_pow]

theorem errors_register {p : Port} (log : List Token) (entry : Token × Word) {item : Item}
    (tag : entry.1.cell.tag = coreTag item) :
    (errors (log ++ [entry.1])).toNat = register (errors log).toNat (accessOf p item entry) := by
  have counted : isWbm (coreTag item) = !decide (shifts (carriedRequest p item) = 0) := by
    cases item with
    | operation op =>
      rw [carriedRequest, shifts_operation, (carried_fields p op).1, coreTag]
      cases op.isWrite <;> cases op.cfgSpace <;> rfl
    | status => rfl
  rw [errors_append, register, tag, counted]
  show _ = if shifts (carriedRequest p item) = 0 then _ else _
  by_cases config : shifts (carriedRequest p item) = 0
  · rw [decide_eq_true config, if_neg (by decide), if_pos config]
  · rw [decide_eq_false config, if_pos (by decide), if_neg config, shiftError_toNat, accessOf, tag, counted,
      decide_eq_false config]
    rfl

theorem status_value {p : Port} (data : p.data = 4) {entry : Token × Word} {errreg : BitVec 64} {sdbAddress : Word}
    {regs : CfgRegs} (tag : entry.1.cell.tag = coreTag .status)
    (access : entry.1.cell.access = some (coreAccess p .status))
    (word : entry.2 = entry.1.word errreg sdbAddress regs) :
    (accessOf p .status entry).value % 2 ^ (8 * p.data) = errreg.toNat % 2 ^ (8 * p.data) := by
  have place : cfgOf entry.1.cell = some 1 := by
    rw [cfgOf, tag, access, coreAccess, Port.stride, data]
    rfl
  have value : entry.2 = errreg.extractLsb' 0 32 := by
    rw [word, Token.word, tag, place]
    rfl
  have result : isRead (coreTag .status) = true := rfl
  have lane : (accessOf p .status entry).value = entry.2.toNat % 2 ^ (8 * p.data) := by
    simp only [accessOf, tag, result, if_true]
    rfl
  rw [lane, Nat.mod_mod, value, BitVec.extractLsb'_toNat, Nat.shiftRight_zero, data]
  exact Nat.mod_mod _ _

theorem served_truthful {p : Port} (data : p.data = 4) {sdbAddress : Word} {items : List Item}
    (before : List (Token × Word)) {entries : List (Token × Word)}
    (asked : accesses (entryCells entries) = items.map (demand p))
    (marked : Marked (entryCells entries))
    (faithful : ∀ early entry late, entries = early ++ entry :: late → ∃ regs : CfgRegs,
      entry.2 = entry.1.word (errors ((before ++ early).map Prod.fst)) sdbAddress regs) :
    Truthful p (errors (before.map Prod.fst)).toNat (served p items entries) := by
  induction entries generalizing items before with
  | nil =>
    obtain rfl := List.map_eq_nil_iff.mp asked.symm
    trivial
  | cons entry entries ih =>
    obtain ⟨here, later⟩ := List.forall_mem_cons.mp marked
    have next := fun {items : List Item} (asked : accesses (entryCells entries) = items.map (demand p)) =>
      ih (before ++ [entry]) asked later (by
        intro early other late split
        rw [List.append_assoc]
        exact faithful (entry :: early) other late (congrArg (entry :: ·) split))
    rw [List.map_append, List.map_singleton] at next
    rw [accesses_cons] at asked
    rw [served, accessed_cons]
    cases one : entry.1.cell.access with
    | none =>
      rw [one] at asked here
      have quiet : isWbm entry.1.cell.tag = false := (Bool.or_eq_false_iff.mp here.symm).2
      rw [errors_append, quiet, if_neg (by decide)] at next
      exact next asked
    | some access =>
      rw [one] at asked
      obtain ⟨item, items, rfl, first, rest⟩ := List.map_eq_cons_iff.mp asked.symm
      rw [demand, Prod.mk.injEq] at first
      obtain ⟨regs, word⟩ := faithful [] entry entries rfl
      rw [List.append_nil] at word
      rw [errors_register _ entry first.1.symm] at next
      refine ⟨rfl, ?_, next rest.symm⟩
      rintro rfl
      exact status_value data first.1.symm (one.trans (congrArg some first.2.symm)) word

theorem wordBytes_length (word : Word) : (wordBytes word).length = 4 := BigEndian.length_encode _ _

theorem length_frameBytes (words : List Word) : (frameBytes words).length = 4 * words.length := by
  induction words with
  | nil => rfl
  | cons word words ih =>
    show (wordBytes word ++ frameBytes words).length = _
    rw [List.length_append, wordBytes_length, ih, List.length_cons]
    omega

theorem frameBytes_injective {first second : List Word} (same : frameBytes first = frameBytes second) :
    first = second := by
  induction first generalizing second with
  | nil =>
    have none := congrArg List.length same
    rw [length_frameBytes, length_frameBytes, List.length_nil] at none
    exact (List.eq_nil_of_length_eq_zero (by omega)).symm
  | cons word first ih =>
    cases second with
    | nil =>
      have none := congrArg List.length same
      rw [length_frameBytes, length_frameBytes, List.length_cons, List.length_nil] at none
      omega
    | cons word' second =>
      obtain ⟨head, tail⟩ := List.append_inj
        (show wordBytes word ++ frameBytes first = wordBytes word' ++ frameBytes second from same)
        (by rw [wordBytes_length, wordBytes_length])
      have value : word.toNat = word'.toNat := by
        have decoded := congrArg BigEndian.decode head
        rw [wordBytes, wordBytes, BigEndian.decode_encode_of_lt word.isLt,
          BigEndian.decode_encode_of_lt word'.isLt] at decoded
        exact decoded
      rw [BitVec.eq_of_toNat_eq value, ih tail]

/-- A record without the bases that are not transmitted. -/
def canonical (r : Request) : Request :=
  { r with
    baseWrite := if r.writes.isEmpty then 0 else r.baseWrite
    baseRet := if r.reads.isEmpty then 0 else r.baseRet }

theorem canonical_canonical (r : Request) : Canonical (canonical r) := by
  constructor
  · intro none
    exact if_pos (List.isEmpty_iff.mpr none)
  · intro none
    exact if_pos (List.isEmpty_iff.mpr none)

theorem cells_canonical (r : Request) : (canonical r).cells = r.cells := by
  obtain ⟨hdr, baseWrite, writes, baseRet, reads, _, _⟩ := r
  cases writes <;> cases reads <;> rfl

theorem cells_determined {first second : List Request} (same : first.flatMap recordWords = second.flatMap recordWords) :
    first.flatMap Request.cells = second.flatMap Request.cells := by
  have plain : ∀ records : List Request, (records.map canonical).flatMap recordWords = records.flatMap recordWords ∧
      (records.map canonical).flatMap Request.cells = records.flatMap Request.cells := by
    intro records
    rw [List.flatMap_map, List.flatMap_map]
    refine ⟨List.flatMap_congr fun r _ => ?_, List.flatMap_congr fun r _ => cells_canonical r⟩
    rw [← cells_words, ← cells_words, cells_canonical]
  have parsed : ∀ records : List Request, parseRecords (records.flatMap recordWords).length
    (records.flatMap recordWords) =
      some (records.map canonical) := by
    intro records
    rw [← (plain records).1]
    apply parseRecords_flatMap _ le_rfl
    intro r member
    obtain ⟨r', _, rfl⟩ := List.mem_map.mp member
    exact canonical_canonical r'
  have records : first.map canonical = second.map canonical := by
    rw [← Option.some.injEq, ← parsed first, ← parsed second, same]
  rw [← (plain first).2, ← (plain second).2, records]

/-- The header of a packet that asks for an answer. -/
def requestHdr : EbHdr := { cEbInit with noResponse := false }

variable {request : Packet}

theorem request_cells {p : Port} (data : p.data = 4) (addr : p.addr = 4) {records : List Record}
    (fits : ∀ r ∈ records, r.Fits p)
    (same : frameBytes (request.cells.map Prod.fst) = packetHeader p false ++ stream p records) :
    request.hdr = requestHdr ∧
      request.records.flatMap Request.cells = (records.map coreRequest).flatMap Request.cells := by
  obtain ⟨alignment, _, _⟩ := layout32 data addr
  have words : packetHeader p false ++ stream p records =
      frameBytes (fFormatEb requestHdr :: (records.map coreRequest).flatMap recordWords) := by
    have back : (records.map coreRequest).map recordOf = records := by
      rw [List.map_map]
      apply (List.map_congr_left _).trans (List.map_id' _)
      intro r member
      show recordOf (coreRequest r) = r
      rw [coreRequest_eq (fits r member)]
      exact recordOf_requestOf (fits r member) alignment
    have header : wordBytes (fFormatEb requestHdr) = packetHeader p false := frameBytes_header data addr false
    show _ = wordBytes _ ++ frameBytes _
    rw [header, frameBytes_records data addr, back]
  rw [words] at same
  have cells := frameBytes_injective same
  rw [Packet.cells, List.map_cons, List.cons.injEq] at cells
  have hdr : request.hdr = requestHdr := by
    have parsed : fParseEb (fFormatEb request.hdr) = fParseEb (fFormatEb requestHdr) := congrArg fParseEb cells.1
    rwa [fParseEb_format, fParseEb_format] at parsed
  refine ⟨hdr, cells_determined ?_⟩
  have rest := cells.2
  rw [hdr, if_neg (by decide), List.nil_append, List.map_flatMap] at rest
  exact (List.flatMap_congr fun r _ => (cells_words r).symm).trans rest

/-- Where a run answered a packet: the words taken for it stand in the log behind those of the
packets before it, and its frame on TX behind their frames. -/
structure AnsweredAt {t : Nat} (w : World t) (earlier : List Packet) (request : Packet) (later : List Packet)
    (entries : List (Token × Word)) (frame : List Word) : Prop where
  place : ∃ log last log' out out', w.log = log ++ (entries ++ last :: log') ∧
    w.out = out ++ (frame.map .word ++ [.close] ++ out') ∧ Replied earlier log out ∧ Replied later log' out'
  cells : entryCells entries = request.cells.map Prod.snd

theorem faithful_within {t : Nat} {g : Generics} {w : World t} {events : List Event} (faithful : Faithful g w events)
    {before entries after : List (Token × Word)} (log : w.log = before ++ (entries ++ after)) :
    ∀ early entry late, entries = early ++ entry :: late → ∃ regs : CfgRegs,
      entry.2 = entry.1.word (errors ((before ++ early).map Prod.fst)) g.sdbAddress regs := by
  rintro early entry late rfl
  obtain ⟨e, _, word⟩ := faithful (before ++ early) entry (late ++ after) (by rw [log]; simp)
  exact ⟨e.regs, word⟩

theorem drained_answered {t : Nat} {g : Generics} {w : World t} {answers : List (Word × Bool)} {events : List Event}
    (sound : Sound g w answers events) (arrived : w.arrived = packetsOf events) (drained : Drained w)
    {earlier later : List Packet} (named : packetsOf events = earlier ++ request :: later)
    (asks : request.hdr.noResponse = false) :
    ∃ log entries after, AnsweredAt w earlier request later entries (words entries) ∧
      w.log = log ++ (entries ++ after) ∧ Passed entries := by
  obtain ⟨cells, rendered, passed⟩ := drained_log sound arrived drained
  rw [named, List.flatMap_append, List.flatMap_cons, packetCells, List.append_assoc] at cells
  obtain ⟨log, behind, split, first, second⟩ := entries_append cells
  obtain ⟨entries, ended, rfl, here, third⟩ := entries_append second
  obtain ⟨last, log', rfl, drop, rest⟩ := entries_cons third
  rw [split] at passed
  obtain ⟨passed₁, passed₂⟩ := passed_append passed
  obtain ⟨passed₂, passed₃⟩ := passed_append passed₂
  obtain ⟨out, renders, replied⟩ := render_packets earlier first passed₁
  obtain ⟨out', renders', replied'⟩ := render_packets later rest
    (fun entry member => passed₃ entry (List.mem_cons_of_mem _ member))
  have frame := render_answered request here drop asks
  have sent : w.out = out ++ ((words entries).map .word ++ [.close] ++ out') := by
    have whole : w.log = log ++ ((entries ++ [last]) ++ log') := by
      rw [split, List.append_assoc, List.singleton_append]
    have folded : render w.log = (([] ++ out) ++ ((words entries).map .word ++ [.close]) ++ out', false) := by
      rw [render, whole, List.foldl_append, List.foldl_append, renders [], frame, renders']
    rw [rendered, Prod.mk.injEq] at folded
    rw [folded.1, List.nil_append, List.append_assoc]
  exact ⟨log, entries, last :: log', ⟨⟨log, last, log', out, out', split, sent, replied, replied'⟩,
    here⟩, split, passed₂⟩

theorem frame_packet {p : Port} (data : p.data = 4) (addr : p.addr = 4) (hdr : request.hdr = requestHdr)
    {entries : List (Token × Word)} (cells : entryCells entries = request.cells.map Prod.snd)
    (passed : Passed entries) :
    ∃ header rest, entries = header :: rest ∧ header.1.cell.access = none ∧ Passed rest ∧
      entryCells rest = (request.records.flatMap Request.cells).map Prod.snd ∧
      ∀ replies : List Request, words rest = replies.flatMap recordWords →
        frameBytes (words entries) = packetHeader p true ++ stream p (replies.map recordOf) := by
  have shape : request.cells.map Prod.snd =
      ⟨.passTx, some (fFormatEb (fReplyEb requestHdr)), none, false, false⟩ ::
        (request.records.flatMap Request.cells).map Prod.snd := by
    rw [Packet.cells, hdr]
    rfl
  rw [shape] at cells
  obtain ⟨header, rest, rfl, same, tail⟩ := entries_cons cells
  have answer : header.2 = fFormatEb (fReplyEb requestHdr) := by
    have word := passed header List.mem_cons_self (by rw [same]; rfl)
    rw [same] at word
    exact word
  refine ⟨header, rest, rfl, by rw [same], fun entry member => passed entry (List.mem_cons_of_mem _ member), tail, ?_⟩
  intro replies records
  have all : words (header :: rest) = header.2 :: words rest := rfl
  have first : wordBytes (fFormatEb (fReplyEb requestHdr)) = packetHeader p true := frameBytes_header data addr true
  rw [all, answer, records]
  show wordBytes _ ++ frameBytes _ = _
  rw [first, frameBytes_records data addr]

section
variable {p : Port} {t : Nat}

/-- There and back through a core: wherever in a run the packet of a cycle is taken, the frame
it is answered with completes the response at home, and every operation carries what its own
access came to. -/
theorem ebDeviceFlush_served (data : p.data = 4) (addr : p.addr = 4) (home : Socket) (word : p.word = home.word)
    (supported : ebWidthRefine (p.widths &&& home.widths) = p.widths) (peer : Peer) {mtu : Nat} (packet : mtu ≠ 0)
    (devices : Bus Inbox) (time : Nat) (rba : UInt16) (even : rba.toNat % 2 = 0) (alloc : Nat → Bool) (cycle : Cycle)
    (operations : List Operation) (screened : screen p alloc cycle = .ok operations)
    (few : needsCheck operations = false → busCount operations < 2 ^ 32 - 1) (response : Response) (bytes : List Byte)
    (claimed : .respond response ∈ (ebDeviceFlush p mtu time alloc rba.toNat [cycle]).effects)
    (sent : bytes ∈ sends (ebDeviceFlush p mtu time alloc rba.toNat [cycle]).effects)
    (room : bytes.length ≤ home.bufferSize) (inbox : Inbox) (front back : List Response)
    (queued : inbox.queue = front ++ response :: back) (others : ∀ other ∈ front, other.address ≠ rba.toNat)
    (g : Generics) (junk : Junk) (events : List Event)
    (meets : Runs.Along (Core.step g) (Proper g) (start g junk : World t) events)
    (drained : Drained (run g (start g junk : World t) events)) (request : Packet)
    (same : frameBytes (request.cells.map Prod.fst) = bytes) (earlier later : List Packet)
    (named : packetsOf events = earlier ++ request :: later) :
    ∃ (entries : List (Token × Word)) (frame : List Word) (exchanges : List (Item × Execute.Access))
      (writes : List ConfigWrite),
      let returned := ebDeviceSlave home peer mtu (Inbox.bus devices) (Link.fresh none inbox [frameBytes frame])
      AnsweredAt (run g (start g junk : World t) events) earlier request later entries frame ∧
      List.Forall₂ (Serves p) exchanges (accessed entries) ∧ (own exchanges).map Prod.fst = operations ∧
      returned.1 = .more ∧ returned.2.trace.map Execute.Access.request = writes.map writeBack ∧
      returned.2.bus = writes.foldl Inbox.ebSocketWriteConfig inbox ∧
      Completes (needsCheck operations) front back cycle.handle inbox writes (own exchanges)
        ((own exchanges).filterMap delivered) := by
  have accepted := accepted_of_screen p screened
  have formats := formatCycle_formats p operations accepted
  obtain ⟨rfl, reads, one⟩ := flush_in_flight mtu time rba.toNat packet alloc cycle operations screened claimed sent
  -- the packet as the core takes it
  obtain ⟨alignment, _, _⟩ := layout32 data addr
  obtain ⟨hdr, cells⟩ := request_cells data addr (cycleRecords_fits rba.toNat rba.toNat_lt operations accepted)
    (same.trans one)
  have sound := run_sound g (sound_start g junk : Sound g (start g junk : World t) [] []) meets
  rw [List.nil_append, List.nil_append] at sound
  obtain ⟨log, entries, after, answered, split, passed⟩ := drained_answered sound (run_arrived g _ events) drained named
    (by rw [hdr]; rfl)
  obtain ⟨header, rest, rfl, noAccess, passed', tail, packets⟩ := frame_packet data addr hdr answered.cells passed
  rw [cells] at tail
  obtain ⟨replies, rendered⟩ := formats_rendered data addr (Inbox.bus devices) rba.toNat rba.toNat_lt formats accepted
    rest tail passed'
  have frame := packets replies rendered.words_eq
  have inner : accessed (header :: rest) = accessed rest := by
    rw [accessed_cons, noAccess, Option.isSome_none, if_neg (by decide)]
  obtain ⟨itemized, serves⟩ := served_serves rendered.asked
  have truthful := served_truthful data (log ++ [header]) rendered.asked rendered.marked
    (faithful_within sound.faithful (show _ = _ ++ (rest ++ after) by rw [split]; simp))
  -- the frame at home
  have room' : (packetHeader p true ++ stream p (replies.map recordOf)).length ≤ home.bufferSize := by
    have length := congrArg List.length answered.cells
    have sizes := congrArg List.length same
    rw [entryCells, List.length_map, List.length_map] at length
    rw [length_frameBytes, List.length_map] at sizes
    rw [← frame, length_frameBytes, Replies.words, List.length_map]
    omega
  obtain ⟨writes, own, completed⟩ :=
    (rendered.returned true).completes home word supported peer packet time rba.toNat_lt
    even cycle.handle accepted few reads queued others itemized truthful room'
  refine ⟨header :: rest, words (header :: rest), _, writes, answered, ?_, own, ?_⟩
  · rw [inner]
    exact serves
  · rw [frame]
    exact completed

end

def mixedRequest : Packet :=
  { hdr := requestHdr
    probeId := 0
    records := (cycleRecords Port.wishbone32 0x8000 mixedOperations).map coreRequest
    magic := rfl
    ver := rfl
    probes := by decide
    sizes := by decide }

/-- Its write is refused by the bus, its read is answered. -/
def mixedRun : List Event :=
  free (.idle (some mixedRequest)) CycleLine.quiet :: (List.replicate 5 (free .offer CycleLine.quiet) ++
    [free .offer ⟨false, true, false, 0⟩] ++ List.replicate 4 (free .offer CycleLine.quiet) ++
    [free .offer (acks 0x11223344)] ++ List.replicate 5
    (free .offer CycleLine.quiet) ++ List.replicate 6 (quiet noRegs))

theorem ebDeviceFlush_served_mixed : ∃ (entries : List (Token × Word)) (frame : List Word)
    (exchanges : List (Item × Execute.Access)) (writes : List ConfigWrite),
      AnsweredAt (run ⟨0, 100⟩ (start ⟨0, 100⟩ blank : World 8) mixedRun) [] mixedRequest [] entries frame ∧
      (own exchanges).map Prod.fst = mixedOperations ∧
      Completes true [] [] 1 ⟨[mixedResponse], [], []⟩ writes (own exchanges)
        ((own exchanges).filterMap delivered) := by
  obtain ⟨entries, frame, exchanges, writes, answered, _, operations, _, _, _, completes⟩ :=
    ebDeviceFlush_served (p := Port.wishbone32) (t := 8) rfl rfl Seams.board rfl (by decide) .active
      (by decide : 1472 ≠ 0) nobody 0 0x8000 (by decide) (fun _ => true) mixedCycle mixedOperations (by decide +kernel)
      (by decide) mixedResponse mixedPacket (by decide +kernel) (by decide +kernel) (by decide +kernel)
      ⟨[mixedResponse], [], []⟩ [] [] rfl (by simp) ⟨0, 100⟩ blank mixedRun (by decide +kernel)
      ⟨by decide +kernel, by decide +kernel, by decide +kernel⟩ mixedRequest (by decide +kernel) [] [] rfl
  exact ⟨entries, frame, exchanges, writes, answered, operations, completes⟩

end BelProject.Interop.CoreTrip
