import BelProject.SlaveCore.Drain
import BelProject.SlaveCore.Grammar

/-! The reply to a packet. Word for word it has the shape of the request: the words of a
write part leave empty records, the last one makes room for the header of the reply, and the
results of the reads follow the return address. Read by the record grammar it is one write
record for every request record that reads. -/

namespace BelProject.SlaveCore.Replies
open Headers Fsm Requests Fifo SlaveCore.Core Account Frames History Drain Grammar
open CycleLine (Answer)
open BelProject.Library.Runs (Along)

def isRead : Tag → Bool
  | .cfgReq | .wbmReq => true
  | _ => false

def words (entries : List (Token × Word)) : List Word := entries.map Prod.snd

def entryCells (entries : List (Token × Word)) : List Cell := entries.map fun entry => entry.1.cell

def readWords (entries : List (Token × Word)) : List Word :=
  (entries.filter fun entry => isRead entry.1.cell.tag).map Prod.snd

/-- Words that are no results are the ones passed on. -/
def Passed (entries : List (Token × Word)) : Prop :=
  ∀ entry ∈ entries, isRead entry.1.cell.tag = false → entry.2 = entry.1.cell.pass.getD 0

theorem readWords_append (first second : List (Token × Word)) :
    readWords (first ++ second) = readWords first ++ readWords second := by
  rw [readWords, List.filter_append, List.map_append]
  rfl

theorem passed_append {first second : List (Token × Word)} (passed : Passed (first ++ second)) :
    Passed first ∧ Passed second :=
  ⟨fun entry member => passed entry (List.mem_append_left _ member), fun entry member =>
    passed entry (List.mem_append_right _ member)⟩

variable {entries : List (Token × Word)}

theorem entries_cons {c : Cell} {cs : List Cell} (cells : entryCells entries = c :: cs) :
    ∃ entry rest, entries = entry :: rest ∧ entry.1.cell = c ∧ entryCells rest = cs :=
  List.map_eq_cons_iff.mp cells

theorem entries_append {first second : List Cell} (cells : entryCells entries = first ++ second) :
    ∃ before after, entries = before ++ after ∧ entryCells before = first ∧ entryCells after = second :=
  List.map_eq_append_iff.mp cells

theorem entries_nil (cells : entryCells entries = []) : entries = [] := List.map_eq_nil_iff.mp cells

theorem readWords_cons (entry : Token × Word) (rest : List (Token × Word)) :
    readWords (entry :: rest) = if isRead entry.1.cell.tag then entry.2 :: readWords rest else readWords rest := by
  rw [readWords, List.filter_cons]
  split <;> rfl

theorem plain_words {c : Cell} {cs : List Cell} {dat : Word} (cells : entryCells entries = c :: cs)
    (passed : Passed entries) (other : isRead c.tag = false) (pass : c.pass = some dat) :
    ∃ rest, entryCells rest = cs ∧ Passed rest ∧ words entries = dat :: words rest ∧
      readWords entries = readWords rest := by
  obtain ⟨entry, rest, rfl, rfl, tail⟩ := entries_cons cells
  refine ⟨rest, tail, fun e member => passed e (List.mem_cons_of_mem _ member), ?_, ?_⟩
  · have word := passed entry List.mem_cons_self other
    rw [pass, Option.getD_some] at word
    rw [words, List.map_cons, word]
    rfl
  · rw [readWords_cons, other, if_neg Bool.false_ne_true]

theorem write_words (hdr : RecHdr) (more : Bool) {adr dat : Word} {dats : List Word}
    (cells : entryCells entries = (writeCells hdr more adr (dat :: dats)).map Prod.snd) (passed : Passed entries) :
    words entries = List.replicate dats.length 0 ++ [fFormatRec (fReplyRec hdr)] ∧ readWords entries = [] := by
  induction dats generalizing adr dat entries with
  | nil =>
    have other : isRead (if hdr.wcaCfg then Tag.cfgIgn else Tag.wbmIgn) = false := by cases hdr.wcaCfg <;> rfl
    obtain ⟨rest, tail, _, out, results⟩ := plain_words cells passed other rfl
    rw [out, results, entries_nil tail]
    exact ⟨rfl, rfl⟩
  | cons next dats ih =>
    have other : isRead (if hdr.wcaCfg then Tag.cfgIgn else Tag.wbmIgn) = false := by cases hdr.wcaCfg <;> rfl
    obtain ⟨rest, tail, passed, out, results⟩ := plain_words cells passed other rfl
    obtain ⟨zeros, none⟩ := ih tail passed
    rw [out, results, zeros]
    exact ⟨rfl, none⟩

theorem read_words (hdr : RecHdr) {adrs : List Word}
    (cells : entryCells entries = (readCells hdr adrs).map Prod.snd) : words entries = readWords entries ∧
      (readWords entries).length = adrs.length := by
  induction adrs generalizing entries with
  | nil =>
    rw [entries_nil cells]
    exact ⟨rfl, rfl⟩
  | cons adr adrs ih =>
    obtain ⟨entry, rest, rfl, same, tail⟩ := entries_cons cells
    obtain ⟨all, length⟩ := ih tail
    have result : isRead entry.1.cell.tag = true := by
      rw [same]
      cases rca : hdr.rcaCfg <;> simp [isRead]
    rw [readWords_cons, result, if_pos rfl, ← all]
    refine ⟨rfl, ?_⟩
    rw [List.length_cons, all, length, List.length_cons]

def padding : Request := ⟨fParseRec 0, 0, [], 0, [], rfl, rfl⟩

/-- How many empty records a request leaves in front of its reply. -/
def pads (r : Request) : Nat := if r.writes.isEmpty then 0 else r.writes.length + 1

/-- The record that carries the results. -/
def replyTo (r : Request) (results : List Word) (length : results.length = r.reads.length) : Request :=
  { hdr := fReplyRec r.hdr
    baseWrite := if r.reads.isEmpty then 0 else r.baseRet
    writes := results
    baseRet := 0
    reads := []
    wrCnt := r.rdCnt.trans length.symm
    rdCnt := rfl }

theorem recordWords_padding : recordWords padding = [0] := by decide

theorem flatMap_padding (count : Nat) : (List.replicate count padding).flatMap recordWords =
    List.replicate count 0 := by
  induction count with
  | zero => rfl
  | succ count ih => rw [List.replicate_succ, List.flatMap_cons, ih, recordWords_padding,
      List.replicate_succ, List.singleton_append]

theorem recordWords_reply (r : Request) (results : List Word) (length : results.length = r.reads.length) :
    recordWords (replyTo r results length) =
      fFormatRec (fReplyRec r.hdr) :: if r.reads.isEmpty then [] else r.baseRet :: results := by
  obtain ⟨hdr, baseWrite, writes, baseRet, reads, wrCnt, rdCnt⟩ := r
  cases reads with
  | nil =>
    obtain rfl := List.eq_nil_of_length_eq_zero length
    rfl
  | cons adr adrs =>
    cases results with
    | nil => cases length
    | cons dat dats =>
      simp only [recordWords, replyTo]
      exact congrArg _ (List.append_nil _)

theorem tail_words (r : Request)
    (cells : entryCells entries = (readPart r.hdr r.baseRet r.reads).map Prod.snd) (passed : Passed entries) :
    ∃ length : (readWords entries).length = r.reads.length,
      fFormatRec (fReplyRec r.hdr) :: words entries = recordWords (replyTo r (readWords entries) length) := by
  simp only [recordWords_reply]
  unfold readPart at cells
  cases reads : r.reads with
  | nil =>
    rw [reads] at cells
    rw [entries_nil cells]
    exact ⟨rfl, rfl⟩
  | cons adr adrs =>
    rw [reads] at cells
    obtain ⟨rest, tail, _, out, results⟩ := plain_words cells passed rfl rfl
    obtain ⟨all, length⟩ := read_words r.hdr tail
    rw [out, results, all]
    exact ⟨length, rfl⟩

theorem request_words (r : Request) (cells : entryCells entries = r.cells.map Prod.snd)
    (passed : Passed entries) : ∃ length : (readWords entries).length = r.reads.length,
      words entries = (List.replicate (pads r) padding ++
        [replyTo r (readWords entries) length]).flatMap recordWords := by
  rw [Request.cells, List.map_cons, List.map_append] at cells
  cases writes : r.writes with
  | nil =>
    rw [writes] at cells
    obtain ⟨rest, tail, passed, out, results⟩ := plain_words cells passed rfl rfl
    obtain ⟨length, reply⟩ := tail_words r tail passed
    rw [out, results]
    refine ⟨length, ?_⟩
    rw [List.flatMap_append, flatMap_padding, pads, writes, List.flatMap_singleton, ← reply]
    rfl
  | cons dat dats =>
    rw [writes] at cells
    obtain ⟨rest, tail, passed, out, results⟩ := plain_words cells passed rfl rfl
    obtain ⟨written, after, rfl, first, second⟩ := entries_append tail
    obtain ⟨passed₁, passed₂⟩ := passed_append passed
    obtain ⟨inner, body, passed₁, out₁, results₁⟩ := plain_words first passed₁ rfl rfl
    obtain ⟨zeros, none⟩ := write_words r.hdr _ body passed₁
    obtain ⟨length, reply⟩ := tail_words r second passed₂
    have all : readWords entries = readWords after := by rw [results, readWords_append, results₁, none, List.nil_append]
    rw [all]
    refine ⟨length, ?_⟩
    have split : words (written ++ after) = words written ++ words after := List.map_append
    rw [out, split, out₁, zeros, List.flatMap_append, flatMap_padding, pads, writes, List.flatMap_singleton, ← reply]
    simp [List.replicate_succ]

/-- What the write records of a reply have to be: for every record that reads, its return
address, its read count and its share of the results. -/
def expected : List Request → List Word → List (Word × BitVec 8 × List Word)
  | [], _ => []
  | r :: rs, results =>
    (if r.reads.isEmpty then [] else [(r.baseRet, r.hdr.rdCnt, results.take r.reads.length)]) ++
      expected rs (results.drop r.reads.length)

def wrote (r : Request) : Word × BitVec 8 × List Word := (r.baseWrite, r.hdr.wrCnt, r.writes)

/-- The write records of a packet; a record without a write part is not one. -/
def writeRecords (records : List Request) : List (Word × BitVec 8 × List Word) :=
  (records.filter fun r => !r.writes.isEmpty).map wrote

theorem writeRecords_append (first second : List Request) :
    writeRecords (first ++ second) = writeRecords first ++ writeRecords second := by
  rw [writeRecords, List.filter_append, List.map_append]
  rfl

theorem writeRecords_padding (count : Nat) : writeRecords (List.replicate count padding) = [] := by
  rw [writeRecords, List.map_eq_nil_iff, List.filter_eq_nil_iff]
  intro x member
  rw [List.eq_of_mem_replicate member]
  exact fun some => Bool.false_ne_true some

theorem writeRecords_reply (r : Request) (results : List Word) (length : results.length = r.reads.length) :
    writeRecords [replyTo r results length] = if r.reads.isEmpty then [] else [(r.baseRet, r.hdr.rdCnt, results)] := by
  obtain ⟨hdr, baseWrite, writes, baseRet, reads, wrCnt, rdCnt⟩ := r
  cases reads with
  | nil =>
    obtain rfl := List.eq_nil_of_length_eq_zero length
    rfl
  | cons adr adrs =>
    cases results with
    | nil => cases length
    | cons dat dats => rfl

theorem canonical_padding : Canonical padding := ⟨fun _ => rfl, fun _ => rfl⟩

theorem canonical_reply (r : Request) (results : List Word) (length : results.length = r.reads.length) :
    Canonical (replyTo r results length) := by
  refine ⟨fun none => ?_, fun _ => rfl⟩
  have none : results = [] := none
  have reads : r.reads = [] := List.eq_nil_of_length_eq_zero (by rw [← length, none, List.length_nil])
  show (if r.reads.isEmpty then 0 else r.baseRet) = 0
  rw [reads]
  rfl

theorem records_words (records : List Request)
    (cells : entryCells entries = (records.flatMap Request.cells).map Prod.snd) (passed : Passed entries) :
    ∃ replies : List Request, words entries = replies.flatMap recordWords ∧
      (∀ x ∈ replies, Canonical x ∧ x.reads = []) ∧
      writeRecords replies = expected records (readWords entries) := by
  induction records generalizing entries with
  | nil =>
    rw [entries_nil cells]
    exact ⟨[], rfl, fun x member => absurd member List.not_mem_nil, rfl⟩
  | cons r records ih =>
    rw [List.flatMap_cons, List.map_append] at cells
    obtain ⟨first, rest, rfl, head, tail⟩ := entries_append cells
    obtain ⟨passed₁, passed₂⟩ := passed_append passed
    obtain ⟨length, reply⟩ := request_words r head passed₁
    obtain ⟨replies, out, shape, written⟩ := ih tail passed₂
    refine ⟨List.replicate (pads r) padding ++ [replyTo r (readWords first) length] ++ replies, ?_, ?_, ?_⟩
    · rw [List.flatMap_append, ← reply, ← out]
      exact List.map_append
    · intro x member
      rcases List.mem_append.mp member with this | later
      · rcases List.mem_append.mp this with pad | last
        · rw [List.eq_of_mem_replicate pad]
          exact ⟨canonical_padding, rfl⟩
        · rw [List.mem_singleton.mp last]
          exact ⟨canonical_reply r _ length, rfl⟩
      · exact shape x later
    · rw [writeRecords_append, writeRecords_append, writeRecords_padding, writeRecords_reply, written,
        readWords_append, expected,
        ← length, List.take_left, List.drop_left]
      rfl

/-- A frame answers a packet: one word for every word taken, empty records, and one write
record for each record that reads. The entries are the words taken with what left for them. -/
structure Reply (p : Packet) (entries : List (Token × Word)) (frame : List Word) : Prop where
  length : frame.length = p.cells.length
  parsed : ∃ replies, parseFrame frame = some ⟨fReplyEb p.hdr, if p.hdr.probe then some p.probeId else none, replies⟩ ∧
    (∀ x ∈ replies, x.reads = []) ∧ writeRecords replies = expected p.records (readWords entries)

theorem packet_reply (p : Packet) (cells : entryCells entries = p.cells.map Prod.snd)
    (passed : Passed entries) (answers : p.hdr.noResponse = false) : Reply p entries (words entries) := by
  have length := congrArg List.length cells
  rw [entryCells, List.length_map, List.length_map] at length
  refine ⟨by rw [words, List.length_map, length], ?_⟩
  rw [Packet.cells, answers, List.map_cons, List.map_append] at cells
  obtain ⟨rest, tail, passed, out, results⟩ := plain_words cells passed rfl rfl
  obtain ⟨probe, after, rfl, head, body⟩ := entries_append tail
  obtain ⟨passed₁, passed₂⟩ := passed_append passed
  obtain ⟨replies, records, shape, written⟩ := records_words p.records body passed₂
  have id : words probe = (if p.hdr.probe then some p.probeId else none).toList ∧ readWords probe = [] := by
    cases probes : p.hdr.probe with
    | false =>
      rw [probes] at head
      rw [entries_nil head]
      exact ⟨rfl, rfl⟩
    | true =>
      rw [probes] at head
      obtain ⟨last, none, _, word, noResult⟩ := plain_words head passed₁ rfl rfl
      rw [word, noResult, entries_nil none]
      exact ⟨rfl, rfl⟩
  refine ⟨replies, ?_, fun x member => (shape x member).2, ?_⟩
  · have split : words (probe ++ after) = words probe ++ words after := List.map_append
    rw [out, split, id.1, records]
    apply parseFrame_words _ _ (fun x member => (shape x member).1)
    show _ = (false || p.hdr.probe)
    cases p.hdr.probe <;> rfl
  · rw [results, readWords_append, id.2, List.nil_append]
    exact written

def inner : Tag → Bool
  | .dropTx | .skipTx | .passTx => false
  | _ => true

theorem render_inner (within : ∀ c ∈ entryCells entries, inner c.tag = true) (out : List Out)
    (cyc : Bool) : entries.foldl renderStep (out, cyc) = (out ++ if cyc then (words entries).map .word
      else [], cyc) := by
  induction entries generalizing out with
  | nil => cases cyc <;> simp [words]
  | cons entry entries ih =>
    have first := within entry.1.cell List.mem_cons_self
    have step : renderStep (out, cyc) entry = (out ++ if cyc then [.word entry.2] else [], cyc) := by
      unfold renderStep
      cases tag : entry.1.cell.tag <;> rw [tag] at first <;> first | rfl | cases first
    rw [List.foldl_cons, step, ih (fun c member => within c (List.mem_cons_of_mem _ member))]
    cases cyc <;> simp [words]

theorem inner_writeCells (hdr : RecHdr) (more : Bool) (adr : Word) (dats : List Word) :
    ∀ word ∈ writeCells hdr more adr dats, inner word.2.tag = true := by
  induction dats generalizing adr with
  | nil => exact fun word member => absurd member List.not_mem_nil
  | cons dat dats ih =>
    intro word member
    rcases List.mem_cons.mp member with rfl | member
    · cases wca : hdr.wcaCfg <;> simp [inner]
    · exact ih _ word member

theorem inner_readCells (hdr : RecHdr) (adrs : List Word) : ∀ word ∈ readCells hdr adrs, inner word.2.tag = true := by
  induction adrs with
  | nil => exact fun word member => absurd member List.not_mem_nil
  | cons adr adrs ih =>
    intro word member
    rcases List.mem_cons.mp member with rfl | member
    · cases rca : hdr.rcaCfg <;> simp [inner]
    · exact ih word member

theorem inner_request (r : Request) : ∀ word ∈ r.cells, inner word.2.tag = true := by
  intro word member
  rcases List.mem_cons.mp member with rfl | member
  · rfl
  · rcases List.mem_append.mp member with write | read
    · unfold writePart at write
      split at write
      · exact absurd write List.not_mem_nil
      · rcases List.mem_cons.mp write with rfl | write
        · rfl
        · exact inner_writeCells _ _ _ _ word write
    · unfold readPart at read
      split at read
      · exact absurd read List.not_mem_nil
      · rcases List.mem_cons.mp read with rfl | read
        · rfl
        · exact inner_readCells _ _ word read

theorem inner_packet (p : Packet) : ∃ header rest, p.cells.map Prod.snd = header :: rest ∧
    header.tag = (if p.hdr.noResponse then .skipTx else .passTx) ∧ ∀ c ∈ rest, inner c.tag = true := by
  rw [Packet.cells, List.map_cons]
  refine ⟨_, _, rfl, rfl, ?_⟩
  intro c member
  obtain ⟨word, inside, rfl⟩ := List.mem_map.mp member
  rcases List.mem_append.mp inside with probe | records
  · split at probe
    · rw [List.mem_singleton.mp probe]
      rfl
    · exact absurd probe List.not_mem_nil
  · obtain ⟨r, _, inside⟩ := List.mem_flatMap.mp records
    exact inner_request r word inside

/-- The log and what was sent, packet by packet: a packet that wants no answer is silent, and
any other is answered by one frame. -/
def Replied : List Packet → List (Token × Word) → List Out → Prop
  | [], log, out => log = [] ∧ out = []
  | p :: packets, log, out => ∃ entries last log' frame out', log = entries ++ last :: log' ∧ out = frame ++ out' ∧
      entryCells entries = p.cells.map Prod.snd ∧
      (if p.hdr.noResponse then frame = [] else ∃ dats, frame = dats.map .word ++ [.close] ∧ Reply p entries dats) ∧
      Replied packets log' out'

theorem render_answered (p : Packet) {last : Token × Word}
    (cells : entryCells entries = p.cells.map Prod.snd) (ends : last.1.cell = dropCell)
    (answers : p.hdr.noResponse = false) (out : List Out) :
    (entries ++ [last]).foldl renderStep (out, false) = (out ++ ((words entries).map .word ++ [.close]), false) := by
  obtain ⟨header, within, shape, tag, inside⟩ := inner_packet p
  rw [shape] at cells
  obtain ⟨entry, rest, rfl, same, tail⟩ := entries_cons cells
  have body := fun out cyc => @render_inner rest (by rw [tail]; exact inside) out cyc
  rw [answers, ← same] at tag
  have opens : renderStep (out, false) entry = (out ++ [.word entry.2], true) := by
    rw [renderStep, tag, if_neg Bool.false_ne_true]
    rfl
  have closes : ∀ out, renderStep (out, true) last = (out ++ [.close], false) := by
    intro out
    rw [renderStep, ends]
    rfl
  rw [List.cons_append, List.foldl_cons, opens, List.foldl_append, body, List.foldl_cons, closes]
  simp [words]

theorem render_packet (p : Packet) {last : Token × Word}
    (cells : entryCells entries = p.cells.map Prod.snd) (ends : last.1.cell = dropCell) (passed : Passed entries) :
    ∃ frame, (∀ out, (entries ++ [last]).foldl renderStep (out, false) = (out ++ frame, false)) ∧
      if p.hdr.noResponse then frame = [] else ∃ dats, frame = dats.map .word ++ [.close] ∧ Reply p entries dats := by
  cases silent : p.hdr.noResponse with
  | true =>
    obtain ⟨header, within, shape, tag, inside⟩ := inner_packet p
    rw [shape] at cells
    obtain ⟨entry, rest, rfl, same, tail⟩ := entries_cons cells
    have body := fun out cyc => @render_inner rest (by rw [tail]; exact inside) out cyc
    rw [silent, ← same] at tag
    have opens : ∀ out, renderStep (out, false) entry = (out, false) := by
      intro out
      rw [renderStep, tag, if_pos rfl]
      simp [outTag, cycTag]
    have closes : ∀ out, renderStep (out, false) last = (out, false) := by
      intro out
      rw [renderStep, ends]
      exact congrArg (·, false) (List.append_nil out)
    refine ⟨[], fun out => ?_, rfl⟩
    rw [List.cons_append, List.foldl_cons, opens, List.foldl_append, body, List.foldl_cons, closes]
    simp
  | false =>
    exact ⟨(words entries).map .word ++ [.close], fun out => render_answered p cells ends silent out, _, rfl,
      packet_reply p cells passed silent⟩

theorem render_packets (packets : List Packet) {log : List (Token × Word)}
    (cells : entryCells log = packets.flatMap packetCells)
    (passed : Passed log) : ∃ out, (∀ before, log.foldl renderStep (before, false) =
      (before ++ out, false)) ∧ Replied packets log out := by
  induction packets generalizing log with
  | nil =>
    rw [entries_nil cells]
    exact ⟨[], fun before => by rw [List.append_nil]; rfl, rfl, rfl⟩
  | cons p packets ih =>
    rw [List.flatMap_cons, packetCells, List.append_assoc, List.singleton_append] at cells
    obtain ⟨entries, after, rfl, first, rest⟩ := entries_append cells
    obtain ⟨last, log', rfl, ends, later⟩ := entries_cons rest
    obtain ⟨passed₁, passed₂⟩ := passed_append passed
    obtain ⟨frame, renders, answers⟩ := render_packet p first ends passed₁
    obtain ⟨out', follows, replied⟩ := ih later (fun entry member => passed₂ entry (List.mem_cons_of_mem _ member))
    refine ⟨frame ++ out', fun before => ?_, entries, last, log', frame, out', rfl, rfl, first, answers, replied⟩
    have split : entries ++ last :: log' = entries ++ [last] ++ log' := by rw [List.append_assoc, List.singleton_append]
    rw [split, List.foldl_append, renders, follows, List.append_assoc]

variable {t : Nat}

variable {events : List Event}

theorem passed_of_faithful {g : Generics} {w : World t} (faithful : Faithful g w events) :
    Passed w.log := by
  intro entry member other
  obtain ⟨before, after, log⟩ := List.append_of_mem member
  obtain ⟨e, _, word⟩ := faithful before entry after log
  rw [word, Token.word]
  cases tag : entry.1.cell.tag <;> rw [tag] at other <;> first | rfl | cases other

def packetsOf (events : List Event) : List Packet :=
  events.filterMap fun e => match e.rx with
    | .idle next => next
    | _ => none

theorem run_arrived (g : Generics) (w : World t) (events : List Event) :
    (run g w events).arrived = w.arrived ++ packetsOf events := by
  induction events generalizing w with
  | nil => exact (List.append_nil _).symm
  | cons e events ih =>
    have arrived : (step g w e).arrived = w.arrived ++ packetsOf [e] := by
      rw [arrived_step, packetsOf, List.filterMap_cons]
      cases e.rx with
      | idle next => cases next <;> simp
      | gap => simp
      | offer => simp
    have more : packetsOf (e :: events) = packetsOf [e] ++ packetsOf events := List.filterMap_append (l := [e])
    rw [more, ← List.append_assoc, ← arrived]
    exact ih (step g w e)

structure Outcome {t : Nat} (g : Generics) (w : World t) (answers : List (Word × Bool))
    (events : List Event) : Prop where
  replied : Replied (packetsOf events) w.log w.out
  /-- the answers of the bus went to its accesses in order -/
  order : results (w.log.map Prod.fst) = answers.map some
  /-- every word is the one its token calls for: the answer, the config register, or the word passed
  on -/
  faithful : Faithful g w events

theorem drained_log {g : Generics} {w : World t} {answers : List (Word × Bool)}
    (sound : Sound g w answers events) (arrived : w.arrived = packetsOf events) (drained : Drained w) :
    entryCells w.log = (packetsOf events).flatMap packetCells ∧ render w.log = (w.out, false) ∧ Passed w.log := by
  obtain ⟨rest, rxCyc, pending⟩ := drained
  have passed := passed_of_faithful sound.faithful
  have all : taken w = w.log.map Prod.fst := by rw [taken, pending, List.append_nil]
  have cells : entryCells w.log = (packetsOf events).flatMap packetCells := by
    have kept := sound.kept
    unfold Kept at kept
    rw [all, rest, toEnd, rest, rxCyc, arrived, List.map_map] at kept
    have same : w.log.map (Token.cell ∘ Prod.fst) = (packetsOf events).flatMap packetCells := by simpa using kept
    exact same
  obtain ⟨out, renders, _⟩ := render_packets (packetsOf events) cells passed
  have frames : render w.log = (out, false) := renders []
  have silent : shownWord w.mux = [] := by
    have low : w.mux.txCyc = false := by
      by_contra high
      rcases sound.outputs.raised (Bool.eq_true_of_not_eq_false high) with opened | ⟨valid, _⟩
      · rw [frames] at opened
        cases opened
      · obtain ⟨token, tokens, some, _⟩ := sound.lines.front valid
        rw [pending] at some
        cases some
    rw [shownWord, low]
    rfl
  have sent := sound.outputs.sent
  rw [silent, List.append_nil, frames] at sent
  exact ⟨cells, by rw [frames, sent], passed⟩

theorem drained_outcome {g : Generics} {w : World t} {answers : List (Word × Bool)}
    (sound : Sound g w answers events) (arrived : w.arrived = packetsOf events) (drained : Drained w) :
    Outcome g w answers events := by
  obtain ⟨cells, rendered, passed⟩ := drained_log sound arrived drained
  obtain ⟨out, renders, replied⟩ := render_packets (packetsOf events) cells passed
  have frames : render w.log = (out, false) := renders []
  refine ⟨?_, ?_, sound.faithful⟩
  · have sent : w.out = out := congrArg Prod.fst (rendered.symm.trans frames)
    rw [sent]
    exact replied
  · have pending := drained.pending
    have all : taken w = w.log.map Prod.fst := by rw [taken, pending, List.append_nil]
    obtain ⟨queue, _, known⟩ := sound.lines.data
    have none : w.waiting + w.fsm.wbmStb.toNat = 0 := by
      rw [pending] at known
      have length := congrArg List.length known
      simp only [List.filter_nil, List.map_nil, List.length_nil, List.length_append, List.length_replicate] at length
      omega
    have order := sound.order
    unfold InOrder at order
    rw [all, none] at order
    simpa using order

/-- Once a core is drained it has answered every packet, whatever the gaps, latencies and
stalls were, and a core that is only waiting for its transmitter drains. -/
theorem packets_replied {t : Nat} (g : Generics) (junk : Junk) (events : List Event)
    (meets : Along (step g) (Proper g) (start g junk : World t) events) :
    (Drained (run g (start g junk : World t) events) →
      Outcome g (run g (start g junk : World t) events) (answersOf g (start g junk : World t) events) events) ∧
    (Complete (run g (start g junk : World t) events) → ∀ clocks : List CfgRegs,
      (run g (start g junk : World t) events).pending.length + 5 ≤ clocks.length →
      Along (step g) (Proper g) (run g (start g junk : World t) events) (clocks.map quiet) →
      Drained (run g (start g junk : World t) (events ++ clocks.map quiet))) := by
  have sound := run_sound g (sound_start g junk : Sound g (start g junk : World t) [] []) meets
  rw [List.nil_append, List.nil_append] at sound
  have arrived : (run g (start g junk : World t) events).arrived = packetsOf events := run_arrived g _ events
  refine ⟨drained_outcome sound arrived, fun complete clocks long quiets => ?_⟩
  rw [run, List.foldl_append]
  exact drains g sound complete clocks long quiets

def wholeAt {t : Nat} (w : World t) : Rx → Bool
  | .idle _ => w.rest.isEmpty
  | _ => !w.rest.isEmpty || w.fsm.rxCyc

theorem whole_iff (w : World t) (e : Event) : wholeAt w e.rx = true ↔ Whole w e := by
  cases rx : e.rx with
  | idle next =>
    refine ⟨fun empty => ⟨fun _ _ => List.isEmpty_iff.mp empty, fun other => absurd rx (other next)⟩, fun whole => ?_⟩
    exact List.isEmpty_iff.mpr (whole.complete next rx)
  | _ =>
    have begins : (!w.rest.isEmpty || w.fsm.rxCyc) = true ↔ w.rest ≠ [] ∨ w.fsm.rxCyc = true := by
      rw [Bool.or_eq_true, Bool.not_eq_true', List.isEmpty_eq_false_iff]
    refine ⟨fun begun => ⟨fun next same => ?_, fun _ => begins.mp begun⟩, fun whole => begins.mpr (whole.begun ?_)⟩
    · rw [rx] at same
      cases same
    · rw [rx]
      exact fun _ => Rx.noConfusion

instance {t : Nat} (w : World t) (e : Event) : Decidable (Whole w e) := decidable_of_iff _ (whole_iff w e)

structure Fitting {t : Nat} (g : Generics) (w : World t) (e : Event) : Prop where
  tag : Room w.tag (tagPush w.fsm).isSome (TxMux.tagPop w.mux (muxIn g w e))
  pass : Room w.pass (passPush w.fsm).isSome (TxMux.passPop w.mux (muxIn g w e))
  cfg : Room w.cfg.fifo (cfgPush w.fsm).isSome (w.cfg.fifoPop (TxMux.cfgPop w.mux (muxIn g w e)))
  data : Room w.wbm.data (w.wbm.push e.answer).isSome (TxMux.wbmPop w.mux (muxIn g w e))

instance {t : Nat} (g : Generics) (w : World t) (e : Event) : Decidable (Fitting g w e) :=
  decidable_of_iff (Room w.tag (tagPush w.fsm).isSome (TxMux.tagPop w.mux (muxIn g w e)) ∧
    Room w.pass (passPush w.fsm).isSome (TxMux.passPop w.mux (muxIn g w e)) ∧
    Room w.cfg.fifo (cfgPush w.fsm).isSome (w.cfg.fifoPop (TxMux.cfgPop w.mux (muxIn g w e))) ∧
    Room w.wbm.data (w.wbm.push e.answer).isSome (TxMux.wbmPop w.mux (muxIn g w e)))
    ⟨fun h => ⟨h.1, h.2.1, h.2.2.1, h.2.2.2⟩, fun h => ⟨h.tag, h.pass, h.cfg, h.data⟩⟩

theorem proper_iff (g : Generics) (w : World t) (e : Event) : (Whole w e ∧ Fitting g w e ∧
    (w.wbm.counters.rdy e.answer = true → 0 < w.waiting + w.fsm.wbmStb.toNat)) ↔ Proper g w e :=
  ⟨fun h => ⟨h.1, h.2.1.tag, h.2.1.pass, h.2.1.cfg, h.2.1.data, h.2.2⟩,
    fun h => ⟨h.whole, ⟨h.fits.tag, h.fits.pass, h.fits.cfg, h.fits.data⟩, h.fits.waited⟩⟩

instance {t : Nat} (g : Generics) (w : World t) (e : Event) : Decidable (Proper g w e) :=
  decidable_of_iff _ (proper_iff g w e)

def blank : Junk := ⟨fun _ => .dropTx, fun _ => 0, fun _ => 0, fun _ => (0, false)⟩

def noRegs : CfgRegs := ⟨0, 0, 0⟩

def peeks : Request :=
  { hdr := { cRecInit with dropCyc := true, sel := 0x0f, rdCnt := 2 }
    baseWrite := 0
    writes := []
    baseRet := 0x8000
    reads := [0x10, 0x20]
    wrCnt := rfl
    rdCnt := rfl }

def asking : Packet :=
  { hdr := { cEbInit with noResponse := false }
    probeId := 0
    records := [peeks]
    magic := rfl
    ver := rfl
    probes := by decide
    sizes := by decide }

def free (rx : Rx) (answer : Answer) : Event := ⟨rx, false, answer, false, false, noRegs⟩

def acks (dat : Word) : Answer := ⟨true, false, false, dat⟩

def reading (waits : Nat) : List Event :=
  free (.idle (some asking)) CycleLine.quiet :: (List.replicate 4 (free .offer CycleLine.quiet) ++
    List.replicate waits (free .gap CycleLine.quiet) ++ [free .gap (acks 0xaaaa), free .offer CycleLine.quiet,
      free .gap CycleLine.quiet, free .gap (acks 0xbbbb)])

def busAnswers (events : List Event) : List Word :=
  (events.filter fun e => e.answer.ack || e.answer.err || e.answer.rty).map fun e => e.answer.dat

theorem packets_replied_peeks :
    Drained (run ⟨0, 3⟩ (start ⟨0, 3⟩ blank : World 4) (reading 0 ++ (List.replicate 6 noRegs).map quiet)) ∧
      Outcome ⟨0, 3⟩ (run ⟨0, 3⟩ (start ⟨0, 3⟩ blank : World 4) (reading 0 ++ List.replicate 6 (quiet noRegs)))
        (answersOf ⟨0, 3⟩ (start ⟨0, 3⟩ blank : World 4) (reading 0 ++ List.replicate 6 (quiet noRegs)))
        (reading 0 ++ List.replicate 6 (quiet noRegs)) :=
  ⟨(packets_replied ⟨0, 3⟩ blank (reading 0) (by decide +kernel)).2
    ⟨by decide +kernel, by decide +kernel⟩ (List.replicate 6 noRegs)
      (by decide +kernel) (by decide +kernel),
    (packets_replied ⟨0, 3⟩ blank (reading 0 ++ List.replicate 6 (quiet noRegs)) (by decide +kernel)).1
      ⟨by decide +kernel, by decide +kernel, by decide +kernel⟩⟩

def lateFrame : List Word := [fFormatEb (fReplyEb asking.hdr), fFormatRec (fReplyRec peeks.hdr), 0x8000, 0, 0xaaaa]

/-- The bus answers both reads, the first one after the time-out did: the reply returns the
time-out for the first read, and the answer to the first for the second. -/
theorem late_answer_shifts :
    Along (step ⟨0, 3⟩) (fun w e => Whole w e ∧ Fitting ⟨0, 3⟩ w e) (start ⟨0, 3⟩ blank : World 4)
      (reading 6 ++ List.replicate 6 (quiet noRegs)) ∧
    busAnswers (reading 6 ++ List.replicate 6 (quiet noRegs)) = [0xaaaa, 0xbbbb] ∧
    (run ⟨0, 3⟩ (start ⟨0, 3⟩ blank : World 4) (reading 6 ++ List.replicate 6 (quiet noRegs))).out =
      lateFrame.map .word ++ [.close] ∧
    (parseFrame lateFrame).map (fun frame => writeRecords frame.records) = some [(0x8000, 2, [0, 0xaaaa])] := by
  refine ⟨by decide +kernel, by decide +kernel, by decide +kernel, by decide +kernel⟩

end BelProject.SlaveCore.Replies
