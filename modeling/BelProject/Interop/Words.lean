import BelProject.Etherbone.Packets
import BelProject.SlaveCore.Grammar

/-! One format, two implementations. On a port of four byte words and addresses the bytes the
library writes are the words the slave core takes, and the words the core sends are bytes
the library reads, record for record. -/

namespace BelProject.Interop.Words
open BelProject.Library Etherbone Width Wire Flush
open SlaveCore Headers Requests Grammar

def wordBytes (word : Word) : List Byte := BigEndian.encode 4 word.toNat

def frameBytes (words : List Word) : List Byte := words.flatMap wordBytes

@[simp] theorem frameBytes_append (first second : List Word) :
    frameBytes (first ++ second) = frameBytes first ++ frameBytes second := List.flatMap_append

theorem wordBytes_extract (word : Word) : wordBytes word =
    [⟨word.extractLsb' 24 8⟩, ⟨word.extractLsb' 16 8⟩, ⟨word.extractLsb' 8 8⟩, ⟨word.extractLsb' 0 8⟩] := by
  simp only [wordBytes, BigEndian.encode, BitVec.extractLsb', Nat.shiftRight_eq_div_pow]
  rfl

/-- The flags of a record header as the core names them. -/
def hdrOf (r : Record) : RecHdr :=
  { bcaCfg := r.flags.toBitVec.getLsbD 7
    rcaCfg := r.flags.toBitVec.getLsbD 6
    rdFifo := r.flags.toBitVec.getLsbD 5
    res1 := r.flags.toBitVec.getLsbD 4
    dropCyc := r.flags.toBitVec.getLsbD 3
    wcaCfg := r.flags.toBitVec.getLsbD 2
    wrFifo := r.flags.toBitVec.getLsbD 1
    res2 := r.flags.toBitVec.getLsbD 0
    sel := r.select.toBitVec
    wrCnt := BitVec.ofNat 8 r.writes.length
    rdCnt := BitVec.ofNat 8 r.reads.length }

def flagsOf (hdr : RecHdr) : Byte := ⟨(fFormatRec hdr).extractLsb' 24 8⟩

/-- The core's record as the library sees it. -/
def recordOf (r : Request) : Record :=
  { flags := flagsOf r.hdr
    select := ⟨r.hdr.sel⟩
    bwa := r.baseWrite.toNat
    writes := r.writes.map BitVec.toNat
    bra := r.baseRet.toNat
    reads := r.reads.map BitVec.toNat }

theorem format_fields (hdr : RecHdr) : (fFormatRec hdr).extractLsb' 16 8 = hdr.sel ∧
    (fFormatRec hdr).extractLsb' 8 8 = hdr.wrCnt ∧ (fFormatRec hdr).extractLsb' 0 8 = hdr.rdCnt := by
  have parsed := fParseRec_format hdr
  exact ⟨congrArg RecHdr.sel parsed, congrArg RecHdr.wrCnt parsed, congrArg RecHdr.rdCnt parsed⟩

theorem flagsOf_bits (hdr : RecHdr) : (flagsOf hdr).toBitVec.getLsbD 7 = hdr.bcaCfg ∧
    (flagsOf hdr).toBitVec.getLsbD 6 = hdr.rcaCfg ∧ (flagsOf hdr).toBitVec.getLsbD 5 = hdr.rdFifo ∧
    (flagsOf hdr).toBitVec.getLsbD 4 = hdr.res1 ∧ (flagsOf hdr).toBitVec.getLsbD 3 = hdr.dropCyc ∧
    (flagsOf hdr).toBitVec.getLsbD 2 = hdr.wcaCfg ∧ (flagsOf hdr).toBitVec.getLsbD 1 = hdr.wrFifo ∧
    (flagsOf hdr).toBitVec.getLsbD 0 = hdr.res2 := by
  have parsed := fParseRec_format hdr
  have bit : ∀ i, i < 8 → (flagsOf hdr).toBitVec.getLsbD i = (fFormatRec hdr).getLsbD (24 + i) := by
    intro i small
    rw [flagsOf, BitVec.getLsbD_extractLsb', decide_eq_true small, Bool.true_and]
  rw [bit 7 (by decide), bit 6 (by decide), bit 5 (by decide), bit 4 (by decide), bit 3 (by decide), bit 2 (by decide),
    bit 1 (by decide), bit 0 (by decide)]
  exact ⟨congrArg RecHdr.bcaCfg parsed, congrArg RecHdr.rcaCfg parsed, congrArg RecHdr.rdFifo parsed,
    congrArg RecHdr.res1 parsed, congrArg RecHdr.dropCyc parsed, congrArg RecHdr.wcaCfg parsed,
    congrArg RecHdr.wrFifo parsed, congrArg RecHdr.res2 parsed⟩

theorem flags_ext {first second : Byte} (same : ∀ i < 8, first.toBitVec.getLsbD i = second.toBitVec.getLsbD i) :
    first = second := by
  apply UInt8.toBitVec_inj.mp
  apply BitVec.eq_of_getLsbD_eq
  exact same

theorem flagsOf_hdrOf (r : Record) : flagsOf (hdrOf r) = r.flags := by
  obtain ⟨b7, b6, b5, b4, b3, b2, b1, b0⟩ := flagsOf_bits (hdrOf r)
  apply flags_ext
  intro i small
  interval_cases i
  · exact b0
  · exact b1
  · exact b2
  · exact b3
  · exact b4
  · exact b5
  · exact b6
  · exact b7

/-- A record that can be transmitted, as the core finds it. -/
def requestOf (r : Record) (writes : r.writes.length ≤ 255) (reads : r.reads.length ≤ 255) : Request :=
  { hdr := hdrOf r
    baseWrite := BitVec.ofNat 32 r.bwa
    writes := r.writes.map (BitVec.ofNat 32)
    baseRet := BitVec.ofNat 32 r.bra
    reads := r.reads.map (BitVec.ofNat 32)
    wrCnt := by
      rw [List.length_map]
      exact (BitVec.toNat_ofNat _ _).trans (Nat.mod_eq_of_lt (by omega))
    rdCnt := by
      rw [List.length_map]
      exact (BitVec.toNat_ofNat _ _).trans (Nat.mod_eq_of_lt (by omega)) }

section
variable {p : Port}

theorem layout32 (data : p.data = 4) (addr : p.addr = 4) :
    p.alignment = 4 ∧ p.recordAlignment = 4 ∧ p.headerAlignment = 4 := by
  have biggest : p.biggest = 4 := by rw [Port.biggest, data, addr]; rfl
  refine ⟨?_, ?_, ?_⟩
  · rw [Port.alignment, biggest]; rfl
  · rw [Port.recordAlignment, biggest]; rfl
  · rw [Port.headerAlignment, Port.recordAlignment, biggest]; rfl

theorem recordOf_requestOf {r : Record} (fits : r.Fits p) (alignment : p.alignment = 4) :
    recordOf (requestOf r fits.writes_length fits.reads_length) = r := by
  have kept : ∀ value, value < 256 ^ p.alignment → (BitVec.ofNat 32 value).toNat = value := by
    intro value small
    rw [alignment] at small
    exact (BitVec.toNat_ofNat _ _).trans (Nat.mod_eq_of_lt small)
  have words : ∀ values : List Nat, (∀ value ∈ values, value < 256 ^ p.alignment) →
      (values.map (BitVec.ofNat 32)).map BitVec.toNat = values := by
    intro values small
    rw [List.map_map]
    exact (List.map_congr_left fun value member => kept value (small value member)).trans (List.map_id' _)
  obtain ⟨flags, select, bwa, writes, bra, reads⟩ := r
  simp only [recordOf, requestOf, flagsOf_hdrOf, kept bwa fits.bwa_lt, kept bra fits.bra_lt,
    words writes fits.writes_lt,
    words reads fits.reads_lt]
  rfl

theorem frameBytes_recordWords (data : p.data = 4) (addr : p.addr = 4) (r : Request) :
    frameBytes (recordWords r) = (recordOf r).encode p := by
  obtain ⟨alignment, recordAlignment, _⟩ := layout32 data addr
  obtain ⟨sel, wrCnt, rdCnt⟩ := format_fields r.hdr
  have count : ∀ (cnt : BitVec 8) (words : List Word), cnt.toNat = words.length →
      (⟨cnt⟩ : Byte) = UInt8.ofNat (words.map BitVec.toNat).length := by
    intro cnt words length
    apply UInt8.toNat_inj.mp
    rw [List.length_map, ← length]
    exact (UInt8.toNat_ofNat_of_lt' cnt.isLt).symm
  have header : wordBytes (fFormatRec r.hdr) = (recordOf r).header p := by
    rw [wordBytes_extract, sel, wrCnt, rdCnt, Record.header, recordAlignment, count _ _ r.wrCnt, count _ _ r.rdCnt]
    rfl
  have block : ∀ base (words : List Word), frameBytes (if words.isEmpty then [] else base :: words) =
      Record.block p base.toNat (words.map BitVec.toNat) := by
    intro base words
    have all : ∀ words : List Word, frameBytes words = (words.map BitVec.toNat).flatMap
      (BigEndian.encode p.alignment) := by
      intro words
      rw [alignment, List.flatMap_map]
      rfl
    unfold Record.block
    rw [List.isEmpty_map]
    split
    · rfl
    · rw [all]
      rfl
  rw [recordWords, Record.encode, ← header]
  show wordBytes _ ++ frameBytes (_ ++ _) = _
  rw [frameBytes_append, block, block]
  rfl

theorem frameBytes_records (data : p.data = 4) (addr : p.addr = 4) (records : List Request) :
    frameBytes (records.flatMap recordWords) = stream p (records.map recordOf) := by
  induction records with
  | nil => rfl
  | cons r records ih =>
    rw [List.flatMap_cons, frameBytes_append, ih, frameBytes_recordWords data addr, List.map_cons, stream_cons]

theorem frameBytes_header (data : p.data = 4) (addr : p.addr = 4) (noReads : Bool) :
    wordBytes (fFormatEb { cEbInit with noResponse := noReads }) = packetHeader p noReads := by
  obtain ⟨_, _, headerAlignment⟩ := layout32 data addr
  have widths : p.widths = 0x44 := by rw [Port.widths, data, addr]; rfl
  rw [packetHeader, headerAlignment, widths]
  cases noReads <;> decide

end

end BelProject.Interop.Words
