import BelProject.SlaveCore.Requests

/-! The record grammar of Etherbone on a 32-bit port, for either direction: a header word,
and for each of its two counts that is not zero a base and that many words. -/

namespace BelProject.SlaveCore.Grammar
open Headers Requests

def recordWords (r : Request) : List Word :=
  fFormatRec r.hdr :: ((if r.writes.isEmpty then [] else r.baseWrite :: r.writes) ++
    if r.reads.isEmpty then [] else r.baseRet :: r.reads)

def part (count : Nat) (words : List Word) : (Word × List Word) × List Word :=
  if count = 0 then ((0, []), words) else ((words.headD 0, words.tail.take count),
    words.tail.drop count)

/-- A record of these parts, unless their words ran out. -/
def assemble (hdr : RecHdr) (write read : Word × List Word) : Option Request :=
  if counts : hdr.wrCnt.toNat = write.2.length ∧ hdr.rdCnt.toNat = read.2.length then
    some ⟨hdr, write.1, write.2, read.1, read.2, counts.1, counts.2⟩
  else none

def recordBody (hdr : RecHdr) (words : List Word) : Option (Request × List Word) :=
  let write := part hdr.wrCnt.toNat words
  let read := part hdr.rdCnt.toNat write.2
  (assemble hdr write.1 read.1).map fun r => (r, read.2)

def parseRecord : List Word → Option (Request × List Word)
  | [] => none
  | word :: words => recordBody (fParseRec word) words

/-- Records up to the end; a record takes at least one word. -/
def parseRecords : Nat → List Word → Option (List Request)
  | _, [] => some []
  | 0, _ :: _ => none
  | fuel + 1, word :: words =>
    (parseRecord (word :: words)).bind fun first => (parseRecords fuel first.2).map (first.1 :: ·)

structure Frame where
  hdr : EbHdr
  probeId : Option Word
  records : List Request

/-- A probe and its answer carry one word before the records. -/
def frameBody (hdr : EbHdr) (words : List Word) : Option Frame :=
  if hdr.probe || hdr.probeRes then
    words.head?.bind fun id => (parseRecords words.tail.length words.tail).map (⟨hdr, some id, ·⟩)
  else (parseRecords words.length words).map (⟨hdr, none, ·⟩)

def parseFrame : List Word → Option Frame
  | [] => none
  | word :: words => frameBody (fParseEb word) words

/-- A part that is not there has no base either. -/
structure Canonical (r : Request) : Prop where
  write : r.writes = [] → r.baseWrite = 0
  read : r.reads = [] → r.baseRet = 0

theorem part_append {count : Nat} {data : List Word} {base : Word} (rest : List Word)
    (length : count = data.length)
    (empty : data = [] → base = 0) :
    part count ((if data.isEmpty then [] else base :: data) ++ rest) = ((base, data), rest) := by
  subst length
  cases data with
  | nil =>
    rw [empty rfl]
    rfl
  | cons dat dats =>
    have some : (dat :: dats).length ≠ 0 := Nat.succ_ne_zero _
    rw [part, if_neg some]
    simp

theorem parseRecord_append {r : Request} (canonical : Canonical r) (rest : List Word) :
    parseRecord (recordWords r ++ rest) = some (r, rest) := by
  obtain ⟨hdr, baseWrite, writes, baseRet, reads, wrCnt, rdCnt⟩ := r
  have write := part_append ((if reads.isEmpty then [] else baseRet :: reads) ++ rest) wrCnt
    canonical.write
  have read := part_append rest rdCnt canonical.read
  simp only [recordWords, List.cons_append, List.append_assoc, parseRecord, fParseRec_format,
    recordBody, write, read]
  rw [assemble, dif_pos ⟨wrCnt, rdCnt⟩]
  rfl

theorem recordWords_length (r : Request) : 0 < (recordWords r).length := Nat.succ_pos _

theorem parseRecords_flatMap {records : List Request} (canonical : ∀ r ∈ records, Canonical r)
    {fuel : Nat}
    (enough : (records.flatMap recordWords).length ≤ fuel) :
    parseRecords fuel (records.flatMap recordWords) = some records := by
  induction records generalizing fuel with
  | nil => cases fuel <;> rfl
  | cons r records ih =>
    have positive := recordWords_length r
    rw [List.flatMap_cons] at enough ⊢
    rw [List.length_append] at enough
    cases fuel with
    | zero => omega
    | succ fuel =>
      have rest := ih (fun r' member => canonical r' (List.mem_cons_of_mem _ member))
        (show _ ≤ fuel by omega)
      have first := parseRecord_append (canonical r List.mem_cons_self) (records.flatMap recordWords)
      rw [recordWords, List.cons_append] at first ⊢
      rw [parseRecords, first, Option.bind_some, rest, Option.map_some]

theorem parseFrame_words (hdr : EbHdr) (probeId : Option Word) {records : List Request}
    (canonical : ∀ r ∈ records, Canonical r)
    (probe : probeId.isSome = (hdr.probe || hdr.probeRes)) :
    parseFrame (fFormatEb hdr :: (probeId.toList ++ records.flatMap recordWords)) =
      some ⟨hdr, probeId, records⟩ := by
  have parsed := parseRecords_flatMap canonical (Nat.le_refl _)
  rw [parseFrame, fParseEb_format, frameBody]
  cases probeId with
  | none =>
    rw [if_neg (by rw [← probe]; exact Bool.false_ne_true), Option.toList_none, List.nil_append,
      parsed]
    rfl
  | some id =>
    rw [if_pos (show (hdr.probe || hdr.probeRes) = true from probe.symm), Option.toList_some,
      List.singleton_append, List.head?_cons, List.tail_cons, Option.bind_some, parsed]
    rfl

theorem writeCells_words (hdr : RecHdr) (more : Bool) (adr : Word) (dats : List Word) :
    (writeCells hdr more adr dats).map Prod.fst = dats := by
  induction dats generalizing adr with
  | nil => rfl
  | cons dat dats ih => rw [writeCells, List.map_cons, ih]

theorem readCells_words (hdr : RecHdr) (adrs : List Word) :
    (readCells hdr adrs).map Prod.fst = adrs := by
  induction adrs with
  | nil => rfl
  | cons adr adrs ih => rw [readCells, List.map_cons, ih]

theorem cells_words (r : Request) : r.cells.map Prod.fst = recordWords r := by
  rw [Request.cells, List.map_cons, List.map_append, recordWords, writePart, readPart]
  congr 2
  · cases r.writes with
    | nil => rfl
    | cons dat dats => exact congrArg (r.baseWrite :: ·) (writeCells_words _ _ _ _)
  · cases r.reads with
    | nil => rfl
    | cons adr adrs => exact congrArg (r.baseRet :: ·) (readCells_words _ _)

end BelProject.SlaveCore.Grammar
