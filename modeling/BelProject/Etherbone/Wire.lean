import BelProject.Etherbone.Width
import BelProject.Library.BigEndian

/-! The record format both ends of a link agree on: a header with flags, byte-enable
and two counts, then an optional base write address with the values and an optional
base return address with the read addresses, each padded to the port's alignment. -/

namespace BelProject.Etherbone.Wire
open BelProject.Library Width

abbrev Byte := UInt8

abbrev recordBca : Byte := 0x80
abbrev recordRca : Byte := 0x40
abbrev recordRff : Byte := 0x20
abbrev recordCyc : Byte := 0x08
abbrev recordWca : Byte := 0x04
abbrev recordWff : Byte := 0x02

abbrev headerPf : Byte := 0x01
abbrev headerPr : Byte := 0x02
abbrev headerNr : Byte := 0x04

structure Record where
  flags : Byte
  select : Byte
  bwa : Nat
  writes : List Nat
  bra : Nat
  reads : List Nat
  deriving DecidableEq, Repr

namespace Record
variable (p : Port) (r : Record)

def has (flag : Byte) : Bool := r.flags &&& flag != 0

def total : Nat :=
  r.writes.length + r.reads.length + (if r.writes.length > 0 then 1 else 0) +
    (if r.reads.length > 0 then 1 else 0)

def header : List Byte :=
  [r.flags, r.select, UInt8.ofNat r.writes.length, UInt8.ofNat r.reads.length] ++
    List.replicate (p.recordAlignment - 4) 0

def block (base : Nat) (words : List Nat) : List Byte :=
  if words.isEmpty then [] else (base :: words).flatMap (BigEndian.encode p.alignment)

def encode : List Byte :=
  r.header p ++ (block p r.bwa r.writes ++ block p r.bra r.reads)

/-- Counts and words a record can carry on this port without being truncated. -/
structure Fits : Prop where
  writes_length : r.writes.length ≤ 255
  reads_length : r.reads.length ≤ 255
  bwa_lt : r.bwa < 256 ^ p.alignment
  writes_lt : ∀ word ∈ r.writes, word < 256 ^ p.alignment
  bra_lt : r.bra < 256 ^ p.alignment
  reads_lt : ∀ word ∈ r.reads, word < 256 ^ p.alignment

@[simp] theorem length_header : (r.header p).length = p.recordAlignment := by
  have := p.four_le_recordAlignment
  simp only [header, List.length_append, List.length_cons, List.length_nil, List.length_replicate]
  omega

theorem length_flatMap_encode (width : Nat) (words : List Nat) :
    (words.flatMap (BigEndian.encode width)).length = words.length * width := by
  induction words with
  | nil => simp
  | cons word words ih =>
    rw [List.flatMap_cons, List.length_append, ih, BigEndian.length_encode, List.length_cons]
    ring

theorem length_block (base : Nat) (words : List Nat) :
    (block p base words).length = (words.length + if words.length > 0 then 1 else 0) * p.alignment := by
  cases words with
  | nil => simp [block]
  | cons word words =>
    simp only [block, List.isEmpty_cons, Bool.false_eq_true, ↓reduceIte]
    rw [length_flatMap_encode]
    simp

theorem length_encode : (r.encode p).length = p.recordAlignment + r.total * p.alignment := by
  simp only [encode, List.length_append, length_header, length_block, total]
  ring

theorem total_le (writes : r.writes.length ≤ 255) (reads : r.reads.length ≤ 255) : r.total ≤ 512 := by
  unfold total
  split <;> split <;> omega

theorem length_encode_le (writes : r.writes.length ≤ 255) (reads : r.reads.length ≤ 255) :
    (r.encode p).length ≤ p.bufferSize := by
  have words : r.total * p.alignment ≤ 512 * p.word :=
    Nat.mul_le_mul (r.total_le writes reads) p.alignment_le_word
  have padding := p.recordAlignment_le
  rw [length_encode, Port.bufferSize]
  omega

end Record

def stream (p : Port) (records : List Record) : List Byte := records.flatMap (Record.encode p)

@[simp] theorem stream_nil (p : Port) : stream p [] = [] := rfl

@[simp] theorem stream_cons (p : Port) (r : Record) (records : List Record) :
    stream p (r :: records) = r.encode p ++ stream p records := rfl

@[simp] theorem stream_append (p : Port) (first second : List Record) :
    stream p (first ++ second) = stream p first ++ stream p second := List.flatMap_append

theorem toNat_count {count : Nat} (small : count ≤ 255) : (UInt8.ofNat count).toNat = count := by
  rw [UInt8.toNat_ofNat']
  omega

end BelProject.Etherbone.Wire
