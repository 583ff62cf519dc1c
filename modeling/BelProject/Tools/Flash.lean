import BelProject.Library.Memory
import Mathlib.Algebra.Group.Nat.Defs
import Mathlib.Tactic.Common

/-! What `eb-flash` works with: the range of the firmware in the flash, the words it makes of the
bytes of a file, and the flash itself. A write of some bytes clears bits and stays inside a page,
and an erase sets all bits of a sector. -/

namespace BelProject.Tools.Flash
open Library.Memory

/-- `page_size`. The option `-x` is not among those that `getopt` looks for. -/
def pageSize : ℕ := 256

/-- `format & EB_ENDIAN_MASK`, with one of the two known. -/
inductive Endian where
  | big | little
  deriving DecidableEq, Repr

/-- What the checks of `main` let through. An `eb_address_t` has 64 bits, and the range ends inside
of it. -/
structure Job where
  address : ℕ
  firmwareLength : ℕ
  /-- `format & EB_DATAX` -/
  size : ℕ
  endian : Endian
  invert : Bool
  eraseAddress : ℕ
  aligned : pageSize ∣ address
  pages : pageSize ∣ firmwareLength
  inside : address + firmwareLength ≤ 2 ^ 64
  short : firmwareLength < 2 ^ 64
  sized : size = 1 ∨ size = 2 ∨ size = 4 ∨ size = 8

theorem size_le (j : Job) : j.size ≤ pageSize := by
  rcases j.sized with same | same | same | same
  all_goals rw [same]; decide

theorem size_pos (j : Job) : 0 < j.size := by
  rcases j.sized with same | same | same | same
  all_goals rw [same]; decide

/-- `data <<= 8`, `data |= buf[byte]` -/
def push (data : BitVec 64) (byte : UInt8) : BitVec 64 := data <<< 8 ||| byte.toBitVec.setWidth 64

/-- The two loops that make a word of `buf`, with the first byte on top or at the bottom. -/
def assemble (endian : Endian) (buf : List UInt8) : BitVec 64 :=
  match endian with
  | .big => buf.foldl push 0
  | .little => buf.reverse.foldl push 0

def ffs (size : ℕ) : BitVec 64 := ~~~(0 : BitVec 64) >>> ((8 - size) * 8)

def mask0f : BitVec 64 := (List.range 8).foldl (fun mask _ => mask ||| mask <<< 8) 0x0f

def swap (x mask : BitVec 64) (n : ℕ) : BitVec 64 := (x >>> n &&& mask) ||| (x &&& mask) <<< n

def flipBits (invert : Bool) (x : BitVec 64) : BitVec 64 :=
  if !invert then x
  else
    let mask := mask0f
    let x := swap x mask 4
    let mask := mask ^^^ mask <<< 2
    let x := swap x mask 2
    let mask := mask ^^^ mask <<< 1
    swap x mask 1

def bytesOf (endian : Endian) (size : ℕ) (data : BitVec 64) : List UInt8 :=
  let lanes := (List.range size).map fun j => UInt8.ofBitVec (data.extractLsb' (8 * j) 8)
  match endian with
  | .big => lanes.reverse
  | .little => lanes

def readWord (endian : Endian) (size : ℕ) (m : Mem) (a : ℕ) : BitVec 64 := assemble endian (slice m a size)

structure Write where
  address : ℕ
  data : BitVec 64

def stream (m : Mem) (a : ℕ) : List UInt8 → Mem
  | [] => m
  | byte :: bytes =>
    stream (Function.update m a (m a &&& byte)) (if (a + 1) % pageSize = 0 then a + 1 - pageSize else a + 1) bytes

/-- A cycle of writes is one page write, from the address of its first word. -/
def pageWrite (endian : Endian) (size : ℕ) (m : Mem) : List Write → Mem
  | [] => m
  | first :: rest => stream m first.address ((first :: rest).flatMap fun op => bytesOf endian size op.data)

def erase (sector : ℕ) (m : Mem) (a : ℕ) : Mem := fun i => if i / sector = a / sector then 0xFF else m i

/-- The byte that holds a bit, the lowest byte first. -/
def lanes (endian : Endian) (buf : List UInt8) : List UInt8 :=
  match endian with
  | .big => buf.reverse
  | .little => buf

variable (endian : Endian)

@[simp] theorem length_lanes (buf : List UInt8) : (lanes endian buf).length = buf.length := by
  cases endian with
  | big => exact List.length_reverse
  | little => rfl

theorem lanes_map (f : UInt8 → UInt8) (buf : List UInt8) : lanes endian (buf.map f) = (lanes endian buf).map f := by
  cases endian with
  | big => exact List.map_reverse.symm
  | little => rfl

theorem lanes_lanes (buf : List UInt8) : lanes endian (lanes endian buf) = buf := by
  cases endian with
  | big => exact List.reverse_reverse buf
  | little => rfl

def stack : List UInt8 → BitVec 64
  | [] => 0
  | byte :: bytes => push (stack bytes) byte

theorem assemble_eq (buf : List UInt8) : assemble endian buf = stack (lanes endian buf) := by
  have fold : ∀ bytes : List UInt8, bytes.reverse.foldl push 0 = stack bytes := by
    intro bytes
    induction bytes with
    | nil => rfl
    | cons byte bytes ih =>
      rw [List.reverse_cons, List.foldl_append, ih]
      rfl
  cases endian with
  | big =>
    rw [assemble, lanes, ← fold, List.reverse_reverse]
  | little => exact fold buf

variable {bytes : List UInt8}

theorem getLsbD_stack {i : ℕ} (inside : i < 64) :
    (stack bytes).getLsbD i = (bytes.getD (i / 8) 0).toBitVec.getLsbD (i % 8) := by
  induction bytes generalizing i with
  | nil => simp [stack]
  | cons byte bytes ih =>
    rw [stack, push, BitVec.getLsbD_or, BitVec.getLsbD_shiftLeft, BitVec.getLsbD_setWidth]
    by_cases low : i < 8
    · have first : i / 8 = 0 := Nat.div_eq_of_lt low
      have whole : i % 8 = i := Nat.mod_eq_of_lt low
      simp [low, first, whole, inside]
    · obtain ⟨k, rfl⟩ : ∃ k, i = k + 8 := ⟨i - 8, by omega⟩
      have next : (k + 8) / 8 = k / 8 + 1 := Nat.add_div_right k (by decide)
      have high : byte.toBitVec.getLsbD (k + 8) = false := BitVec.getLsbD_of_ge _ _ (Nat.le_add_left 8 k)
      rw [next, List.getD_cons_succ, Nat.add_mod_right, high, Nat.add_sub_cancel, ih (by omega)]
      simp [inside]

def lanesOf (size : ℕ) (data : BitVec 64) : List UInt8 :=
  (List.range size).map fun j => UInt8.ofBitVec (data.extractLsb' (8 * j) 8)

theorem bytesOf_eq (size : ℕ) (data : BitVec 64) : bytesOf endian size data = lanes endian (lanesOf size data) := by
  cases endian with
  | big => rfl
  | little => rfl

theorem lanesOf_stack (short : bytes.length ≤ 8) : lanesOf bytes.length (stack bytes) = bytes := by
  apply List.ext_getElem
  · rw [lanesOf, List.length_map, List.length_range]
  · intro j _ inside
    rw [← UInt8.toBitVec_inj]
    apply BitVec.eq_of_getLsbD_eq
    intro b low
    have lane : (8 * j + b) / 8 = j := by omega
    have bit : (8 * j + b) % 8 = b := by omega
    simp only [lanesOf, List.getElem_map, List.getElem_range, UInt8.toBitVec_ofBitVec,
      BitVec.getLsbD_extractLsb', low, decide_true,
      Bool.true_and]
    rw [getLsbD_stack (by omega), lane, bit, List.getD_eq_getElem _ _ inside]

theorem bytesOf_assemble (buf : List UInt8) (short : buf.length ≤ 8) :
    bytesOf endian buf.length (assemble endian buf) = buf := by
  have stacked := lanesOf_stack (show (lanes endian buf).length ≤ 8 by rw [length_lanes]; exact short)
  rw [length_lanes] at stacked
  rw [bytesOf_eq, assemble_eq, stacked, lanes_lanes]

theorem assemble_inj {endian : Endian} {buf buf' : List UInt8} (same : buf'.length = buf.length)
    (short : buf.length ≤ 8) :
    assemble endian buf = assemble endian buf' ↔ buf = buf' := by
  constructor
  · intro words
    have bytes := congrArg (bytesOf endian buf.length) words
    rw [bytesOf_assemble endian buf short, ← same, bytesOf_assemble endian buf' (by rw [same]; exact short)] at bytes
    exact bytes
  · exact congrArg (assemble endian)

theorem assemble_ffs {size : ℕ} (sized : size = 1 ∨ size = 2 ∨ size = 4 ∨ size = 8) :
    assemble endian (List.replicate size 0xFF) = ffs size := by
  have reversed : lanes endian (List.replicate size 0xFF) = List.replicate size 0xFF := by
    cases endian with
    | big => exact List.reverse_replicate
    | little => rfl
  rw [assemble_eq, reversed]
  rcases sized with rfl | rfl | rfl | rfl
  all_goals decide

theorem assemble_eq_ffs {endian : Endian} {buf : List UInt8}
    (sized : buf.length = 1 ∨ buf.length = 2 ∨ buf.length = 4 ∨ buf.length = 8) :
    assemble endian buf = ffs buf.length ↔ ∀ byte ∈ buf, byte = 0xFF := by
  rw [← assemble_ffs endian sized, assemble_inj List.length_replicate (by omega), List.eq_replicate_iff]
  exact and_iff_right rfl

def partner (n i : ℕ) : ℕ := if i % (2 * n) < n then i + n else i - n

theorem getLsbD_swap {x mask : BitVec 64} {n i : ℕ} (few : n = 1 ∨ n = 2 ∨ n = 4)
    (bits : ∀ i < 64, mask.getLsbD i = decide (i % (2 * n) < n)) (inside : i < 64) :
    (swap x mask n).getLsbD i = x.getLsbD (partner n i) := by
  rw [swap, partner, BitVec.getLsbD_or, BitVec.getLsbD_and, BitVec.getLsbD_ushiftRight, bits i inside,
    BitVec.getLsbD_shiftLeft,
    BitVec.getLsbD_and, bits (i - n) (by omega), decide_eq_true inside, Bool.true_and]
  by_cases low : i % (2 * n) < n
  · have other : decide (i < n) || !decide ((i - n) % (2 * n) < n) := by
      rcases few with rfl | rfl | rfl
      all_goals simp only [Bool.or_eq_true, decide_eq_true_eq, Bool.not_eq_true', decide_eq_false_iff_not]; omega
    rw [if_pos low, decide_eq_true low, Bool.and_true, Nat.add_comm n i]
    cases early : decide (i < n) with
    | true => rw [Bool.not_true, Bool.false_and, Bool.or_false]
    | false =>
      rw [early, Bool.false_or, Bool.not_eq_true'] at other
      rw [other, Bool.and_false, Bool.and_false, Bool.or_false]
  · have other : n ≤ i ∧ (i - n) % (2 * n) < n := by
      rcases few with rfl | rfl | rfl
      all_goals omega
    rw [if_neg low, decide_eq_false low, Bool.and_false, Bool.false_or, decide_eq_false (by omega),
      decide_eq_true other.2,
      Bool.not_false, Bool.true_and, Bool.and_true]

theorem getLsbD_flipBits {x : BitVec 64} {i : ℕ} (inside : i < 64) :
    (flipBits true x).getLsbD i = x.getLsbD (8 * (i / 8) + (7 - i % 8)) := by
  have fours : ∀ i < 64, mask0f.getLsbD i = decide (i % (2 * 4) < 4) := by decide
  have twos : ∀ i < 64, (mask0f ^^^ mask0f <<< 2).getLsbD i = decide (i % (2 * 2) < 2) := by decide
  have ones : ∀ i < 64, (mask0f ^^^ mask0f <<< 2 ^^^ (mask0f ^^^ mask0f <<< 2) <<< 1).getLsbD i =
    decide (i % (2 * 1) < 1) := by decide
  have places : ∀ i < 64, partner 1 i < 64 ∧ partner 2 (partner 1 i) < 64 ∧
      partner 4 (partner 2 (partner 1 i)) = 8 * (i / 8) + (7 - i % 8) := by decide
  obtain ⟨first, second, place⟩ := places i inside
  change (swap (swap (swap x mask0f 4) (mask0f ^^^ mask0f <<< 2) 2)
    (mask0f ^^^ mask0f <<< 2 ^^^ (mask0f ^^^ mask0f <<< 2) <<< 1) 1).getLsbD i = _
  rw [getLsbD_swap (Or.inl rfl) ones inside, getLsbD_swap (Or.inr (Or.inl rfl)) twos first,
    getLsbD_swap (Or.inr (Or.inr rfl)) fours second, place]

def flipByte (invert : Bool) (byte : UInt8) : UInt8 := if invert then UInt8.ofBitVec byte.toBitVec.reverse else byte

theorem flipBits_stack (invert : Bool) :
    flipBits invert (stack bytes) = stack (bytes.map (flipByte invert)) := by
  cases invert with
  | false =>
    change stack bytes = stack (bytes.map id)
    rw [List.map_id]
  | true =>
    apply BitVec.eq_of_getLsbD_eq
    intro i inside
    have lane : (8 * (i / 8) + (7 - i % 8)) / 8 = i / 8 := by omega
    have bit : (8 * (i / 8) + (7 - i % 8)) % 8 = 7 - i % 8 := by omega
    have zero : flipByte true 0 = 0 := by decide
    have low : i % 8 < 8 := Nat.mod_lt i (by decide)
    rw [getLsbD_flipBits inside, getLsbD_stack (by omega), getLsbD_stack inside, lane, bit, ← zero,
      List.getD_map, zero, flipByte,
      if_pos rfl, UInt8.toBitVec_ofBitVec, BitVec.getLsbD_reverse, BitVec.getMsbD, decide_eq_true low, Bool.true_and]

theorem flipBits_assemble (invert : Bool) (buf : List UInt8) :
    flipBits invert (assemble endian buf) = assemble endian (buf.map (flipByte invert)) := by
  rw [assemble_eq, assemble_eq, flipBits_stack, lanes_map]

theorem stream_apply (m : Mem) {a : ℕ} (fits : a % pageSize + bytes.length ≤ pageSize) (x : ℕ) :
    stream m a bytes x = if a ≤ x ∧ x < a + bytes.length then m x &&& bytes.getD (x - a) 0 else m x := by
  rw [pageSize] at fits
  induction bytes generalizing m a with
  | nil =>
    rw [if_neg (by rw [List.length_nil]; omega)]
    rfl
  | cons byte bytes ih =>
    rw [List.length_cons] at fits ⊢
    have here : Function.update m a (m a &&& byte) x = if x = a then m a &&& byte else m x := Function.update_apply ..
    cases bytes with
    | nil =>
      change Function.update m a (m a &&& byte) x = _
      rw [here, List.length_nil]
      by_cases same : x = a
      · subst same
        rw [if_pos rfl, if_pos (by omega), Nat.sub_self]
        rfl
      · rw [if_neg same, if_neg (by omega)]
    | cons next rest =>
      rw [List.length_cons] at fits
      have on : ¬ (a + 1) % pageSize = 0 := by
        rw [pageSize]
        omega
      rw [stream, if_neg on, ih _ (by rw [List.length_cons]; omega), here]
      by_cases same : x = a
      · subst same
        rw [if_neg (by omega), if_pos rfl, if_pos (by omega), Nat.sub_self]
        rfl
      · rw [if_neg same]
        by_cases inside : a ≤ x ∧ x < a + ((next :: rest).length + 1)
        · have step : x - a = x - (a + 1) + 1 := by omega
          rw [if_pos inside, if_pos (by omega), step]
          rfl
        · rw [if_neg inside, if_neg (by omega)]

theorem assemble_slice_ffs {endian : Endian} {size : ℕ}
    (sized : size = 1 ∨ size = 2 ∨ size = 4 ∨ size = 8) (m : Mem) (a : ℕ) :
    assemble endian (slice m a size) = ffs size ↔ ∀ x, a ≤ x → x < a + size → m x = 0xFF := by
  have length := length_slice m a size
  have bytes : ∀ buf : List UInt8, buf.length = size →
    (assemble endian buf = ffs size ↔ ∀ byte ∈ buf, byte = 0xFF) := by
    rintro buf rfl
    exact assemble_eq_ffs sized
  rw [bytes _ length, slice_eq_map]
  constructor
  · intro all x below above
    exact all (m x) (List.mem_map.mpr ⟨x - a, List.mem_range.mpr (by omega), by rw [Nat.add_sub_cancel' below]⟩)
  · intro all byte member
    obtain ⟨k, inside, rfl⟩ := List.mem_map.mp member
    rw [List.mem_range] at inside
    exact all (a + k) (Nat.le_add_right a k) (by omega)

theorem slice_const {m : Mem} {a size : ℕ} {byte : UInt8} (same : ∀ x, a ≤ x → x < a + size → m x = byte) :
    slice m a size = List.replicate size byte := by
  rw [List.eq_replicate_iff, length_slice]
  refine ⟨rfl, ?_⟩
  intro b member
  rw [slice_eq_map, List.mem_map] at member
  obtain ⟨k, inside, rfl⟩ := member
  rw [List.mem_range] at inside
  exact same _ (Nat.le_add_right a k) (by omega)

def quarter : Job :=
  { address := 0x10000, firmwareLength := 0x40000, size := 4, endian := .little, invert := false,
    eraseAddress := 0x7ffffc
    aligned := by decide, pages := by decide, inside := by decide, short := by decide, sized := by decide }

end BelProject.Tools.Flash
