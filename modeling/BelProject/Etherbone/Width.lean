import BelProject.Library.Bits
import Mathlib.Tactic.IntervalCases

/-! Bus widths of the Etherbone library. A width byte carries the data sizes in its
low and the address sizes in its high nibble; refinement keeps the largest of each.
A `Port` is a refined width on a library build whose machine word can hold it, with
the wire layout both ends of a link derive from it. -/

namespace BelProject.Etherbone.Width
open BelProject.Library

def ebWidthPossible (width : UInt8) : Bool :=
  let data := width &&& 0xf
  let addr := width >>> 4
  data != 0 && addr != 0

def ebWidthRefined (width : UInt8) : Bool :=
  let data := width &&& 0xf
  let addr := width >>> 4
  data != 0 && addr != 0 && data &&& (data - 1) == 0 && addr &&& (addr - 1) == 0

/-- `eb_width_refine`: smear the top set bit of each nibble downwards, then halve. -/
def ebWidthRefine (width : UInt8) : UInt8 :=
  let data := width &&& 0xf
  let addr := width >>> 4
  let addr := addr ||| (addr >>> 1)
  let addr := addr ||| (addr >>> 2)
  let addr := (addr + 1) >>> 1
  let data := data ||| (data >>> 1)
  let data := data ||| (data >>> 2)
  let data := (data + 1) >>> 1
  (addr <<< 4) ||| data

theorem forall_byte {P : UInt8 → Prop} (all : ∀ bits : BitVec 8, P ⟨bits⟩) (byte : UInt8) : P byte :=
  all byte.toBitVec

theorem refined_refine (width : UInt8) :
    ebWidthRefined (ebWidthRefine width) = ebWidthPossible width := by
  revert width
  exact forall_byte (by decide)

theorem refine_of_refined (width : UInt8) (refined : ebWidthRefined width = true) :
    ebWidthRefine width = width := by
  revert width
  exact forall_byte (by decide)

def IsSize (size : Nat) : Prop := size = 1 ∨ size = 2 ∨ size = 4 ∨ size = 8

instance (size : Nat) : Decidable (IsSize size) :=
  inferInstanceAs (Decidable (_ ∨ _))

theorem IsSize.exists_pow {size : Nat} (isSize : IsSize size) : ∃ k, k ≤ 3 ∧ size = 2 ^ k := by
  rcases isSize with h | h | h | h
  · exact ⟨0, by decide, h⟩
  · exact ⟨1, by decide, h⟩
  · exact ⟨2, by decide, h⟩
  · exact ⟨3, by decide, h⟩

/-- One data and one address size, negotiated on a build with `word` byte registers. -/
structure Port where
  word : Nat
  data : Nat
  addr : Nat
  word_size : word = 2 ∨ word = 4 ∨ word = 8
  data_size : IsSize data
  addr_size : IsSize addr
  data_le : data ≤ word
  addr_le : addr ≤ word

namespace Port
variable (p : Port)

def widths : UInt8 := UInt8.ofNat (p.addr * 16 + p.data)

def biggest : Nat := p.addr ||| p.data

def alignment : Nat :=
  2 + (if p.biggest ≥ 4 then 2 else 0) + (if p.biggest ≥ 8 then 4 else 0)

def recordAlignment : Nat := 4 + (if p.biggest ≥ 8 then 4 else 0)

def headerAlignment : Nat := p.recordAlignment

def stride : Nat := p.data

/-- `sizeof(eb_max_align_t)*(255+255+1+1)+8`, the size of every formatting buffer. -/
def bufferSize : Nat := p.word * (255 + 255 + 1 + 1) + 8

/-- All values of `eb_data_t` and `eb_address_t` are residues modulo this. -/
def wordMod : Nat := 2 ^ (8 * p.word)

def addressMask : Nat := (p.wordMod - 1) >>> ((p.word - p.addr) <<< 3)

def dataMask (size : Nat) : Nat := (p.wordMod - 1) >>> ((p.word - size) <<< 3)

def addressFilterBits : Nat := p.addressMask - (p.data - 1)

theorem layout : (p.alignment = 2 ∨ p.alignment = 4 ∨ p.alignment = 8) ∧
    p.data ≤ p.alignment ∧ p.addr ≤ p.alignment ∧ p.alignment ≤ p.word := by
  obtain ⟨word, data, addr, word_size, data_size, addr_size, data_le, addr_le⟩ := p
  simp only [alignment, biggest]
  rcases data_size with rfl | rfl | rfl | rfl <;> rcases addr_size with rfl | rfl | rfl | rfl <;>
    rcases word_size with rfl | rfl | rfl <;> simp_all

theorem data_le_alignment : p.data ≤ p.alignment := p.layout.2.1

theorem addr_le_alignment : p.addr ≤ p.alignment := p.layout.2.2.1

theorem alignment_le_word : p.alignment ≤ p.word := p.layout.2.2.2

theorem two_le_alignment : 2 ≤ p.alignment := by
  rcases p.layout.1 with h | h | h <;> omega

theorem recordAlignment_size : p.recordAlignment = 4 ∨ p.recordAlignment = 8 := by
  unfold recordAlignment
  split <;> omega

theorem four_le_recordAlignment : 4 ≤ p.recordAlignment := by
  rcases p.recordAlignment_size with h | h <;> omega

theorem recordAlignment_le : p.recordAlignment ≤ 8 := by
  rcases p.recordAlignment_size with h | h <;> omega

theorem data_pos : 0 < p.data := by
  rcases p.data_size with h | h | h | h <;> omega

theorem data_le_eight : p.data ≤ 8 := by
  rcases p.data_size with h | h | h | h <;> omega

theorem dataMask_eq {size : Nat} (fits : size ≤ p.word) : p.dataMask size = 2 ^ (8 * size) - 1 := by
  unfold dataMask wordMod
  have split : 2 ^ (8 * p.word) = 2 ^ (8 * size) * 2 ^ (8 * (p.word - size)) := by
    rw [← pow_add]
    congr 1
    omega
  rw [Nat.shiftRight_eq_div_pow, Nat.shiftLeft_eq, Nat.mul_comm _ (2 ^ 3), split]
  have positive : 0 < 2 ^ (8 * (p.word - size)) := Nat.two_pow_pos _
  rw [Nat.div_eq_iff positive]
  have expand : (2 ^ (8 * size) - 1) * 2 ^ (8 * (p.word - size)) + 2 ^ (8 * (p.word - size)) =
      2 ^ (8 * size) * 2 ^ (8 * (p.word - size)) := by
    rw [Nat.sub_mul, Nat.one_mul]
    exact Nat.sub_add_cancel (Nat.le_mul_of_pos_left _ (Nat.two_pow_pos _))
  constructor <;> omega

theorem addressMask_eq : p.addressMask = 2 ^ (8 * p.addr) - 1 :=
  p.dataMask_eq p.addr_le

theorem exists_data_pow : ∃ k, k ≤ 3 ∧ p.data = 2 ^ k :=
  p.data_size.exists_pow

theorem and_data_sub_one (address : Nat) : address &&& (p.data - 1) = address % p.data := by
  obtain ⟨k, _, data⟩ := p.exists_data_pow
  rw [data, Nat.and_two_pow_sub_one_eq_mod]

theorem data_dvd_addr_space : p.data ∣ 2 ^ (8 * p.addr) := by
  obtain ⟨k, small, data⟩ := p.exists_data_pow
  rw [data]
  apply Nat.pow_dvd_pow
  rcases p.addr_size with h | h | h | h <;> omega

theorem data_dvd_wordMod : p.data ∣ p.wordMod := by
  obtain ⟨k, small, data⟩ := p.exists_data_pow
  rw [data, wordMod]
  apply Nat.pow_dvd_pow
  rcases p.word_size with h | h | h <;> omega

theorem and_addressFilterBits (address : Nat) :
    address &&& p.addressFilterBits = address % 2 ^ (8 * p.addr) - address % p.data := by
  obtain ⟨k, small, data⟩ := p.exists_data_pow
  have ordered : k ≤ 8 * p.addr := by rcases p.addr_size with h | h | h | h <;> omega
  have mask : p.addressFilterBits = 2 ^ (8 * p.addr) - 2 ^ k := by
    rw [addressFilterBits, addressMask_eq, data]
    have := Nat.two_pow_pos k
    omega
  rw [mask, data]
  exact Bits.and_mask_range address ordered

/-- The port most boards negotiate, on a build that matches it. -/
def wishbone32 : Port := ⟨4, 4, 4, by decide, by decide, by decide, by decide, by decide⟩

def wishbone64 : Port := ⟨8, 8, 8, by decide, by decide, by decide, by decide, by decide⟩

end Port

end BelProject.Etherbone.Width
