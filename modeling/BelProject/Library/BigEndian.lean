import Mathlib.Data.Nat.Bitwise
import Mathlib.Data.List.Basic
import Mathlib.Tactic.Ring

/-! Fixed-width big-endian byte strings over the naturals. A word is written most
significant byte first and truncated to the width; reading it back returns the
value modulo the width, which is what a store and a load of a machine word do. -/

namespace BelProject.Library.BigEndian

/-- The low `width` bytes of `value`, most significant byte first. -/
def encode : Nat → Nat → List UInt8
  | 0, _ => []
  | width + 1, value => UInt8.ofNat (value / 256 ^ width) :: encode width value

def decode (bytes : List UInt8) : Nat :=
  bytes.foldl (fun high byte => high * 256 + byte.toNat) 0

@[simp] theorem length_encode (width value : Nat) : (encode width value).length = width := by
  induction width with
  | zero => rfl
  | succ width ih => simp only [encode, List.length_cons, ih]

private theorem foldl_shift (bytes : List UInt8) (high : Nat) :
    bytes.foldl (fun high byte => high * 256 + byte.toNat) high =
      high * 256 ^ bytes.length + decode bytes := by
  induction bytes generalizing high with
  | nil => simp [decode]
  | cons byte bytes ih =>
    simp only [decode, List.foldl_cons, List.length_cons]
    rw [ih, ih (0 * 256 + byte.toNat)]
    ring

theorem decode_cons (byte : UInt8) (bytes : List UInt8) :
    decode (byte :: bytes) = byte.toNat * 256 ^ bytes.length + decode bytes := by
  have shifted := foldl_shift bytes byte.toNat
  simpa only [decode, List.foldl_cons, Nat.zero_mul, Nat.zero_add] using shifted

theorem decode_append (high low : List UInt8) : decode (high ++ low) = decode high * 256 ^ low.length + decode low := by
  have shifted := foldl_shift low (decode high)
  rwa [decode, decode, List.foldl_append]

theorem decode_lt (bytes : List UInt8) : decode bytes < 256 ^ bytes.length := by
  induction bytes with
  | nil => simp [decode]
  | cons byte bytes ih =>
    rw [decode_cons, List.length_cons, pow_succ]
    have small : byte.toNat < 256 := byte.toNat_lt
    calc
      byte.toNat * 256 ^ bytes.length + decode bytes
        < byte.toNat * 256 ^ bytes.length + 256 ^ bytes.length := by omega
      _ = (byte.toNat + 1) * 256 ^ bytes.length := by ring
      _ ≤ 256 * 256 ^ bytes.length := Nat.mul_le_mul_right _ small
      _ = 256 ^ bytes.length * 256 := Nat.mul_comm _ _

theorem decode_encode (width value : Nat) : decode (encode width value) = value % 256 ^ width := by
  induction width with
  | zero => simp [encode, decode, Nat.mod_one]
  | succ width ih =>
    have head : (UInt8.ofNat (value / 256 ^ width)).toNat = value / 256 ^ width % 256 :=
      UInt8.toNat_ofNat'
    have split : value % 256 ^ (width + 1) =
        value % 256 ^ width + 256 ^ width * (value / 256 ^ width % 256) := by
      rw [pow_succ, Nat.mod_mul]
    rw [encode, decode_cons, ih, length_encode, head, split, Nat.mul_comm, Nat.add_comm]

theorem decode_encode_of_lt {width value : Nat} (fits : value < 256 ^ width) :
    decode (encode width value) = value := by
  rw [decode_encode, Nat.mod_eq_of_lt fits]

theorem encode_mod (width value : Nat) : encode width (value % 256 ^ width) = encode width value := by
  suffices general : ∀ high, width ≤ high → encode width (value % 256 ^ high) = encode width value from general width le_rfl
  intro high
  induction width with
  | zero => intro _; rfl
  | succ width ih =>
    intro fits
    have byte : UInt8.ofNat (value % 256 ^ high / 256 ^ width) = UInt8.ofNat (value / 256 ^ width) := by
      apply UInt8.toNat_inj.mp
      have split : 256 ^ high = 256 ^ width * (256 * 256 ^ (high - width - 1)) := by
        rw [← pow_succ', ← pow_add]
        congr 1
        omega
      rw [UInt8.toNat_ofNat', UInt8.toNat_ofNat', split, Nat.mod_mul_right_div_self]
      exact Nat.mod_mul_right_mod _ _ _
    rw [encode, encode, byte, ih (by omega)]

theorem encode_decode (bytes : List UInt8) : encode bytes.length (decode bytes) = bytes := by
  induction bytes with
  | nil => rfl
  | cons byte bytes ih =>
    have small := decode_lt bytes
    have head : (byte.toNat * 256 ^ bytes.length + decode bytes) / 256 ^ bytes.length = byte.toNat := by
      rw [Nat.mul_comm, Nat.mul_add_div (Nat.pow_pos (by decide)), Nat.div_eq_of_lt small, Nat.add_zero]
    have tail : encode bytes.length (byte.toNat * 256 ^ bytes.length + decode bytes) =
        encode bytes.length (decode bytes) := by
      rw [← encode_mod, Nat.mul_comm, Nat.mul_add_mod, Nat.mod_eq_of_lt small]
    rw [decode_cons, List.length_cons, encode, head, tail, ih, UInt8.ofNat_toNat]

theorem encode_add (high low value : Nat) :
    encode (high + low) value = encode high (value / 256 ^ low) ++ encode low value := by
  induction high with
  | zero => simp [encode]
  | succ high ih =>
    rw [Nat.succ_add, encode, encode, ih, List.cons_append, Nat.div_div_eq_div_mul, ← pow_add, Nat.add_comm low high]

theorem encode_mul_pow (width high value : Nat) :
    encode width (value * 256 ^ (width + high)) = List.replicate width 0 := by
  induction width generalizing high with
  | zero => rfl
  | succ width ih =>
    have byte : UInt8.ofNat (value * 256 ^ (width + 1 + high) / 256 ^ width) = 0 := by
      have split : value * 256 ^ (width + 1 + high) = 256 * (value * 256 ^ high) * 256 ^ width := by ring
      apply UInt8.toNat_inj.mp
      rw [UInt8.toNat_ofNat', split, Nat.mul_div_cancel _ (Nat.pow_pos (by decide)), Nat.mul_mod_right]
      rfl
    rw [encode, byte, show width + 1 + high = width + (1 + high) by omega, ih, List.replicate_succ]

theorem pow_byte (width : Nat) : 256 ^ width = 2 ^ (8 * width) := (pow_mul 2 8 width).symm

theorem decode_window (before width after value : Nat) :
    decode (((encode (before + (width + after)) value).drop before).take width) =
      (value >>> (8 * after)) % 2 ^ (8 * width) := by
  rw [encode_add, encode_add, List.drop_left' (length_encode _ _), List.take_left' (length_encode _ _), decode_encode,
    Nat.shiftRight_eq_div_pow, pow_byte, pow_byte]

theorem encode_words (width count value : Nat) :
    encode (width * count) value =
      (List.range count).flatMap fun i => encode width (value / 256 ^ (width * (count - 1 - i))) := by
  induction count with
  | zero => rfl
  | succ count ih =>
    rw [Nat.mul_succ, Nat.add_comm, encode_add, ih, List.range_succ_eq_map, List.flatMap_cons, List.flatMap_map]
    congr 1
    apply List.flatMap_congr
    intro i member
    have below := List.mem_range.mp member
    congr 4
    omega

theorem merge_testBit {original data low size bits : Nat} (within : original < 2 ^ bits) (fits : data < 2 ^ size)
    (room : low + size ≤ bits) (i : Nat) :
    ((data <<< low) ||| (original &&& ((2 ^ bits - 1) ^^^ ((2 ^ size - 1) <<< low)))).testBit i =
      if low ≤ i ∧ i < low + size then data.testBit (i - low) else original.testBit i := by
  rw [Nat.testBit_or, Nat.testBit_and, Nat.testBit_xor, Nat.testBit_shiftLeft, Nat.testBit_shiftLeft,
    Nat.testBit_two_pow_sub_one, Nat.testBit_two_pow_sub_one]
  by_cases inside : low ≤ i ∧ i < low + size
  · have top : i < bits := by omega
    have mask : i - low < size := by omega
    rw [if_pos inside]
    simp [inside.1, top, mask]
  · rw [if_neg inside]
    have outside : (decide (i ≥ low) && data.testBit (i - low)) = false := by
      rcases Nat.lt_or_ge i low with below | above
      · simp [Nat.not_le.mpr below]
      · have high : size ≤ i - low := by omega
        have big : data < 2 ^ (i - low) := lt_of_lt_of_le fits (Nat.pow_le_pow_right (by decide) high)
        rw [Nat.testBit_lt_two_pow big, Bool.and_false]
    have unmasked : (decide (i ≥ low) && decide (i - low < size)) = false := by
      rw [← Bool.decide_and, decide_eq_false_iff_not]
      omega
    rw [outside, unmasked, Bool.false_or, Bool.xor_false]
    rcases Nat.lt_or_ge i bits with inWord | above
    · simp [inWord]
    · have big : original < 2 ^ i := lt_of_lt_of_le within (Nat.pow_le_pow_right (by decide) above)
      rw [Nat.testBit_lt_two_pow big, Bool.false_and]

theorem testBit_decode_append (high low : List UInt8) (i : Nat) : (decode (high ++ low)).testBit i =
    if i < 8 * low.length then (decode low).testBit i else (decode high).testBit (i - 8 * low.length) := by
  have small := decode_lt low
  rw [pow_byte] at small
  rw [decode_append, pow_byte, Nat.mul_comm, Nat.testBit_two_pow_mul_add _ small]

theorem decode_merge (before middle after : List UInt8) {data bits : Nat} (fits : data < 256 ^ middle.length)
    (room : 8 * (before.length + (middle.length + after.length)) ≤ bits) :
    (data <<< (8 * after.length)) ||| (decode (before ++ (middle ++ after)) &&&
        ((2 ^ bits - 1) ^^^ ((2 ^ (8 * middle.length) - 1) <<< (8 * after.length)))) =
      decode (before ++ (encode middle.length data ++ after)) := by
  have within : decode (before ++ (middle ++ after)) < 2 ^ bits := by
    have small := decode_lt (before ++ (middle ++ after))
    rw [List.length_append, List.length_append, pow_byte] at small
    exact lt_of_lt_of_le small (Nat.pow_le_pow_right (by decide) room)
  apply Nat.eq_of_testBit_eq
  intro i
  rw [merge_testBit within (by rwa [← pow_byte]) (by omega : 8 * after.length + 8 * middle.length ≤ bits),
    testBit_decode_append, testBit_decode_append, testBit_decode_append, testBit_decode_append,
    decode_encode_of_lt fits, List.length_append, List.length_append, length_encode]
  by_cases low : i < 8 * after.length
  · rw [if_neg (by omega), if_pos (by omega), if_pos low, if_pos (by omega), if_pos low]
  · by_cases inside : i < 8 * after.length + 8 * middle.length
    · rw [if_pos (by omega), if_pos (by omega), if_neg low]
    · rw [if_neg (by omega), if_neg (by omega), if_neg (by omega)]

end BelProject.Library.BigEndian
