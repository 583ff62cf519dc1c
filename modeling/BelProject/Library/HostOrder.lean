import BelProject.Library.BigEndian

/-! Words in a host's own byte order, and the swaps between it and big endian. A word
swapped before it is stored lies in memory big endian on every host, and a big-endian word
swapped after it is loaded has its value back. -/

namespace BelProject.Library
open BigEndian

inductive Host where
  | big | little
  deriving DecidableEq, Repr

namespace Host

/-- The bytes a store of a word leaves in memory. -/
def store (host : Host) (width value : Nat) : List UInt8 :=
  match host with
  | .big => encode width value
  | .little => (encode width value).reverse

def load (host : Host) (bytes : List UInt8) : Nat :=
  match host with
  | .big => decode bytes
  | .little => decode bytes.reverse

/-- `htobe` and `betoh` of a width; they are the same permutation of bytes. -/
def swap (host : Host) (width value : Nat) : Nat :=
  match host with
  | .big => value
  | .little => decode (encode width value).reverse

/-- Of two things given for both orders, the one for this order. -/
def pick {α : Type} (host : Host) (big little : α) : α :=
  match host with
  | .big => big
  | .little => little

variable (host : Host)

theorem store_swap (width value : Nat) : host.store width (host.swap width value) = encode width value := by
  cases host with
  | big => rfl
  | little =>
    have length : (encode width value).reverse.length = width := by rw [List.length_reverse, length_encode]
    have same := encode_decode (encode width value).reverse
    rw [length] at same
    rw [store, swap, same, List.reverse_reverse]

theorem swap_load (bytes : List UInt8) : host.swap bytes.length (host.load bytes) = decode bytes := by
  cases host with
  | big => rfl
  | little =>
    have same := encode_decode bytes.reverse
    rw [List.length_reverse] at same
    rw [swap, load, same, List.reverse_reverse]

@[simp] theorem length_store (width value : Nat) : (host.store width value).length = width := by
  cases host with
  | big => exact length_encode width value
  | little => rw [store, List.length_reverse, length_encode]

theorem store_mod (width value : Nat) : host.store width (value % 256 ^ width) = host.store width value := by
  cases host with
  | big => exact encode_mod width value
  | little => rw [store, store, encode_mod]

/-- How many narrower words of a wide word are less significant than the word at place `i`. -/
def rank (host : Host) (count i : Nat) : Nat := host.pick (count - 1 - i) i

theorem store_words (width count value : Nat) :
    host.store (width * count) value =
      (List.range count).flatMap fun i => host.store width (value / 256 ^ (width * host.rank count i)) := by
  cases host with
  | big => exact encode_words width count value
  | little =>
    induction count generalizing value with
    | zero => rfl
    | succ count ih =>
      rw [Nat.mul_succ, store, encode_add, List.reverse_append, List.range_succ_eq_map, List.flatMap_cons,
        List.flatMap_map]
      have rest := ih (value / 256 ^ width)
      rw [store] at rest
      rw [rest]
      congr 1
      · rw [rank, pick, Nat.mul_zero, pow_zero, Nat.div_one, store]
      · apply List.flatMap_congr
        intro i _
        rw [rank, rank, pick, pick, Nat.div_div_eq_div_mul, ← pow_add, Nat.mul_succ, Nat.add_comm]

def below (host : Host) (before after : Nat) : Nat := host.pick after before

theorem load_merge (before middle after : List UInt8) {data bits : Nat}
    (fits : data < 256 ^ middle.length) (room : 8 * (before.length + (middle.length + after.length)) ≤ bits) :
    (data <<< (8 * host.below before.length after.length)) ||| (host.load (before ++ (middle ++ after)) &&&
        ((2 ^ bits - 1) ^^^ ((2 ^ (8 * middle.length) - 1) <<< (8 * host.below before.length after.length)))) =
      host.load (before ++ (host.store middle.length data ++ after)) := by
  cases host with
  | big => exact decode_merge before middle after fits room
  | little =>
    have fits' : data < 256 ^ middle.reverse.length := by rwa [List.length_reverse]
    have room' : 8 * (after.reverse.length + (middle.reverse.length + before.reverse.length)) ≤ bits := by
      rw [List.length_reverse, List.length_reverse, List.length_reverse]
      omega
    have merged := decode_merge after.reverse middle.reverse before.reverse fits' room'
    simp only [List.length_reverse] at merged
    rw [load, load, below, pick, store, List.reverse_append, List.reverse_append, List.append_assoc, merged,
      List.reverse_append, List.reverse_append, List.reverse_reverse, List.append_assoc]

theorem decode_middle (before middle after : List UInt8) :
    decode (before ++ (middle ++ after)) / 256 ^ after.length % 256 ^ middle.length = decode middle := by
  rw [← List.append_assoc, decode_append, decode_append, Nat.mul_comm _ (256 ^ after.length),
    Nat.mul_add_div (Nat.pow_pos (by decide)), Nat.div_eq_of_lt (decode_lt after), Nat.add_zero]
  exact Nat.mul_add_mod_of_lt (decode_lt middle)

theorem load_window (before middle after : List UInt8) :
    host.load (before ++ (middle ++ after)) / 256 ^ host.below before.length after.length % 256 ^ middle.length =
      host.load middle := by
  cases host with
  | big => exact decode_middle before middle after
  | little =>
    have turned := decode_middle after.reverse middle.reverse before.reverse
    simp only [List.length_reverse] at turned
    rw [load, load, below, pick, List.reverse_append, List.reverse_append, List.append_assoc, turned]

theorem store_load (bytes : List UInt8) : host.store bytes.length (host.load bytes) = bytes := by
  cases host with
  | big => exact encode_decode bytes
  | little =>
    have same := encode_decode bytes.reverse
    rw [List.length_reverse] at same
    rw [store, load, same, List.reverse_reverse]

theorem load_store {width value : Nat} (fits : value < 256 ^ width) : host.load (host.store width value) = value := by
  cases host with
  | big => exact decode_encode_of_lt fits
  | little => rw [store, load, List.reverse_reverse, decode_encode_of_lt fits]

theorem load_lt (bytes : List UInt8) : host.load bytes < 256 ^ bytes.length := by
  cases host with
  | big => exact decode_lt bytes
  | little =>
    have small := decode_lt bytes.reverse
    rwa [List.length_reverse] at small

end Host

end BelProject.Library
