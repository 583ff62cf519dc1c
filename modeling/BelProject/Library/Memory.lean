import Mathlib.Data.List.Basic
import Mathlib.Data.List.GetD
import Mathlib.Tactic.Ring

/-! Byte-addressed memory with ranged reads and writes. A write only changes the range
it covers, so a read elsewhere still returns what was there before. -/

namespace BelProject.Library.Memory

abbrev Mem := Nat → UInt8

def slice (m : Mem) (offset : Nat) : Nat → List UInt8
  | 0 => []
  | length + 1 => m offset :: slice m (offset + 1) length

def store (m : Mem) (offset : Nat) : List UInt8 → Mem
  | [] => m
  | byte :: bytes => store (fun i => if i = offset then byte else m i) (offset + 1) bytes

variable (m : Mem)

@[simp] theorem length_slice (offset length : Nat) : (slice m offset length).length = length := by
  induction length generalizing offset with
  | zero => rfl
  | succ length ih => simp only [slice, List.length_cons, ih]

theorem slice_add (offset first second : Nat) :
    slice m offset (first + second) = slice m offset first ++ slice m (offset + first) second := by
  induction first generalizing offset with
  | zero => simp [slice]
  | succ first ih =>
    rw [Nat.succ_add_eq_add_succ, Nat.add_succ, slice, ih, slice, List.cons_append]
    congr 3
    omega

theorem slice_eq_map (offset length : Nat) :
    slice m offset length = (List.range length).map fun i => m (offset + i) := by
  induction length generalizing offset with
  | zero => rfl
  | succ length ih =>
    rw [slice, ih, List.range_succ_eq_map, List.map_cons, List.map_map]
    congr 1
    apply List.map_congr_left
    intro i _
    rw [Function.comp_apply, Nat.succ_eq_add_one]
    congr 1
    omega

theorem slice_eq_append {m : Mem} {offset length : Nat} {first second : List UInt8}
    (known : slice m offset length = first ++ second) :
    slice m offset first.length = first ∧ slice m (offset + first.length) second.length = second := by
  have size : length = first.length + second.length := by
    rw [← length_slice m offset length, known, List.length_append]
  rw [size, slice_add] at known
  exact List.append_inj known (by rw [length_slice])

theorem slice_congr (m m' : Mem) (offset length : Nat)
    (same : ∀ i, offset ≤ i → i < offset + length → m i = m' i) :
    slice m offset length = slice m' offset length := by
  induction length generalizing offset with
  | zero => rfl
  | succ length ih =>
    simp only [slice]
    rw [same offset le_rfl (by omega), ih (offset + 1) (fun i low high => same i (by omega) (by omega))]

theorem store_outside (offset : Nat) (bytes : List UInt8) (i : Nat)
    (outside : i < offset ∨ offset + bytes.length ≤ i) : store m offset bytes i = m i := by
  induction bytes generalizing m offset with
  | nil => rfl
  | cons byte bytes ih =>
    simp only [List.length_cons] at outside
    rw [store, ih _ _ (by omega), if_neg (by omega)]

theorem slice_store_outside (offset : Nat) (bytes : List UInt8) (at' length : Nat)
    (outside : at' + length ≤ offset ∨ offset + bytes.length ≤ at') :
    slice (store m offset bytes) at' length = slice m at' length := by
  apply slice_congr
  intro i low high
  exact store_outside m offset bytes i (by omega)

theorem slice_store (offset : Nat) (bytes : List UInt8) : slice (store m offset bytes) offset bytes.length = bytes := by
  induction bytes generalizing m offset with
  | nil => rfl
  | cons byte bytes ih =>
    simp only [List.length_cons, slice, store]
    rw [store_outside _ _ _ _ (Or.inl (by omega)), if_pos rfl, ih]

theorem slice_store_append (base offset : Nat) (bytes : List UInt8) :
    slice (store m (base + offset) bytes) base (offset + bytes.length) = slice m base offset ++ bytes := by
  rw [slice_add, slice_store_outside m (base + offset) bytes base offset (Or.inl le_rfl), slice_store]

theorem store_append (offset : Nat) (first second : List UInt8) :
    store m offset (first ++ second) = store (store m offset first) (offset + first.length) second := by
  induction first generalizing m offset with
  | nil => rfl
  | cons byte first ih =>
    rw [List.cons_append, store, store, ih, List.length_cons, Nat.add_assoc, Nat.add_comm 1]

theorem store_apply (offset : Nat) (bytes : List UInt8) (i : Nat) :
    store m offset bytes i = if offset ≤ i ∧ i < offset + bytes.length then bytes.getD (i - offset) 0 else m i := by
  by_cases inside : offset ≤ i ∧ i < offset + bytes.length
  · obtain ⟨k, rfl⟩ := Nat.exists_eq_add_of_le inside.1
    have short : k < bytes.length := by omega
    have read := slice_store m offset bytes
    have byte : (slice (store m offset bytes) offset bytes.length).getD k 0 = bytes.getD k 0 := by rw [read]
    rw [slice_eq_map, List.getD_eq_getElem _ _ (by simpa using short), List.getElem_map, List.getElem_range] at byte
    rw [if_pos inside, byte, Nat.add_sub_cancel_left]
  · rw [if_neg inside]
    exact store_outside m offset bytes i (by omega)

theorem slice_store_byte (offset length i : Nat) (f : UInt8 → UInt8) :
    slice (store m (offset + i) [f (m (offset + i))]) offset length = (slice m offset length).modify i f := by
  rw [slice_eq_map, slice_eq_map]
  apply List.ext_getElem
  · rw [List.length_map, List.length_modify, List.length_map]
  · intro j _ _
    rw [List.getElem_map, List.getElem_range, List.getElem_modify, List.getElem_map, List.getElem_range, store_apply]
    by_cases same : i = j
    · subst same
      simp
    · have outside : ¬(offset + i ≤ offset + j ∧ offset + j < offset + i + [f (m (offset + i))].length) := by
        rw [List.length_singleton]
        omega
      rw [if_neg outside, if_neg same]

theorem store_slice (offset length : Nat) : store m offset (slice m offset length) = m := by
  funext i
  rw [store_apply, length_slice]
  by_cases inside : offset ≤ i ∧ i < offset + length
  · rw [if_pos inside, slice_eq_map, List.getD_eq_getElem _ _ (by rw [List.length_map, List.length_range]; omega),
      List.getElem_map, List.getElem_range, Nat.add_sub_cancel' inside.1]
  · rw [if_neg inside]

theorem store_middle (offset before after : Nat) (bytes : List UInt8) :
    store m offset (slice m offset before ++ (bytes ++ slice m (offset + before + bytes.length) after)) =
      store m (offset + before) bytes := by
  have tail : slice (store m (offset + before) bytes) (offset + before + bytes.length) after =
      slice m (offset + before + bytes.length) after := slice_store_outside _ _ _ _ _ (Or.inr le_rfl)
  rw [store_append, store_slice, length_slice, store_append, ← tail, store_slice]

theorem foldl_store (offset width count : Nat) (word : Nat → List UInt8) (wide : ∀ i < count, (word i).length = width) :
    (List.range count).foldl (fun m i => store m (offset + width * i) (word i)) m =
      store m offset ((List.range count).flatMap word) := by
  induction count with
  | zero => rfl
  | succ count ih =>
    have written : ((List.range count).flatMap word).length = width * count := by
      rw [List.length_flatMap, List.map_congr_left (fun i member => wide i (by have := List.mem_range.mp member; omega)),
        List.map_const', List.length_range, List.sum_replicate_nat, Nat.mul_comm]
    rw [List.range_succ, List.foldl_append, ih (fun i below => wide i (by omega)), List.flatMap_append, store_append,
      written]
    simp

end BelProject.Library.Memory
