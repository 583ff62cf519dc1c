import Mathlib.Logic.Function.Basic
import Mathlib.Data.BitVec
import Mathlib.Data.Nat.ModEq
import Mathlib.Data.List.Basic
import Mathlib.Tactic.SplitIfs

/-! A queue laid out in a ring of cells. The cells are numbered without end and wrap by the
size of the ring, so a queue may cross the end of the memory; cells outside of the queue
hold anything. -/

namespace BelProject.Library.Ring

variable {α : Type}

/-- The cells from `start` on hold the queue, front first. -/
def Holds (ram : Nat → α) (size : Nat) : Nat → List α → Prop
  | _, [] => True
  | start, value :: queue => ram (start % size) = value ∧ Holds ram size (start + 1) queue

variable {queue : List α} {ram : Nat → α} {size start : Nat}

theorem Holds.front {value : α} (holds : Holds ram size start (value :: queue)) : ram (start % size) = value := holds.1

theorem Holds.pop {value : α}
    (holds : Holds ram size start (value :: queue)) : Holds ram size (start + 1) queue := holds.2

theorem Holds.drop (count : Nat) (holds : Holds ram size start queue) :
    Holds ram size (start + count) (queue.drop count) := by
  induction count generalizing start queue with
  | zero => exact holds
  | succ count ih =>
    cases queue with
    | nil => trivial
    | cons value queue =>
      have rest := ih holds.pop
      rw [Nat.add_right_comm] at rest
      exact rest

theorem Holds.take (count : Nat) (holds : Holds ram size start queue) :
    Holds ram size start (queue.take count) := by
  induction count generalizing start queue with
  | zero => trivial
  | succ count ih =>
    cases queue with
    | nil => trivial
    | cons value queue => exact ⟨holds.front, ih holds.pop⟩

theorem Holds.congr {size start start' : Nat} (same : start ≡ start' [MOD size])
    (holds : Holds ram size start queue) : Holds ram size start' queue := by
  induction queue generalizing start start' with
  | nil => trivial
  | cons value queue ih =>
    refine ⟨?_, ih (same.add_right 1) holds.2⟩
    rw [← holds.1, same]

theorem Holds.push (value : α) (room : queue.length < size) (holds : Holds ram size start queue) :
    Holds (Function.update ram ((start + queue.length) % size) value) size start (queue ++ [value]) := by
  induction queue generalizing start with
  | nil => exact ⟨Function.update_self _ _ _, trivial⟩
  | cons first queue ih =>
    rw [List.length_cons] at room
    have apart : start % size ≠ (start + (queue.length + 1)) % size := by
      intro same
      have divides : size ∣ start + (queue.length + 1) - start := (Nat.modEq_iff_dvd' (Nat.le_add_right _ _)).mp same
      rw [Nat.add_sub_cancel_left] at divides
      exact absurd (Nat.le_of_dvd (Nat.succ_pos _) divides) (by omega)
    have moved : start + (queue.length + 1) = start + 1 + queue.length := by omega
    refine ⟨?_, ?_⟩
    · rw [List.length_cons, Function.update_of_ne apart, holds.1]
    · rw [List.length_cons, moved]
      exact ih (by omega) holds.2

theorem holds_iff :
    Holds ram size start queue ↔ ∀ k (inside : k < queue.length), ram ((start + k) % size) = queue[k] := by
  induction queue generalizing start with
  | nil => exact ⟨fun _ _ inside => absurd inside (Nat.not_lt_zero _), fun _ => trivial⟩
  | cons first queue ih =>
    constructor
    · intro holds k inside
      cases k with
      | zero => exact holds.1
      | succ k =>
        have rest := ih.mp holds.2 k (Nat.lt_of_succ_lt_succ inside)
        rw [Nat.add_right_comm] at rest
        exact rest
    · intro cells
      refine ⟨cells 0 (Nat.succ_pos _), ih.mpr fun k inside => ?_⟩
      have rest := cells (k + 1) (Nat.succ_lt_succ inside)
      rw [Nat.add_right_comm]
      exact rest

theorem Holds.concat (holds : Holds ram size start queue) :
    Holds ram size start (queue ++ [ram ((start + queue.length) % size)]) := by
  rw [holds_iff] at holds ⊢
  intro k inside
  rw [List.length_append, List.length_singleton] at inside
  rcases Nat.lt_or_ge k queue.length with before | last
  · rw [List.getElem_append_left before, holds k before]
  · have here : k = queue.length := by omega
    subst here
    rw [List.getElem_concat_length rfl]

theorem cell_inj {size start a b : Nat} (small : a < size) (small' : b < size)
    (same : (start + a) % size = (start + b) % size) :
    a = b := by
  have cancelled : a ≡ b [MOD size] := Nat.ModEq.add_left_cancel' start same
  rw [Nat.ModEq, Nat.mod_eq_of_lt small, Nat.mod_eq_of_lt small'] at cancelled
  exact cancelled

theorem Holds.set {size start cell : Nat} (value : α) (inside : cell < queue.length)
    (fits : queue.length ≤ size) (holds : Holds ram size start queue) :
    Holds (Function.update ram ((start + cell) % size) value) size start (queue.set cell value) := by
  rw [holds_iff] at holds ⊢
  intro k within
  rw [List.length_set] at within
  rw [List.getElem_set]
  split_ifs with here
  · rw [here, Function.update_self]
  · rw [Function.update_of_ne, holds k within]
    intro same
    exact here (cell_inj (by omega) (by omega) same).symm

theorem pointer_inj {w a b : Nat} (idx : BitVec w) (small : a < 2 ^ w) (small' : b < 2 ^ w) :
    idx + BitVec.ofNat w a = idx + BitVec.ofNat w b ↔ a = b := by
  rw [BitVec.add_right_inj, ← BitVec.toNat_inj, BitVec.toNat_ofNat, BitVec.toNat_ofNat, Nat.mod_eq_of_lt small,
    Nat.mod_eq_of_lt small']

theorem xor_high {d : Nat} (idx : BitVec (d + 1)) :
    idx ^^^ BitVec.twoPow (d + 1) d = idx + BitVec.twoPow (d + 1) d := by
  have small := idx.isLt
  have positive := Nat.two_pow_pos d
  apply BitVec.eq_of_toNat_eq
  rw [BitVec.toNat_xor, BitVec.toNat_add, BitVec.toNat_twoPow,
    Nat.mod_eq_of_lt (Nat.pow_lt_pow_right Nat.one_lt_two (Nat.lt_succ_self d))]
  rw [Nat.pow_succ] at small ⊢
  have low : (idx.toNat ^^^ 2 ^ d) % 2 ^ d = idx.toNat % 2 ^ d := by
    rw [Nat.xor_mod_two_pow, Nat.mod_self, Nat.xor_zero]
  have high : (idx.toNat ^^^ 2 ^ d) / 2 ^ d = idx.toNat / 2 ^ d ^^^ 1 := by
    rw [Nat.xor_div_two_pow, Nat.div_self positive]
  have whole := Nat.div_add_mod (idx.toNat ^^^ 2 ^ d) (2 ^ d)
  rw [low, high] at whole
  have parts := Nat.div_add_mod idx.toNat (2 ^ d)
  have bit : idx.toNat / 2 ^ d < 2 := Nat.div_lt_of_lt_mul small
  rcases Nat.lt_or_ge idx.toNat (2 ^ d) with below | above
  · rw [Nat.div_eq_of_lt below] at whole parts
    rw [Nat.mod_eq_of_lt (by omega : idx.toNat + 2 ^ d < 2 ^ d * 2)]
    simp only [Nat.zero_xor] at whole
    omega
  · have one : idx.toNat / 2 ^ d = 1 := by
      have least := (Nat.one_le_div_iff positive).mpr above
      omega
    rw [one] at whole parts
    rw [show idx.toNat + 2 ^ d = idx.toNat - 2 ^ d + 2 ^ d * 2 by omega, Nat.add_mod_right, Nat.mod_eq_of_lt (by omega)]
    simp only [Nat.xor_self] at whole
    omega

theorem pointer_full {d n : Nat} (idx : BitVec (d + 1)) (fits : n ≤ 2 ^ d) :
    (idx + BitVec.ofNat (d + 1) n) ^^^ BitVec.twoPow (d + 1) d = idx ↔ n = 2 ^ d := by
  have positive := Nat.two_pow_pos d
  have half : BitVec.twoPow (d + 1) d = BitVec.ofNat (d + 1) (2 ^ d) := by
    apply BitVec.eq_of_toNat_eq
    rw [BitVec.toNat_twoPow, BitVec.toNat_ofNat]
  rw [xor_high, half, BitVec.add_assoc, ← BitVec.ofNat_add]
  constructor
  · intro same
    by_contra other
    have apart := pointer_inj (a := n + 2 ^ d) (b := 0) idx (by rw [Nat.pow_succ]; omega) (Nat.two_pow_pos _)
    rw [BitVec.add_zero] at apart
    exact absurd (apart.mp same) (by omega)
  · rintro rfl
    rw [← Nat.two_mul, Nat.mul_comm, ← Nat.pow_succ]
    have turn : BitVec.ofNat (d + 1) (2 ^ (d + 1)) = 0#(d + 1) := by
      apply BitVec.eq_of_toNat_eq
      rw [BitVec.toNat_ofNat, Nat.mod_self]
      rfl
    rw [turn, BitVec.add_zero]

theorem pointer_mod {d : Nat} (idx : BitVec (d + 1)) (n : Nat) :
    (idx + BitVec.ofNat (d + 1) n).toNat ≡ idx.toNat + n [MOD 2 ^ d] := by
  rw [BitVec.toNat_add, BitVec.toNat_ofNat, Nat.add_mod_mod]
  exact (Nat.mod_modEq _ _).of_dvd (Nat.pow_dvd_pow 2 (Nat.le_succ d))

theorem drop_popped {popped committed : List α} {word : α} (before : popped <+: committed)
    (next : (committed.drop popped.length).head? = some word) :
    popped ++ [word] <+: committed ∧ committed.drop (popped ++ [word]).length =
      (committed.drop popped.length).drop 1 := by
  obtain ⟨rest, rfl⟩ := before
  rw [List.drop_left] at next ⊢
  cases rest with
  | nil => cases next
  | cons first rest =>
    obtain rfl := Option.some.inj next
    refine ⟨⟨rest, by rw [List.append_assoc]; rfl⟩, ?_⟩
    rw [List.length_append, List.length_singleton, List.drop_append, List.drop_of_length_le (Nat.le_succ _),
      Nat.add_sub_cancel_left, List.nil_append]

end BelProject.Library.Ring
