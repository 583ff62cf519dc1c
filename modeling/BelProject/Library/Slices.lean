import Mathlib.Data.List.Basic
import Mathlib.Tactic.SplitIfs

/-! A word as slices of one width, the most significant first. -/

namespace BelProject.Library.Slices

variable {n : Nat} (ratio width : Nat)

def slice (x : BitVec n) (k : Nat) : BitVec width := x.extractLsb' (k * width) width

def slices (x : BitVec n) : List (BitVec width) := (List.range ratio).reverse.map (slice width x)

/-- The word with one slice replaced. -/
def setSlice (x : BitVec n) (k : Nat) (piece : BitVec width) : BitVec n :=
  x &&& ~~~(((BitVec.allOnes width).setWidth n) <<< (k * width)) ||| (piece.setWidth n) <<< (k * width)

variable {ratio width}

variable (x : BitVec n)

@[simp] theorem length_slices : (slices ratio width x).length = ratio := by
  rw [slices, List.length_map, List.length_reverse, List.length_range]

theorem getElem_slices {j : Nat} (inside : j < (slices ratio width x).length) :
    (slices ratio width x)[j] = slice width x (ratio - 1 - j) := by
  simp only [slices, List.getElem_map, List.getElem_reverse, List.length_range, List.getElem_range]

theorem take_slices_succ {j : Nat} (inside : j < ratio) :
    (slices ratio width x).take (j + 1) = (slices ratio width x).take j ++ [slice width x (ratio - 1 - j)] := by
  rw [List.take_add_one, List.getElem?_eq_getElem (by rw [length_slices]; exact inside), getElem_slices]
  rfl

theorem take_slices_all : (slices ratio width x).take ratio = slices ratio width x :=
  List.take_of_length_le (Nat.le_of_eq (length_slices x))

theorem take_slices_congr {m : Nat} {x : BitVec n} {y : BitVec m} {j : Nat}
    (same : ∀ k < ratio, ratio - j ≤ k → slice width x k = slice width y k) :
    (slices ratio width x).take j = (slices ratio width y).take j := by
  apply List.ext_getElem
  · rw [List.length_take, List.length_take, length_slices, length_slices]
  · intro i first second
    rw [List.length_take, length_slices] at first
    rw [List.getElem_take, List.getElem_take, getElem_slices, getElem_slices]
    exact same _ (by omega) (by omega)

theorem slice_le {k : Nat} (inside : k < ratio) : k * width + width ≤ ratio * width := by
  rw [← Nat.succ_mul]
  exact Nat.mul_le_mul_right width inside

theorem slice_setWidth {k : Nat} (inside : k < ratio) :
    slice width (x.setWidth (ratio * width)) k = slice width x k := by
  have le : k * width + width ≤ ratio * width := slice_le inside
  apply BitVec.eq_of_getLsbD_eq
  intro i small
  rw [slice, slice, BitVec.getLsbD_extractLsb', BitVec.getLsbD_extractLsb', BitVec.getLsbD_setWidth,
    decide_eq_true (show k * width + i < ratio * width by omega), Bool.true_and]

theorem slices_setWidth : slices ratio width (x.setWidth (ratio * width)) = slices ratio width x := by
  rw [← take_slices_all, ← take_slices_all x]
  exact take_slices_congr fun k inside _ => slice_setWidth x inside

theorem slice_congr {m : Nat} {x : BitVec n} {y : BitVec m}
    (same : slices ratio width x = slices ratio width y) {k : Nat}
    (inside : k < ratio) : slice width x k = slice width y k := by
  have there : ratio - 1 - k < ratio := by omega
  have place : ratio - 1 - (ratio - 1 - k) = k := by omega
  have first : (slices ratio width x)[ratio - 1 - k]? = some (slice width x k) := by
    rw [List.getElem?_eq_getElem (by rw [length_slices]; exact there), getElem_slices, place]
  have second : (slices ratio width y)[ratio - 1 - k]? = some (slice width y k) := by
    rw [List.getElem?_eq_getElem (by rw [length_slices]; exact there), getElem_slices, place]
  rw [same, second] at first
  exact (Option.some.inj first).symm

theorem slices_injective : Function.Injective (slices ratio width : BitVec (ratio * width) → List (BitVec width)) := by
  intro x y same
  apply BitVec.eq_of_getLsbD_eq
  intro i small
  have positive : 0 < width := by
    rcases Nat.eq_zero_or_pos width with none | positive
    · rw [none, Nat.mul_zero] at small
      exact absurd small (Nat.not_lt_zero i)
    · exact positive
  have inside : i / width < ratio := Nat.div_lt_of_lt_mul (by rw [Nat.mul_comm]; exact small)
  have piece := slice_congr same inside
  have bit := congrArg (fun p => p.getLsbD (i % width)) piece
  have split : i / width * width + i % width = i := Nat.div_add_mod' i width
  simp only [slice, BitVec.getLsbD_extractLsb', split] at bit
  rwa [decide_eq_true (Nat.mod_lt i positive), Bool.true_and, Bool.true_and] at bit

theorem getLsbD_setSlice (k : Nat) (piece : BitVec width) {i : Nat} (inside : i < n) :
    (setSlice width x k piece).getLsbD i =
      if k * width ≤ i ∧ i < k * width + width then piece.getLsbD (i - k * width) else x.getLsbD i := by
  rw [setSlice, BitVec.getLsbD_or, BitVec.getLsbD_and, BitVec.getLsbD_not, BitVec.getLsbD_shiftLeft,
    BitVec.getLsbD_shiftLeft,
    BitVec.getLsbD_setWidth, BitVec.getLsbD_setWidth, BitVec.getLsbD_allOnes, decide_eq_true inside]
  by_cases low : i < k * width
  · rw [if_neg (by omega), decide_eq_true low]
    simp
  · have below : i - k * width < n := by omega
    rw [decide_eq_false low, decide_eq_true below]
    by_cases high : i - k * width < width
    · rw [if_pos (by omega), decide_eq_true high]
      simp
    · rw [if_neg (by omega), decide_eq_false high, BitVec.getLsbD_of_ge piece _ (by omega)]
      simp

theorem slice_setSlice_self {k : Nat} (piece : BitVec width) (fits : k * width + width ≤ n) :
    slice width (setSlice width x k piece) k = piece := by
  apply BitVec.eq_of_getLsbD_eq
  intro i small
  have back : k * width + i - k * width = i := by omega
  rw [slice, BitVec.getLsbD_extractLsb', decide_eq_true small, Bool.true_and, getLsbD_setSlice x k piece (by omega),
    if_pos (by omega), back]

theorem slice_setSlice_of_lt {k j : Nat} (piece : BitVec width) (above : k < j) (fits : j * width + width ≤ n) :
    slice width (setSlice width x k piece) j = slice width x j := by
  have apart : k * width + width ≤ j * width := slice_le above
  apply BitVec.eq_of_getLsbD_eq
  intro i small
  rw [slice, slice, BitVec.getLsbD_extractLsb', BitVec.getLsbD_extractLsb', decide_eq_true small,
    Bool.true_and, Bool.true_and,
    getLsbD_setSlice x k piece (by omega), if_neg (by omega)]

end BelProject.Library.Slices
