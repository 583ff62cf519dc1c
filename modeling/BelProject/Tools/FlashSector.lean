import BelProject.Tools.Flash
import Mathlib.Data.Nat.Log

/-! The detection of the sector size: zeros at the powers of two of a large aligned block, an erase
at its start, and the first zero that is still there. -/

namespace BelProject.Tools.FlashSector
open Flash Library.Memory

def maxSectorSize : ℕ := 4194304

/-- `& ~(size-1)` with a power of two. -/
def alignDown (x size : ℕ) : ℕ := x / size * size

section
variable (j : Job)

/-- `end`, which an empty range puts before its start. -/
def last : ℕ := (j.address + j.firmwareLength + 2 ^ 64 - 1) % 2 ^ 64

def middle : ℕ := j.address + j.firmwareLength / 2

def largest : ℕ → ℕ → ℕ → ℕ
  | 0, sectorSize, _ => sectorSize
  | fuel + 1, sectorSize, target =>
    if j.address ≤ target ∧ target + sectorSize - 1 ≤ last j then
      if maxSectorSize ≤ 2 * sectorSize then 2 * sectorSize
      else largest fuel (2 * sectorSize) (alignDown target (2 * sectorSize))
    else sectorSize

/-- `max_size`. The bound ends the loop long before 64 doublings. -/
def maxSize : ℕ := largest j 64 pageSize (alignDown (middle j) pageSize) / 2

def target : ℕ := alignDown (middle j) (maxSize j)

def sizes (bound : ℕ) : ℕ → ℕ → List ℕ
  | 0, _ => []
  | fuel + 1, sectorSize => if sectorSize < bound then sectorSize :: sizes bound fuel (2 * sectorSize) else []

def marks : List ℕ := (sizes (maxSize j) 64 pageSize).map (target j + ·)

def findSectorSize : ℕ → List (BitVec 64) → ℕ
  | result, [] => result
  | result, data :: rest => if data ≠ 0 then findSectorSize (2 * result) rest else result

def patterned (m : Mem) : Mem := (marks j).foldl (fun m a => pageWrite j.endian j.size m [⟨a, 0⟩]) m

/-- `detect_sector_size`, on a flash with sectors of some size. -/
def detectSectorSize (sector : ℕ) (m : Mem) : ℕ :=
  findSectorSize pageSize ((marks j).map (readWord j.endian j.size (erase sector (patterned j m) (target j))))

/-- The size is found, and the words written and the sector erased are in the range of the firmware. -/
structure Detects (sector : ℕ) (m : Mem) : Prop where
  found : detectSectorSize j sector m = sector
  written : ∀ a ∈ marks j, j.address ≤ a ∧ a + j.size ≤ j.address + j.firmwareLength
  erased : j.address ≤ alignDown (target j) sector ∧ alignDown (target j) sector + sector ≤ j.address + j.firmwareLength

def Fits (size : ℕ) : Prop :=
  j.address ≤ alignDown (middle j) size ∧ alignDown (middle j) size + size ≤ j.address + j.firmwareLength

end

variable {j : Job}

theorem alignDown_double (x size : ℕ) : alignDown (alignDown x size) (2 * size) = alignDown x (2 * size) := by
  rcases Nat.eq_zero_or_pos size with rfl | some
  · rfl
  · rw [alignDown, alignDown, alignDown, Nat.mul_comm 2 size, ← Nat.div_div_eq_div_mul, Nat.mul_div_cancel _ some,
      Nat.div_div_eq_div_mul]

section
variable (some : 0 < j.firmwareLength)
include some

theorem last_eq : last j + 1 = j.address + j.firmwareLength := by
  have inside := j.inside
  rw [last]
  omega

theorem Fits.of_test {size : ℕ} (positive : 0 < size)
    (test : j.address ≤ alignDown (middle j) size ∧ alignDown (middle j) size + size - 1 ≤ last j) : Fits j size := by
  have last := last_eq some
  exact ⟨test.1, by omega⟩

theorem Fits.test {size : ℕ} (fits : Fits j size) :
    j.address ≤ alignDown (middle j) size ∧ alignDown (middle j) size + size - 1 ≤ last j := by
  have last := last_eq some
  exact ⟨fits.1, by have := fits.2; omega⟩

theorem largest_fits (fuel k : ℕ)
    (before : Fits j (pageSize * 2 ^ k) ∧ 0 < fuel ∨ ∃ i, k = i + 1 ∧ Fits j (pageSize * 2 ^ i)) :
    ∃ i, largest j fuel (pageSize * 2 ^ k) (alignDown (middle j) (pageSize * 2 ^ k)) =
      2 * (pageSize * 2 ^ i) ∧ Fits j (pageSize * 2 ^ i) := by
  have double : ∀ i, pageSize * 2 ^ (i + 1) = 2 * (pageSize * 2 ^ i) := fun i => by rw [pow_succ]; ring
  have positive : 0 < pageSize * 2 ^ k := Nat.mul_pos (by decide) (Nat.two_pow_pos k)
  induction fuel generalizing k with
  | zero =>
    rcases before with ⟨_, none⟩ | ⟨i, rfl, fits⟩
    · exact absurd none (Nat.lt_irrefl 0)
    · exact ⟨i, double i, fits⟩
  | succ fuel ih =>
    rw [largest]
    by_cases test : j.address ≤ alignDown (middle j) (pageSize * 2 ^ k) ∧
        alignDown (middle j) (pageSize * 2 ^ k) + pageSize * 2 ^ k - 1 ≤ last j
    · have fits := Fits.of_test some positive test
      rw [if_pos test, alignDown_double, ← double]
      by_cases large : maxSectorSize ≤ pageSize * 2 ^ (k + 1)
      · rw [if_pos large]
        exact ⟨k, double k, fits⟩
      · rw [if_neg large]
        exact ih (k + 1) (Or.inr ⟨k, rfl, fits⟩) (Nat.mul_pos (by decide) (Nat.two_pow_pos _))
    · rw [if_neg test]
      rcases before with ⟨fits, _⟩ | ⟨i, rfl, fits⟩
      · exact absurd (fits.test some) test
      · exact ⟨i, double i, fits⟩

theorem fits_page : Fits j (pageSize * 2 ^ 0) := by
  obtain ⟨a, start⟩ := j.aligned
  obtain ⟨n, length⟩ := j.pages
  rw [pageSize] at start length
  rw [Fits, alignDown, middle, pow_zero, Nat.mul_one, pageSize, start, length]
  omega

theorem maxSize_eq : ∃ k, maxSize j = pageSize * 2 ^ k ∧ Fits j (pageSize * 2 ^ k) := by
  obtain ⟨k, twice, fits⟩ := largest_fits some 64 0 (Or.inl ⟨fits_page some, by decide⟩)
  rw [pow_zero, Nat.mul_one] at twice
  refine ⟨k, ?_, fits⟩
  rw [maxSize, twice]
  omega

end

theorem maxSize_empty (none : j.firmwareLength = 0) (start : j.address ≠ 0) : maxSize j < pageSize := by
  have whole : alignDown (middle j) pageSize = j.address := by
    rw [middle, none, Nat.zero_div, Nat.add_zero]
    exact Nat.div_mul_cancel j.aligned
  have inside := j.inside
  have before : ¬ (j.address ≤ j.address ∧ j.address + pageSize - 1 ≤ last j) := by
    rw [last, none, pageSize]
    omega
  rw [maxSize, whole, largest, if_neg before]
  decide

theorem sizes_eq {k : ℕ} (fuel i : ℕ) (enough : k ≤ i + fuel) :
    sizes (pageSize * 2 ^ k) fuel (pageSize * 2 ^ i) = (List.range (k - i)).map fun n => pageSize * 2 ^ (i + n) := by
  induction fuel generalizing i with
  | zero =>
    rw [show k - i = 0 by omega]
    rfl
  | succ fuel ih =>
    have double : 2 * (pageSize * 2 ^ i) = pageSize * 2 ^ (i + 1) := by rw [pow_succ]; ring
    rw [sizes, double]
    by_cases more : i < k
    · have less : pageSize * 2 ^ i < pageSize * 2 ^ k :=
        Nat.mul_lt_mul_of_pos_left (Nat.pow_lt_pow_right (by decide) more) (by decide)
      rw [if_pos less, ih (i + 1) (by omega),
        show k - i = k - (i + 1) + 1 by omega, List.range_succ_eq_map, List.map_cons, List.map_map]
      congr 1
      apply List.map_congr_left
      intro n _
      rw [Function.comp_apply, Nat.succ_eq_add_one, Nat.add_assoc, Nat.add_comm 1 n]
    · have least : ¬ pageSize * 2 ^ i < pageSize * 2 ^ k :=
        Nat.not_lt.mpr (Nat.mul_le_mul_left _ (Nat.pow_le_pow_right (by decide) (Nat.le_of_not_lt more)))
      rw [if_neg least, show k - i = 0 by omega]
      rfl

theorem marks_eq {k : ℕ} (size : maxSize j = pageSize * 2 ^ k) (fits : Fits j (pageSize * 2 ^ k)) :
    marks j = (List.range k).map fun i => target j + pageSize * 2 ^ i := by
  have few : k < 64 := by
    have bound : 2 ^ k < 2 ^ 64 := by
      calc 2 ^ k ≤ pageSize * 2 ^ k := Nat.le_mul_of_pos_left _ (by decide)
        _ ≤ j.firmwareLength := by
          have start := fits.1
          have stop := fits.2
          omega
        _ < 2 ^ 64 := j.short
    exact (Nat.pow_lt_pow_iff_right (by decide)).mp bound
  have all := sizes_eq (k := k) 64 0 (by omega)
  rw [pow_zero, Nat.mul_one] at all
  rw [marks, size, all, List.map_map]
  apply List.map_congr_left
  intro i _
  rw [Function.comp_apply, Nat.zero_add]

theorem bytesOf_zero (endian : Endian) (size : ℕ) : bytesOf endian size 0 = List.replicate size 0 := by
  have zeros : lanesOf size 0 = List.replicate size 0 := by
    rw [List.eq_replicate_iff, lanesOf, List.length_map, List.length_range]
    refine ⟨rfl, ?_⟩
    intro byte member
    obtain ⟨k, _, rfl⟩ := List.mem_map.mp member
    change UInt8.ofBitVec (BitVec.extractLsb' (8 * k) 8 0#64) = 0
    rw [BitVec.extractLsb'_zero]
    rfl
  rw [bytesOf_eq, zeros]
  cases endian with
  | big => exact List.reverse_replicate
  | little => rfl

theorem pageWrite_zero (endian : Endian) {size a : ℕ} (fits : a % pageSize + size ≤ pageSize) (m : Mem) (x : ℕ) :
    pageWrite endian size m [⟨a, 0⟩] x = if a ≤ x ∧ x < a + size then 0 else m x := by
  have zero : ∀ k, (List.replicate size (0 : UInt8)).getD k 0 = 0 := by
    intro k
    rw [List.getD_eq_getElem?_getD]
    cases found : (List.replicate size (0 : UInt8))[k]? with
    | none => rfl
    | some byte => exact List.eq_of_mem_replicate (List.mem_of_getElem? found)
  change stream m a (bytesOf endian size 0 ++ []) x = _
  rw [List.append_nil, bytesOf_zero, stream_apply m (by rw [List.length_replicate]; exact fits),
    List.length_replicate, zero,
    UInt8.and_zero]

theorem foldl_zero (endian : Endian) {size : ℕ} {words : List ℕ}
    (fits : ∀ a ∈ words, a % pageSize + size ≤ pageSize) (m : Mem) (x : ℕ) :
    words.foldl (fun m a => pageWrite endian size m [⟨a, 0⟩]) m x = if ∃ a ∈ words, a ≤ x ∧
      x < a + size then 0 else m x := by
  induction words generalizing m with
  | nil =>
    rw [if_neg]
    · rfl
    · rintro ⟨a, none, _⟩
      exact absurd none List.not_mem_nil
  | cons a words ih =>
    rw [List.foldl_cons, ih fun b later => fits b (List.mem_cons_of_mem a later),
      pageWrite_zero endian (fits a List.mem_cons_self)]
    by_cases later : ∃ b ∈ words, b ≤ x ∧ x < b + size
    · obtain ⟨b, member, inside⟩ := later
      rw [if_pos ⟨b, member, inside⟩, if_pos ⟨b, List.mem_cons_of_mem a member, inside⟩]
    · rw [if_neg later]
      apply if_congr _ rfl rfl
      constructor
      · intro inside
        exact ⟨a, List.mem_cons_self, inside⟩
      · rintro ⟨b, member, inside⟩
        rcases List.mem_cons.mp member with rfl | member
        · exact inside
        · exact absurd ⟨b, member, inside⟩ later

theorem findSectorSize_append {erased : List (BitVec 64)} (all : ∀ data ∈ erased, data ≠ 0) (result : ℕ)
    {rest : List (BitVec 64)}
    (marked : rest.head?.getD 0 = 0) : findSectorSize result (erased ++ rest) = result * 2 ^ erased.length := by
  induction erased generalizing result with
  | nil =>
    rw [List.nil_append, List.length_nil, pow_zero, Nat.mul_one]
    cases rest with
    | nil => rfl
    | cons data rest =>
      have zero : ¬ data ≠ 0 := not_not.mpr marked
      rw [findSectorSize, if_neg zero]
  | cons data erased ih =>
    rw [List.cons_append, findSectorSize, if_pos (all data List.mem_cons_self),
      ih fun other later => all other (List.mem_cons_of_mem data later), List.length_cons, pow_succ]
    ring

theorem target_aligned {k s : ℕ} (size : maxSize j = pageSize * 2 ^ k) (less : s ≤ k) :
    pageSize * 2 ^ s ∣ target j := by
  have wide : pageSize * 2 ^ s ∣ maxSize j := by
    rw [size]
    exact Nat.mul_dvd_mul_left _ (Nat.pow_dvd_pow 2 less)
  exact wide.trans (Nat.dvd_mul_left _ _)

theorem marks_written {k : ℕ} (size : maxSize j = pageSize * 2 ^ k) (fits : Fits j (pageSize * 2 ^ k))
    {a : ℕ} (member : a ∈ marks j) :
    j.address ≤ a ∧ a + j.size ≤ j.address + j.firmwareLength := by
  rw [marks_eq size fits, List.mem_map] at member
  obtain ⟨i, inside, rfl⟩ := member
  rw [List.mem_range] at inside
  obtain ⟨start, stop⟩ := fits
  have here : target j = alignDown (middle j) (pageSize * 2 ^ k) := by rw [target, size]
  rw [← here] at start stop
  refine ⟨Nat.le_add_right_of_le start, ?_⟩
  calc target j + pageSize * 2 ^ i + j.size ≤ target j + pageSize * 2 ^ i + pageSize * 2 ^ i :=
        Nat.add_le_add_left ((size_le j).trans (Nat.le_mul_of_pos_right _ (Nat.two_pow_pos i))) _
    _ = target j + pageSize * 2 ^ (i + 1) := by rw [pow_succ]; ring
    _ ≤ target j + pageSize * 2 ^ k :=
      Nat.add_le_add_left (Nat.mul_le_mul_left _ (Nat.pow_le_pow_right (by decide) inside)) _
    _ ≤ j.address + j.firmwareLength := stop

theorem readWord_mark {k s i : ℕ} (size : maxSize j = pageSize * 2 ^ k)
    (fits : Fits j (pageSize * 2 ^ k)) (sector : s ≤ k) (inside : i < k)
    (m : Mem) : readWord j.endian j.size (erase (pageSize * 2 ^ s) (patterned j m) (target j))
    (target j + pageSize * 2 ^ i) =
      if i < s then ffs j.size else 0 := by
  have some : 0 < pageSize * 2 ^ s := Nat.mul_pos (by decide) (Nat.two_pow_pos s)
  obtain ⟨n, start⟩ := target_aligned size sector
  have erased : ∀ x, target j ≤ x → (x / (pageSize * 2 ^ s) = target j / (pageSize * 2 ^ s) ↔
    x < target j + pageSize * 2 ^ s) := by
    intro x after
    rw [start, Nat.mul_div_cancel_left _ some] at *
    rw [Nat.div_eq_iff some]
    constructor
    · intro same
      have last := same.2
      rw [Nat.mul_comm n] at last
      omega
    · intro less
      rw [Nat.mul_comm n]
      omega
  have word := size_le j
  have page : pageSize ≤ pageSize * 2 ^ i := Nat.le_mul_of_pos_right _ (Nat.two_pow_pos i)
  by_cases before : i < s
  · have short : pageSize * 2 ^ i + pageSize * 2 ^ i ≤ pageSize * 2 ^ s := by
      calc pageSize * 2 ^ i + pageSize * 2 ^ i = pageSize * 2 ^ (i + 1) := by rw [pow_succ]; ring
        _ ≤ pageSize * 2 ^ s := Nat.mul_le_mul_left _ (Nat.pow_le_pow_right (by decide) before)
    have gone : ∀ x, target j + pageSize * 2 ^ i ≤ x → x < target j + pageSize * 2 ^ i + j.size →
        erase (pageSize * 2 ^ s) (patterned j m) (target j) x = 0xFF := by
      intro x after less
      rw [erase, if_pos ((erased x (by omega)).mpr (by omega))]
    rw [if_pos before, readWord, slice_const gone, assemble_ffs j.endian j.sized]
  · have behind : pageSize * 2 ^ s ≤ pageSize * 2 ^ i :=
      Nat.mul_le_mul_left _ (Nat.pow_le_pow_right (by decide) (Nat.le_of_not_lt before))
    have aligned : ∀ a ∈ marks j, a % pageSize + j.size ≤ pageSize := by
      intro a member
      rw [marks_eq size fits, List.mem_map] at member
      obtain ⟨l, _, rfl⟩ := member
      have dvd : pageSize ∣ target j + pageSize * 2 ^ l :=
        Nat.dvd_add ((Nat.dvd_mul_right _ _).trans (target_aligned size sector)) (Nat.dvd_mul_right _ _)
      rw [Nat.mod_eq_zero_of_dvd dvd, Nat.zero_add]
      exact word
    have zeros : assemble j.endian (List.replicate j.size 0) = 0 := by
      rcases j.sized with same | same | same | same
      all_goals rw [same]; cases j.endian <;> decide
    have there : ∀ x, target j + pageSize * 2 ^ i ≤ x → x < target j + pageSize * 2 ^ i + j.size →
        erase (pageSize * 2 ^ s) (patterned j m) (target j) x = 0 := by
      intro x after less
      rw [erase, if_neg (mt (erased x (by omega)).mp (by omega)), patterned, foldl_zero j.endian aligned, if_pos]
      refine ⟨target j + pageSize * 2 ^ i, ?_, after, less⟩
      rw [marks_eq size fits]
      exact List.mem_map.mpr ⟨i, List.mem_range.mpr inside, rfl⟩
    rw [if_neg before, readWord, slice_const there, zeros]

theorem detects_size {k s : ℕ} (size : maxSize j = pageSize * 2 ^ k) (fits : Fits j (pageSize * 2 ^ k))
    (sector : s ≤ k) (m : Mem) :
    Detects j (pageSize * 2 ^ s) m := by
  have blank : ffs j.size ≠ 0 := by
    rcases j.sized with same | same | same | same
    all_goals rw [same]; decide
  refine ⟨?_, fun a member => marks_written size fits member, ?_⟩
  · have words : (marks j).map (readWord j.endian j.size (erase (pageSize * 2 ^ s) (patterned j m) (target j))) =
        List.replicate s (ffs j.size) ++ List.replicate (k - s) 0 := by
      rw [marks_eq size fits, List.map_map]
      apply List.ext_getElem
      · rw [List.length_map, List.length_range, List.length_append, List.length_replicate, List.length_replicate]
        omega
      · intro i inside _
        rw [List.length_map, List.length_range] at inside
        rw [List.getElem_map, List.getElem_range, Function.comp_apply, readWord_mark size fits sector inside]
        by_cases before : i < s
        · rw [if_pos before, List.getElem_append_left (by rw [List.length_replicate]; exact before),
            List.getElem_replicate]
        · rw [if_neg before, List.getElem_append_right (by rw [List.length_replicate]; omega), List.getElem_replicate]
    have marked : (List.replicate (k - s) (0 : BitVec 64)).head?.getD 0 = 0 := by
      cases k - s with
      | zero => rfl
      | succ n => rfl
    rw [detectSectorSize, words, findSectorSize_append
      (fun data member => by rw [List.eq_of_mem_replicate member]; exact blank) _ marked,
      List.length_replicate]
  · have whole : alignDown (target j) (pageSize * 2 ^ s) = target j := Nat.div_mul_cancel (target_aligned size sector)
    have here : target j = alignDown (middle j) (pageSize * 2 ^ k) := by rw [target, size]
    obtain ⟨start, stop⟩ := fits
    have less : pageSize * 2 ^ s ≤ pageSize * 2 ^ k := Nat.mul_le_mul_left _ (Nat.pow_le_pow_right (by decide) sector)
    rw [whole, here]
    exact ⟨start, by omega⟩

theorem sector_eq {k sector : ℕ} (power : ∃ e, sector = 2 ^ e) (least : pageSize ≤ sector)
    (most : sector ≤ pageSize * 2 ^ k) :
    ∃ s ≤ k, sector = pageSize * 2 ^ s := by
  obtain ⟨e, rfl⟩ := power
  have page : pageSize = 2 ^ 8 := rfl
  rw [page, ← pow_add] at most
  rw [page] at least
  have low : 8 ≤ e := (Nat.pow_le_pow_iff_right (by decide)).mp least
  have high : e ≤ 8 + k := (Nat.pow_le_pow_iff_right (by decide)).mp most
  refine ⟨e - 8, by omega, ?_⟩
  rw [page, ← pow_add]
  congr 1
  omega

/-- Whatever was in the flash, each size that the block allows is found in the range of the
firmware, unless that is the empty one at address zero. -/
theorem detects_iff (j : Job) (sector : ℕ) (power : ∃ e, sector = 2 ^ e) (least : pageSize ≤ sector)
    (most : sector ≤ maxSize j) (m : Mem) :
    Detects j sector m ↔ ¬ (j.address = 0 ∧ j.firmwareLength = 0) := by
  constructor
  · rintro detects ⟨start, none⟩
    have stop := detects.erased.2
    rw [start, none] at stop
    rw [pageSize] at least
    omega
  · intro some
    rcases Nat.eq_zero_or_pos j.firmwareLength with none | positive
    · have small := maxSize_empty none fun start => some ⟨start, none⟩
      exact absurd (least.trans most) (Nat.not_le.mpr small)
    · obtain ⟨k, size, fits⟩ := maxSize_eq positive
      rw [size] at most
      obtain ⟨s, less, rfl⟩ := sector_eq power least most
      exact detects_size size fits less m

theorem detects_iff_quarter : Detects quarter 0x10000 (fun _ => 0x5A) ↔
    ¬ (quarter.address = 0 ∧ quarter.firmwareLength = 0) :=
  detects_iff quarter 0x10000 ⟨16, rfl⟩ (by decide) (by decide +kernel) (fun _ => 0x5A)

def empty : Job :=
  { quarter with
    address := 0, firmwareLength := 0, aligned := by decide, pages := by decide, inside := by decide, short := by decide }

/-- Its end is the last address of all, and the pattern is written and a sector erased. -/
theorem empty_erases : 0x10000 ≤ maxSize empty ∧ marks empty ≠ [] ∧ ¬ Detects empty 0x10000 (fun _ => 0xFF) := by
  refine ⟨by decide +kernel, by decide +kernel, fun detects => ?_⟩
  have stop := detects.erased.2
  exact absurd (Nat.le_of_add_left_le stop) (by decide)

end BelProject.Tools.FlashSector
