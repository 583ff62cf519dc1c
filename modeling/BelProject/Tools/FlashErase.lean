import BelProject.Tools.FlashScan

/-! `erase_flash` behind a scan. It takes the sectors from the first one that the range touches, and
their bits by their number from there on, while the scan has set them by the distance from the
address. -/

namespace BelProject.Tools.FlashErase
open Flash FlashScan Library.Memory

section
variable (c : Setup)

/-- One turn of `erase_flash`, with the indices it has used. -/
def eraseStep (bitmap : Bitmap) (e : Mem × List ℤ) (k : ℕ) : Mem × List ℤ :=
  (if bitmaskGet bitmap (toInt k) then erase c.sectorSize e.1 (sector c k) else e.1,
    e.2 ++ [toInt k])

def eraseFlash (bitmap : Bitmap) : Mem × List ℤ :=
  (List.range (sectors c)).foldl (eraseStep c bitmap) (c.flash, [])

/-- The bitmap tells the sectors to erase, all indices are inside of it, and the range is erased. -/
structure Agrees : Prop where
  marked : ∀ k < sectors c, bitmaskGet (quickScan c).bitmap k = true ↔ Dirty c k
  inside : ∀ i ∈ (quickScan c).used ++ (eraseFlash c (quickScan c).bitmap).2, 0 ≤ i ∧
    i < 8 * bitmapSize c.job
  erased : ∀ i < c.job.firmwareLength, (eraseFlash c (quickScan c).bitmap).1 (c.job.address + i) =
    0xFF

end

def needed (j : Job) (sectorSize : ℕ) : ℕ := (j.firmwareLength + sectorSize - 1) / sectorSize

/-- The range begins with a sector, and there is a bit for each sector, with a number that fits an
`int`. The sectors are not the whole address space, where the loops are over before the first turn. -/
structure Fits (j : Job) (sectorSize : ℕ) : Prop where
  aligned : sectorSize ∣ j.address
  bits : (needed j sectorSize : ℤ) ≤ 8 * bitmapSize j
  numbers : needed j sectorSize ≤ 2 ^ 31
  part : needed j sectorSize * sectorSize < 2 ^ 64

variable {c : Setup}

theorem foldl_eraseStep_used (bitmap : Bitmap) (l : List ℕ) (e : Mem × List ℤ) :
    (l.foldl (eraseStep c bitmap) e).2 = e.2 ++ l.map fun k => toInt k := by
  induction l generalizing e with
  | nil => exact (List.append_nil _).symm
  | cons k l ih => rw [List.foldl_cons, ih, eraseStep, List.map_cons, List.append_assoc,
      List.singleton_append]

theorem eraseFlash_used (bitmap : Bitmap) : (eraseFlash c bitmap).2 =
    (List.range (sectors c)).map fun k => toInt k := by
  rw [eraseFlash, foldl_eraseStep_used, List.nil_append]

theorem eraseStep_blank (bitmap : Bitmap) (e : Mem × List ℤ) (k : ℕ) {x : ℕ}
    (blank : e.1 x = 0xFF ∨ bitmaskGet bitmap (toInt k) = true ∧
      x / c.sectorSize = sector c k / c.sectorSize) :
    (eraseStep c bitmap e k).1 x = 0xFF := by
  rw [eraseStep]
  dsimp only
  cases set : bitmaskGet bitmap (toInt k) with
  | true =>
    rw [if_pos rfl]
    unfold erase
    split_ifs with here
    · rfl
    · exact blank.resolve_right fun covered => here covered.2
  | false =>
    rw [set] at blank
    rw [if_neg Bool.false_ne_true]
    exact blank.resolve_right fun covered => Bool.false_ne_true covered.1

theorem foldl_eraseStep_blank (bitmap : Bitmap) {x : ℕ} (l : List ℕ) (e : Mem × List ℤ)
    (blank : e.1 x = 0xFF ∨ ∃ k ∈ l, bitmaskGet bitmap (toInt k) = true ∧
      x / c.sectorSize = sector c k / c.sectorSize) :
    (l.foldl (eraseStep c bitmap) e).1 x = 0xFF := by
  induction l generalizing e with
  | nil =>
    rcases blank with blank | ⟨k, none, _⟩
    · exact blank
    · exact absurd none List.not_mem_nil
  | cons k l ih =>
    rw [List.foldl_cons]
    apply ih
    rcases blank with blank | ⟨k', member, covered⟩
    · exact Or.inl (eraseStep_blank bitmap e k (Or.inl blank))
    · rcases List.mem_cons.mp member with rfl | member
      · exact Or.inl (eraseStep_blank bitmap e k' (Or.inr covered))
      · exact Or.inr ⟨k', member, covered⟩

theorem eraseFlash_blank (bitmap : Bitmap) {x : ℕ}
    (blank : c.flash x = 0xFF ∨ ∃ k < sectors c, bitmaskGet bitmap (toInt k) = true ∧
      x / c.sectorSize = sector c k / c.sectorSize) :
    (eraseFlash c bitmap).1 x = 0xFF := by
  rw [eraseFlash]
  apply foldl_eraseStep_blank
  rcases blank with blank | ⟨k, inside, covered⟩
  · exact Or.inl blank
  · exact Or.inr ⟨k, List.mem_range.mpr inside, covered⟩

theorem dirty_iff {a : ℕ} : dirty c a = false ↔ ∀ x, a ≤ x → x < a + c.job.size →
    c.flash x = 0xFF := by
  rw [dirty, bne_eq_false_iff_eq, readWord, assemble_slice_ffs c.job.sized]

theorem firstSector_aligned (aligned : c.sectorSize ∣ c.job.address) :
    firstSector c = c.job.address := by
  rw [firstSector]
  exact Nat.div_mul_cancel aligned

section
variable (sized : Sized c)
include sized

theorem top_aligned (aligned : c.sectorSize ∣ c.job.address) :
    top c = bottom c + needed c.job c.sectorSize := by
  obtain ⟨f, same⟩ := aligned
  have some := sized.positive
  have number : bottom c = f := by rw [bottom, same, Nat.mul_div_cancel_left _ some]
  rw [top, needed, number, same, show c.sectorSize * f + c.job.firmwareLength + c.sectorSize - 1 =
    c.sectorSize * f + (c.job.firmwareLength + c.sectorSize - 1) by omega,
    Nat.mul_add_div some]

theorem sectors_aligned (aligned : c.sectorSize ∣ c.job.address)
    (part : needed c.job c.sectorSize * c.sectorSize < 2 ^ 64) :
    sectors c = needed c.job c.sectorSize := by
  obtain ⟨half, space, _⟩ := sized.space
  rw [sized.sectors_eq space, top_aligned sized aligned, Nat.add_sub_cancel_left]
  apply Nat.mod_eq_of_lt
  rw [space] at part
  exact Nat.lt_of_mul_lt_mul_right part

section
variable (fits : Fits c.job c.sectorSize)
include fits

theorem index_sector {k r : ℕ} (turn : k < sectors c) (inside : r < c.sectorSize) :
    index c (sector c k + r) = k := by
  have count := sectors_aligned sized fits.aligned fits.part
  have below : (k + 1) * c.sectorSize ≤ needed c.job c.sectorSize * c.sectorSize := by
    rw [count] at turn
    exact Nat.mul_le_mul_right c.sectorSize turn
  have part := fits.part
  have numbers := fits.numbers
  rw [Nat.succ_mul] at below
  have distance : (sector c k + r + 2 ^ 64 - c.job.address) % 2 ^ 64 = k * c.sectorSize + r := by
    rw [sector, firstSector_aligned fits.aligned,
      show c.job.address + k * c.sectorSize + r + 2 ^ 64 - c.job.address =
        k * c.sectorSize + r + 2 ^ 64 by omega, Nat.add_mod_right]
    apply Nat.mod_eq_of_lt
    omega
  have number : (k * c.sectorSize + r) / c.sectorSize = k := by
    rw [Nat.mul_comm, Nat.mul_add_div sized.positive, Nat.div_eq_of_lt inside, Nat.add_zero]
  rw [index, distance, number]
  apply toInt_eq
  omega

theorem used_sector {i : ℤ} (used : i ∈ (quickScan c).used ++
    (eraseFlash c (quickScan c).bitmap).2) :
    ∃ k < sectors c, i = k := by
  have small : ∀ k < sectors c, toInt k = k := by
    intro k turn
    have numbers := fits.numbers
    rw [sectors_aligned sized fits.aligned fits.part] at turn
    apply toInt_eq
    omega
  rcases List.mem_append.mp used with scanned | erased
  · rcases (quickScan_covers sized).1.used i scanned with ⟨k, turn, same⟩ | ⟨a,
      ⟨k, turn, t, word, place⟩, same⟩
    · exact ⟨k, turn, same.trans (small k turn)⟩
    · have some := size_pos c.job
      have bound := sized.word_lt word
      rw [place, index_sector sized fits turn (by omega)] at same
      exact ⟨k, turn, same⟩
  · rw [eraseFlash_used, List.mem_map] at erased
    obtain ⟨k, member, same⟩ := erased
    rw [List.mem_range] at member
    exact ⟨k, member, same.symm.trans (small k member)⟩

theorem marked_iff {k : ℕ} (turn : k < sectors c) :
    bitmaskGet (quickScan c).bitmap k = true ↔ Dirty c k := by
  obtain ⟨good, covers⟩ := quickScan_covers sized
  have some := size_pos c.job
  have count := sectors_aligned sized fits.aligned fits.part
  have numbers := fits.numbers
  have bits := fits.bits
  have number : toInt k = k := toInt_eq (by omega)
  constructor
  · intro set
    rcases good.marked set with old | ⟨a, ⟨k', turn', t, word, rfl⟩, dirty, byte, bit⟩
    · have clear := start_inside (c := c) (i := k) (by omega) (by omega)
      rw [old] at clear
      exact absurd clear.symm Bool.false_ne_true
    · have bound := sized.word_lt word
      rw [index_sector sized fits turn' (by omega)] at byte bit
      have same : (k : ℤ) = k' := place_inj (Int.natCast_nonneg k) (Int.natCast_nonneg k') byte bit
      obtain rfl : k = k' := Int.natCast_inj.mp same
      exact ⟨t, word, dirty⟩
  · rintro ⟨t, word, dirty⟩
    have bound := sized.word_lt word
    have set := (covers k turn).2
    rw [number] at set
    rcases set with set | served
    · exact set
    · rcases served t word with blank | set
      · rw [blank] at dirty
        exact absurd dirty Bool.false_ne_true
      · rw [index_sector sized fits turn (by omega)] at set
        exact set

theorem erased_range {i : ℕ} (inside : i < c.job.firmwareLength) :
    (eraseFlash c (quickScan c).bitmap).1 (c.job.address + i) = 0xFF := by
  have some := sized.positive
  have count := sectors_aligned sized fits.aligned fits.part
  have turn : i / c.sectorSize < sectors c := by
    rw [count, needed, Nat.div_lt_iff_lt_mul some]
    have whole := Nat.div_add_mod (c.job.firmwareLength + c.sectorSize - 1) c.sectorSize
    have rest := Nat.mod_lt (c.job.firmwareLength + c.sectorSize - 1) some
    rw [Nat.mul_comm] at whole
    omega
  have place : c.job.address + i = sector c (i / c.sectorSize) + i % c.sectorSize := by
    rw [sector, firstSector_aligned fits.aligned, Nat.add_assoc, Nat.div_add_mod']
  have rest := Nat.mod_lt i some
  apply eraseFlash_blank
  by_cases dirty : Dirty c (i / c.sectorSize)
  · right
    refine ⟨i / c.sectorSize, turn, ?_, ?_⟩
    · have numbers := fits.numbers
      rw [toInt_eq (by omega)]
      exact (marked_iff sized fits turn).mpr dirty
    · obtain ⟨f, same⟩ := fits.aligned
      rw [place, sector, firstSector_aligned fits.aligned, same, Nat.mul_comm c.sectorSize f,
        ← Nat.add_mul, Nat.mul_comm,
        Nat.mul_add_div some, Nat.mul_div_cancel_left _ some, Nat.div_eq_of_lt rest, Nat.add_zero]
  · left
    have word := Nat.div_add_mod (i % c.sectorSize) c.job.size
    have lane := Nat.mod_lt (i % c.sectorSize) (size_pos c.job)
    have number : i % c.sectorSize / c.job.size < c.sectorSize / c.job.size := by
      rw [Nat.div_lt_iff_lt_mul (size_pos c.job), Nat.div_mul_cancel sized.words]
      exact rest
    have blank : FlashScan.dirty c (sector c (i / c.sectorSize) + i % c.sectorSize / c.job.size *
      c.job.size) = false := by
      by_contra marked
      exact dirty ⟨_, number, Bool.not_eq_false _ |>.mp marked⟩
    rw [Nat.mul_comm] at word
    apply dirty_iff.mp blank
    all_goals omega

theorem agrees_of_fits : Agrees c where
  marked _ turn := marked_iff sized fits turn
  inside i used := by
    obtain ⟨k, turn, rfl⟩ := used_sector sized fits used
    rw [sectors_aligned sized fits.aligned fits.part] at turn
    have bits := fits.bits
    omega
  erased _ inside := erased_range sized fits inside

end

end

theorem sectors_congr {c' : Setup} (job : c.job = c'.job) (size : c.sectorSize = c'.sectorSize) :
    sectors c = sectors c' := by
  rw [sectors, sectors, lastSector, lastSector, firstSector, firstSector, job, size]

theorem bounds_of_agrees (sized : Sized c) (agrees : Agrees c) (allocated : 0 ≤ bitmapSize c.job) :
    sectors c ≤ 2 ^ 31 ∧ (sectors c : ℤ) ≤ 8 * bitmapSize c.job := by
  have used : ∀ k < sectors c, 0 ≤ toInt k ∧ toInt k < 8 * bitmapSize c.job := by
    intro k turn
    exact agrees.inside (toInt k) (List.mem_append_left _ ((quickScan_covers sized).2 k turn).1)
  have numbers : sectors c ≤ 2 ^ 31 := by
    by_contra more
    have negative := (used (2 ^ 31) (by omega)).1
    have value : toInt (2 ^ 31) = -2147483648 := by decide
    omega
  refine ⟨numbers, ?_⟩
  by_contra more
  have last := (used (8 * bitmapSize c.job).toNat (by omega)).2
  rw [toInt_eq (by omega)] at last
  omega

theorem turns_of_agrees (agrees : Agrees c) (some : 0 < c.job.firmwareLength)
    (written : ∀ x, c.flash x = 0) : 0 < sectors c := by
  by_contra none
  have erased := agrees.erased 0 some
  rw [eraseFlash, Nat.eq_zero_of_not_pos none, List.range_zero, List.foldl_nil] at erased
  change c.flash (c.job.address + 0) = 0xFF at erased
  rw [written] at erased
  exact absurd erased (by decide)

theorem index_firstSector (sized : Sized c) {half : ℕ} (space : 2 ^ 64 = 2 * half * c.sectorSize)
    (unaligned : ¬ c.sectorSize ∣ c.job.address) :
    index c (firstSector c) = toInt (2 * half - 1) := by
  have some := sized.positive
  have inside := c.job.inside
  have whole := Nat.div_add_mod c.job.address c.sectorSize
  have rest := Nat.mod_lt c.job.address some
  have offset : c.job.address % c.sectorSize ≠ 0 :=
    fun none => unaligned (Nat.dvd_of_mod_eq_zero none)
  have all : 2 ^ 64 = (2 * half - 1) * c.sectorSize + c.sectorSize := by
    have two : 2 * half - 1 + 1 = 2 * half := by
      rcases Nat.eq_zero_or_pos half with rfl | _
      · rw [Nat.mul_zero, Nat.zero_mul] at space
        omega
      · omega
    rw [← Nat.succ_mul, Nat.succ_eq_add_one, two, space]
  have distance : (firstSector c + 2 ^ 64 - c.job.address) % 2 ^ 64 = c.sectorSize * (2 * half - 1) +
    (c.sectorSize - c.job.address % c.sectorSize) := by
    rw [Nat.mod_eq_of_lt]
    all_goals
      rw [firstSector, Nat.mul_comm]
      rw [Nat.mul_comm (2 * half - 1)] at all
      omega
  rw [index, distance, Nat.mul_add_div some, Nat.div_eq_of_lt (by omega), Nat.add_zero]

theorem start_clear (heap : ∀ byte bit, c.heap byte bit = false) (i : ℤ) :
    bitmaskGet (start c).bitmap i = false := by
  unfold bitmaskGet start
  dsimp only
  rw [heap, ite_self]

theorem bitOf_odd {n : ℕ} (odd : n % 2 = 1) : bitOf (toInt n) ≠ bitOf ((0 : ℕ) : ℤ) := by
  have same := toInt_emod_two n
  rw [bitOf, bitOf]
  omega

theorem unaligned_disagrees (sized : Sized c) (unaligned : ¬ c.sectorSize ∣ c.job.address)
    (turns : 0 < sectors c)
    (flash : ∀ x, c.flash x = if x = firstSector c then 0 else 0xFF)
    (heap : ∀ byte bit, c.heap byte bit = false) : ¬ Agrees c := by
  intro agrees
  obtain ⟨half, space, positive⟩ := sized.space
  have some := size_pos c.job
  have only : ∀ a, firstSector c ≤ a → dirty c a = true → a = firstSector c := by
    intro a above marked
    by_contra other
    have blank : dirty c a = false := by
      rw [dirty_iff]
      intro x from_a _
      rw [flash, if_neg (by omega)]
    rw [blank] at marked
    exact Bool.false_ne_true marked
  have first : Dirty c 0 := by
    refine ⟨0, Nat.div_pos (Nat.le_of_dvd sized.positive sized.words) some, ?_⟩
    by_contra none
    have blank := dirty_iff.mp (Bool.not_eq_true _ |>.mp none) (firstSector c)
      (by rw [sector]; omega)
      (by rw [sector]; omega)
    rw [flash, if_pos rfl] at blank
    exact absurd blank (by decide)
  have set := (agrees.marked 0 turns).mpr first
  rcases (quickScan_covers sized).1.marked set with old | ⟨a, ⟨k, _, t, _, place⟩, dirty, _, bit⟩
  · rw [start_clear heap] at old
    exact Bool.false_ne_true old
  · have here := only a (by rw [place, sector]; omega) dirty
    rw [here, index_firstSector sized space unaligned] at bit
    exact bitOf_odd (show (2 * half - 1) % 2 = 1 by omega) bit.symm

theorem turns_unaligned (sized : Sized c) (unaligned : ¬ c.sectorSize ∣ c.job.address)
    (none : c.job.firmwareLength = 0) : 0 < sectors c := by
  obtain ⟨half, space, positive⟩ := sized.space
  have some := sized.positive
  have whole := Nat.div_add_mod c.job.address c.sectorSize
  have rest := Nat.mod_lt c.job.address some
  have offset : c.job.address % c.sectorSize ≠ 0 :=
    fun zero => unaligned (Nat.dvd_of_mod_eq_zero zero)
  have one : top c = bottom c + 1 := by
    rw [top, bottom, none, Nat.add_zero]
    calc (c.job.address + c.sectorSize - 1) / c.sectorSize
        = (c.sectorSize * (c.job.address / c.sectorSize + 1) + (c.job.address % c.sectorSize - 1)) /
          c.sectorSize := by
          rw [Nat.mul_succ]
          congr 1
          omega
      _ = c.job.address / c.sectorSize + 1 := by
          have less : (c.job.address % c.sectorSize - 1) / c.sectorSize = 0 :=
            Nat.div_eq_of_lt (by omega)
          rw [Nat.mul_add_div some, less, Nat.add_zero]
  rw [sized.sectors_eq space, one, Nat.add_sub_cancel_left, Nat.mod_eq_of_lt (by omega)]
  decide

theorem part_of_turns (sized : Sized c) (aligned : c.sectorSize ∣ c.job.address)
    (turns : 0 < c.job.firmwareLength → 0 < sectors c) :
    needed c.job c.sectorSize * c.sectorSize < 2 ^ 64 := by
  obtain ⟨half, space, positive⟩ := sized.space
  have some := sized.positive
  obtain ⟨_, high⟩ := sized.ends space
  have count := sized.sectors_eq space
  rw [top_aligned sized aligned, Nat.add_sub_cancel_left] at count
  rw [top_aligned sized aligned] at high
  rw [space]
  apply Nat.mul_lt_mul_of_pos_right _ some
  by_contra more
  rw [show needed c.job c.sectorSize = 2 * half by omega, Nat.mod_self] at count
  rcases Nat.eq_zero_or_pos c.job.firmwareLength with none | length
  · have zero : needed c.job c.sectorSize = 0 := by
      rw [needed, none, Nat.zero_add]
      exact Nat.div_eq_of_lt (by omega)
    omega
  · have positive := turns length
    omega

def front (c : Setup) : Setup :=
  { c with flash := fun x => if x = firstSector c then 0 else 0xFF, heap := fun _ _ => false }

theorem front_disagrees (sized : Sized c) (unaligned : ¬ c.sectorSize ∣ c.job.address)
    (turns : 0 < sectors c) : ¬ Agrees (front c) := by
  apply unaligned_disagrees
  · exact ⟨sized.power, sized.least⟩
  · exact unaligned
  · have same : sectors (front c) = sectors c := sectors_congr rfl rfl
    rw [same]
    exact turns
  · exact fun x => rfl
  · exact fun byte bit => rfl

theorem fits_of_agrees (sized : Sized c) (allocated : 0 ≤ bitmapSize c.job)
    (written : ∀ x, c.flash x = 0) (agrees : Agrees c)
    (blank : Agrees (front c)) : Fits c.job c.sectorSize := by
  have turns := fun length => turns_of_agrees agrees length written
  have aligned : c.sectorSize ∣ c.job.address := by
    by_contra unaligned
    rcases Nat.eq_zero_or_pos c.job.firmwareLength with none | length
    · exact front_disagrees sized unaligned (turns_unaligned sized unaligned none) blank
    · exact front_disagrees sized unaligned (turns length) blank
  have part := part_of_turns sized aligned turns
  obtain ⟨numbers, bits⟩ := bounds_of_agrees sized agrees allocated
  rw [sectors_aligned sized aligned part] at numbers bits
  exact ⟨aligned, bits, numbers, part⟩

theorem agrees_iff (j : Job) (sectorSize : ℕ) (power : ∃ e, sectorSize = 2 ^ e ∧ e < 64)
    (least : pageSize ≤ sectorSize) (allocated : 0 ≤ bitmapSize j) :
    (∀ cyclesPerPoll flash schedule heap, Agrees ⟨j, sectorSize, cyclesPerPoll, flash, schedule,
      heap⟩) ↔ Fits j sectorSize := by
  constructor
  · intro all
    have sized : Sized ⟨j, sectorSize, 1, fun _ => 0, fun _ => (0, []), fun _ _ => false⟩ :=
      ⟨power, least⟩
    exact fits_of_agrees sized allocated (fun x => rfl) (all _ _ _ _) (all _ _ _ _)
  · intro fits cyclesPerPoll flash schedule heap
    exact agrees_of_fits ⟨power, least⟩ fits

theorem agrees_iff_quarter : (∀ cyclesPerPoll flash schedule heap,
    Agrees ⟨quarter, 0x10000, cyclesPerPoll, flash, schedule, heap⟩) ↔ Fits quarter 0x10000 :=
  agrees_iff quarter 0x10000 ⟨16, by decide, by decide⟩ (by decide) (by decide)

def shifted : Job := { quarter with address := 0x18000, aligned := by decide, inside := by decide }

/-- A byte in front of it that is not blank has the index of the last sector of all, and the first
sector is not marked. -/
theorem shifted_disagrees :
    ¬ Agrees ⟨shifted, 0x10000, 4, fun x => if x = 0x10000 then 0 else 0xFF, fun _ => (0, []),
      fun _ _ => false⟩ := by
  apply unaligned_disagrees
  · exact ⟨⟨16, by decide, by decide⟩, by decide⟩
  · decide
  · decide
  · exact fun x => rfl
  · exact fun byte bit => rfl

end BelProject.Tools.FlashErase
