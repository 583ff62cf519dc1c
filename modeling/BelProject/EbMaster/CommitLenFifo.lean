import BelProject.Library.Ring

/-! `eb_commit_len_fifo` with words of 17 bits: a ring in a RAM with a registered read port. The
words of a packet are written behind a cell that is left free; a commit puts the length of the
packet there and hands the packet to the reader, an abort takes its words back. -/

namespace BelProject.EbMaster.CommitLenFifo
open BelProject.Library

/-- Registers and RAM, for `c_depth` address bits. -/
structure Fifo (depth : Nat) where
  rIdx : BitVec (depth + 1)
  wIdx : BitVec (depth + 1)
  eIdx : BitVec (depth + 1)
  rLen : BitVec 16
  rCnt : BitVec (depth + 1)
  full : Bool
  empty : Bool
  ram : Nat → BitVec 17
  rDat : BitVec 17

/-- The write port. `conflict` is what the RAM returns for a cell that is written in the same clock. -/
structure Writes where
  push : Bool
  dat : BitVec 17
  commit : Bool
  abort : Bool
  conflict : BitVec 17

variable {depth : Nat}

/-- After a reset the RAM and its output hold anything. -/
def reset (ram : Nat → BitVec 17) (rDat : BitVec 17) : Fifo depth :=
  { rIdx := 0, wIdx := 1, eIdx := 0, rLen := 0, rCnt := 0, full := false, empty := true, ram := ram, rDat := rDat }

def high : BitVec (depth + 1) := BitVec.twoPow (depth + 1) depth

section
variable (f : Fifo depth) (i : Writes) (pop : Bool)

def rIdx1 : BitVec (depth + 1) := if pop then f.rIdx + 1 else f.rIdx

def wIdx1 : BitVec (depth + 1) := if i.push then f.wIdx + 1 else f.wIdx

/-- `s_w_adr`. -/
def wAdr : BitVec (depth + 1) := if i.commit then f.eIdx else f.wIdx

/-- `s_w_dat`. -/
def wDat : BitVec 17 := if i.commit then BitVec.ofBool i.dat.msb ++ f.rLen else i.dat

def wCell : Nat := (wAdr f i).toNat % 2 ^ depth

def rCell : Nat := (rIdx1 f pop).toNat % 2 ^ depth

/-- One rising edge. A push and a pop win over a reset of the counters by a commit. -/
def clock : Fifo depth :=
  { rIdx := rIdx1 f pop
    wIdx := if i.commit then wIdx1 f i + 1 else if i.abort then f.eIdx + 1 else wIdx1 f i
    eIdx := if i.commit then wIdx1 f i else f.eIdx
    rLen := if i.push then f.rLen + 2 else if i.commit || i.abort then 0 else f.rLen
    rCnt := if pop then f.rCnt + 2 else if i.commit then 0 else f.rCnt
    full := decide (wIdx1 f i ^^^ high = rIdx1 f pop)
    empty := decide (f.eIdx = rIdx1 f pop)
    ram := if i.push || i.commit then Function.update f.ram (wCell f i) (wDat f i) else f.ram
    rDat := if (i.push || i.commit) = true ∧ wCell f i = rCell f pop then i.conflict else f.ram (rCell f pop) }

end

/-- The committed words that were not read, the free cell, and the words of the packet that is
being written. -/
structure Represents (f : Fifo depth) (queue written : List (BitVec 17)) : Prop where
  fits : queue.length + 1 + written.length ≤ 2 ^ depth
  eIdx : f.eIdx = f.rIdx + BitVec.ofNat (depth + 1) queue.length
  wIdx : f.wIdx = f.rIdx + BitVec.ofNat (depth + 1) (queue.length + 1 + written.length)
  holds : ∃ free, Ring.Holds f.ram (2 ^ depth) f.rIdx.toNat (queue ++ free :: written)
  rLen : f.rLen = BitVec.ofNat 16 (2 * written.length)
  front : f.empty = false → queue.head? = some f.rDat

theorem represents_reset (ram : Nat → BitVec 17) (rDat : BitVec 17) :
    Represents (reset ram rDat : Fifo depth) [] [] where
  fits := Nat.one_le_two_pow
  eIdx := rfl
  wIdx := (BitVec.zero_add _).symm
  holds := ⟨ram (0 % 2 ^ depth), rfl, trivial⟩
  rLen := rfl
  front := fun shown => absurd shown Bool.noConfusion

variable {f : Fifo depth} {i : Writes} {pop : Bool} {queue written : List (BitVec 17)}

theorem rIdx1_eq (f : Fifo depth) (pop : Bool) : rIdx1 f pop = f.rIdx + BitVec.ofNat (depth + 1) pop.toNat := by
  cases pop with
  | false => exact (BitVec.add_zero _).symm
  | true => rfl

theorem wIdx1_eq (f : Fifo depth) (i : Writes) : wIdx1 f i = f.wIdx + BitVec.ofNat (depth + 1) i.push.toNat := by
  unfold wIdx1
  cases i.push with
  | false => exact (BitVec.add_zero _).symm
  | true => rfl

/-- What the pointers say of the queue that is left once the front was popped. -/
structure Popped (f : Fifo depth) (pop : Bool) (queue written : List (BitVec 17)) : Prop where
  fits : queue.length + 1 + written.length + pop.toNat ≤ 2 ^ depth
  eIdx : f.eIdx = rIdx1 f pop + BitVec.ofNat (depth + 1) queue.length
  wIdx : f.wIdx = rIdx1 f pop + BitVec.ofNat (depth + 1) (queue.length + 1 + written.length)
  holds : ∃ free, Ring.Holds f.ram (2 ^ depth) (rIdx1 f pop).toNat (queue ++ free :: written)

theorem Represents.popped (rep : Represents f queue written) (present : pop.toNat ≤ queue.length) :
    Popped f pop (queue.drop pop.toNat) written := by
  have length : pop.toNat + (queue.drop pop.toNat).length = queue.length := by
    rw [List.length_drop]
    omega
  have fits := rep.fits
  refine ⟨by omega, ?_, ?_, ?_⟩
  · rw [rep.eIdx, rIdx1_eq, BitVec.add_assoc, ← BitVec.ofNat_add, length]
  · rw [rep.wIdx, rIdx1_eq, BitVec.add_assoc, ← BitVec.ofNat_add]
    congr 2
    omega
  · obtain ⟨free, holds⟩ := rep.holds
    have rest := holds.drop pop.toNat
    rw [List.drop_append_of_le_length present] at rest
    refine ⟨free, rest.congr ?_⟩
    rw [rIdx1_eq]
    exact (Ring.pointer_mod _ _).symm

theorem Popped.full_clock (left : Popped f pop queue written)
    (room : queue.length + 1 + written.length + i.push.toNat ≤ 2 ^ depth) :
    (clock f i pop).full = decide (queue.length + 1 + written.length + i.push.toNat = 2 ^ depth) := by
  have pointer : wIdx1 f i = rIdx1 f pop + BitVec.ofNat (depth + 1)
    (queue.length + 1 + written.length + i.push.toNat) := by
    rw [wIdx1_eq, left.wIdx, BitVec.add_assoc, ← BitVec.ofNat_add]
  show decide (wIdx1 f i ^^^ high = rIdx1 f pop) = _
  rw [pointer, decide_eq_decide]
  exact Ring.pointer_full _ room

theorem Popped.empty_clock (left : Popped f pop queue written) : (clock f i pop).empty = decide (queue = []) := by
  have fits := left.fits
  have power : 2 ^ depth < 2 ^ (depth + 1) := Nat.pow_lt_pow_right Nat.one_lt_two (Nat.lt_succ_self depth)
  have same := Ring.pointer_inj (rIdx1 f pop) (a := queue.length) (b := 0) (by omega) (by omega)
  rw [BitVec.add_zero, ← left.eIdx, List.length_eq_zero_iff] at same
  exact decide_eq_decide.mpr same

/-- No cell is read and written at once while there are words to read. -/
theorem Popped.cells_apart (left : Popped f pop queue written) (some : queue ≠ [])
    (room : queue.length + 1 + written.length < 2 ^ depth) : wCell f i ≠ rCell f pop := by
  have positive := List.length_pos_iff.mpr some
  have behind : ∀ n, 0 < n → n < 2 ^ depth → ((rIdx1 f pop) + BitVec.ofNat (depth + 1) n).toNat %
    2 ^ depth ≠ rCell f pop := by
    intro n above below same
    rw [rCell, Ring.pointer_mod] at same
    exact absurd (Ring.cell_inj below (Nat.two_pow_pos depth) same) (Nat.ne_of_gt above)
  rw [wCell, wAdr]
  cases i.commit with
  | true =>
    rw [if_pos rfl, left.eIdx]
    exact behind _ positive (by omega)
  | false =>
    rw [if_neg Bool.false_ne_true, left.wIdx]
    exact behind _ (by omega) room

theorem Popped.front_clock (left : Popped f pop queue written) (behind : List (BitVec 17))
    (room : (i.push || i.commit) = true → queue.length + 1 + written.length < 2 ^ depth)
    (shown : (clock f i pop).empty = false) : (queue ++ behind).head? = some (clock f i pop).rDat := by
  rw [left.empty_clock, decide_eq_false_iff_not] at shown
  obtain ⟨free, holds⟩ := left.holds
  have read : (clock f i pop).rDat = f.ram (rCell f pop) :=
    if_neg fun both => left.cells_apart shown (room both.1) both.2
  rw [read]
  cases queue with
  | nil => exact absurd rfl shown
  | cons word queue => exact congrArg some holds.front.symm

section
variable (rep : Represents f queue written) (present : pop.toNat ≤ queue.length)

include rep present

theorem Represents.rest_clock (commit : i.commit = false) (push : i.push = false) :
    Represents (clock f i pop) (queue.drop pop.toNat) (if i.abort then [] else written) := by
  have left := rep.popped present
  have fits := left.fits
  have pointer : wIdx1 f i = f.wIdx := by rw [wIdx1, push, if_neg Bool.false_ne_true]
  have next : (clock f i pop).wIdx = if i.abort then f.eIdx + 1 else f.wIdx := by
    rw [← pointer]
    simp only [clock, commit, Bool.false_eq_true, if_false]
  have base : (clock f i pop).eIdx = f.eIdx := by simp only [clock, commit, Bool.false_eq_true, if_false]
  have kept : (clock f i pop).ram = f.ram := by simp only [clock, commit, push, Bool.or_self, Bool.false_eq_true, if_false]
  have count : (clock f i pop).rLen = if i.abort then 0 else f.rLen := by
    simp only [clock, commit, push, Bool.false_or, Bool.false_eq_true, if_false]
  have front := left.front_clock (i := i) [] (by simp [push, commit])
  rw [List.append_nil] at front
  obtain ⟨free, holds⟩ := left.holds
  cases taken : i.abort with
  | false =>
    rw [taken, if_neg Bool.false_ne_true] at next count
    refine ⟨by rw [if_neg Bool.false_ne_true]; omega, base.trans left.eIdx, next.trans left.wIdx,
      ⟨free, ?_⟩, count.trans rep.rLen, front⟩
    rw [kept]
    exact holds
  | true =>
    rw [taken, if_pos rfl] at next count
    refine ⟨by rw [if_pos rfl]; simp only [List.length_nil]; omega, base.trans left.eIdx, ?_, ⟨free, ?_⟩, count, front⟩
    · rw [next, left.eIdx, BitVec.add_assoc]
      exact congrArg _ (BitVec.ofNat_add _ _).symm
    · rw [kept, if_pos rfl]
      have short := holds.take ((queue.drop pop.toNat).length + 1)
      rw [List.take_length_add_append] at short
      exact short

theorem Represents.push_clock (commit : i.commit = false) (abort : i.abort = false) (push : i.push = true)
    (room : queue.length + 1 + written.length < 2 ^ depth) :
    Represents (clock f i pop) (queue.drop pop.toNat) (written ++ [i.dat]) := by
  have left := rep.popped present
  have fits := left.fits
  have shorter := List.length_drop (i := pop.toNat) (l := queue)
  have pointer : wIdx1 f i = f.wIdx + 1 := by rw [wIdx1, push, if_pos rfl]
  have front := left.front_clock (i := i) [] fun _ => by omega
  rw [List.append_nil] at front
  refine ⟨?_, ?_, ?_, ?_, ?_, front⟩
  · rw [List.length_append, List.length_singleton]
    omega
  · simp only [clock, commit, Bool.false_eq_true, if_false]
    exact left.eIdx
  · simp only [clock, commit, abort, Bool.false_eq_true, if_false]
    rw [pointer, left.wIdx, BitVec.add_assoc, List.length_append, List.length_singleton, ← Nat.add_assoc]
    exact congrArg _ (BitVec.ofNat_add _ _).symm
  · obtain ⟨free, holds⟩ := left.holds
    have cell : f.wIdx.toNat % 2 ^ depth =
        ((rIdx1 f pop).toNat + (queue.drop pop.toNat ++ free :: written).length) % 2 ^ depth := by
      rw [left.wIdx, List.length_append, List.length_cons, Nat.add_assoc _ 1, Nat.add_comm 1]
      exact Ring.pointer_mod _ _
    have stored := holds.push i.dat (by rw [List.length_append, List.length_cons]; omega)
    rw [← cell, List.append_assoc, List.cons_append] at stored
    refine ⟨free, ?_⟩
    simp only [clock, push, Bool.true_or, if_true, wCell, wAdr, wDat, commit, Bool.false_eq_true, if_false]
    exact stored
  · simp only [clock, push, if_true]
    rw [rep.rLen, List.length_append, List.length_singleton, Nat.mul_add]
    exact (BitVec.ofNat_add _ _).symm

theorem Represents.commit_clock (commit : i.commit = true) (push : i.push = false)
    (room : queue.length + 1 + written.length < 2 ^ depth) :
    Represents (clock f i pop)
      (queue.drop pop.toNat ++ (BitVec.ofBool i.dat.msb ++ BitVec.ofNat 16 (2 * written.length)) :: written) [] := by
  have left := rep.popped present
  have fits := left.fits
  have shorter := List.length_drop (i := pop.toNat) (l := queue)
  have pointer : wIdx1 f i = f.wIdx := by rw [wIdx1, push, if_neg Bool.false_ne_true]
  have length : (queue.drop pop.toNat ++ (BitVec.ofBool i.dat.msb ++ BitVec.ofNat 16
    (2 * written.length)) :: written).length =
      (queue.drop pop.toNat).length + 1 + written.length := by
    rw [List.length_append, List.length_cons]
    omega
  refine ⟨?_, ?_, ?_, ?_, ?_, left.front_clock _ fun _ => by omega⟩
  · rw [length, List.length_nil]
    omega
  · simp only [clock, commit, if_true]
    rw [pointer, length]
    exact left.wIdx
  · simp only [clock, commit, if_true]
    rw [pointer, length, left.wIdx, BitVec.add_assoc]
    exact congrArg _ (BitVec.ofNat_add _ _).symm
  · obtain ⟨free, holds⟩ := left.holds
    have cell : f.eIdx.toNat % 2 ^ depth = ((rIdx1 f pop).toNat + (queue.drop pop.toNat).length) % 2 ^ depth := by
      rw [left.eIdx]
      exact Ring.pointer_mod _ _
    have whole : (queue.drop pop.toNat ++ free :: written).length = (queue.drop pop.toNat).length + 1 +
      written.length := by
      rw [List.length_append, List.length_cons]
      omega
    have inside : (queue.drop pop.toNat).length < (queue.drop pop.toNat ++ free :: written).length := by omega
    have stored := holds.set (wDat f i) inside (by omega)
    rw [← cell, List.set_append_right _ _ (le_refl _), Nat.sub_self, List.set_cons_zero] at stored
    have word : wDat f i = BitVec.ofBool i.dat.msb ++ BitVec.ofNat 16
      (2 * written.length) := by rw [wDat, if_pos commit, rep.rLen]
    have ram : (clock f i pop).ram = Function.update f.ram (f.eIdx.toNat % 2 ^ depth) (wDat f i) := by
      simp only [clock, commit, Bool.or_true, if_true, wCell, wAdr]
    rw [ram, word]
    rw [word] at stored
    exact ⟨_, stored.concat⟩
  · simp only [clock, push, commit, Bool.false_eq_true, if_false, Bool.true_or, if_true]
    rfl

end

end BelProject.EbMaster.CommitLenFifo
