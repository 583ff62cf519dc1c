import BelProject.Library.Ring

/-! `eb_fifo`: a ring of 32 cells in a RAM with a registered read port. The read port runs
one clock ahead, so the front of the queue is on the output whenever the empty flag is down;
the flag is computed from the old write pointer, so a word shows one clock after its push. -/

namespace BelProject.SlaveCore.Fifo
open BelProject.Library

variable {α : Type}

structure EbFifo (α : Type) where
  rIdx : BitVec 6
  wIdx : BitVec 6
  full : Bool
  empty : Bool
  ram : Nat → α
  rDat : α

/-- After a reset the RAM and its output hold anything. -/
def reset (ram : Nat → α) (rDat : α) : EbFifo α := ⟨0, 0, false, true, ram, rDat⟩

def clock (f : EbFifo α) (push : Option α) (pop : Bool) : EbFifo α :=
  let rIdx1 := if pop then f.rIdx + 1 else f.rIdx
  let wIdx1 := if push.isSome then f.wIdx + 1 else f.wIdx
  { rIdx := rIdx1
    wIdx := wIdx1
    full := decide (wIdx1 ^^^ 0x20 = rIdx1)
    empty := decide (f.wIdx = rIdx1)
    ram := match push with
      | some dat => Function.update f.ram (f.wIdx.toNat % 32) dat
      | none => f.ram
    rDat := f.ram (rIdx1.toNat % 32) }

structure Represents (f : EbFifo α) (queue : List α) : Prop where
  length : queue.length ≤ 32
  wIdx : f.wIdx = f.rIdx + BitVec.ofNat 6 queue.length
  holds : Ring.Holds f.ram 32 f.rIdx.toNat queue
  full : f.full = decide (queue.length = 32)
  front : f.empty = false → queue.head? = some f.rDat

/-- Nothing is pushed into a full FIFO, unless a word leaves it in the same clock. -/
def Room (f : EbFifo α) (push pop : Bool) : Prop := push = true → f.full = false ∨ pop = true

instance (f : EbFifo α) (push pop : Bool) : Decidable (Room f push pop) :=
  inferInstanceAs (Decidable (push = true → f.full = false ∨ pop = true))

theorem represents_reset (ram : Nat → α) (rDat : α) : Represents (reset ram rDat) [] :=
  ⟨Nat.zero_le _, rfl, trivial, rfl, fun shown => absurd shown Bool.noConfusion⟩

def left (queue : List α) (pop : Bool) : List α := if pop then queue.tail else queue

theorem xor_high (idx : BitVec 6) : idx ^^^ 0x20 = idx + 0x20 := by
  revert idx
  decide

theorem add_ofNat_inj (idx : BitVec 6) {a b : Nat} (small : a < 64) (small' : b < 64) :
    idx + BitVec.ofNat 6 a = idx + BitVec.ofNat 6 b ↔ a = b := by
  rw [BitVec.add_right_inj, ← BitVec.toNat_inj, BitVec.toNat_ofNat, BitVec.toNat_ofNat, Nat.mod_eq_of_lt small,
    Nat.mod_eq_of_lt small']

theorem full_iff (idx : BitVec 6) {length : Nat} (fits : length ≤ 32) :
    (idx + BitVec.ofNat 6 length) ^^^ 0x20 = idx ↔ length = 32 := by
  have small := idx.isLt
  have high : (0x20 : BitVec 6).toNat = 32 := rfl
  rw [xor_high, ← BitVec.toNat_inj, BitVec.toNat_add, BitVec.toNat_add, BitVec.toNat_ofNat, high]
  omega

variable {f : EbFifo α} {queue : List α} {push : Option α} {pop : Bool}

section
variable (rep : Represents f queue)
include rep

theorem Represents.popped (some : pop = true → queue ≠ []) :
    f.wIdx = (if pop then f.rIdx + 1 else f.rIdx) + BitVec.ofNat 6 (left queue pop).length ∧
      Ring.Holds f.ram 32 (if pop then f.rIdx + 1 else f.rIdx).toNat (left queue pop) ∧
        (left queue pop).length ≤ 32 := by
  cases pop with
  | false => exact ⟨rep.wIdx, rep.holds, rep.length⟩
  | true =>
    cases queue with
    | nil => exact absurd rfl (some rfl)
    | cons value queue =>
      have length := rep.length
      rw [List.length_cons] at length
      refine ⟨?_, ?_, Nat.le_of_succ_le length⟩
      · rw [rep.wIdx, List.length_cons, if_pos rfl, left, if_pos rfl, List.tail_cons, BitVec.add_assoc,
          BitVec.ofNat_add,
          BitVec.add_comm (BitVec.ofNat 6 queue.length)]
        rfl
      · rw [if_pos rfl, BitVec.toNat_add]
        apply rep.holds.pop.congr
        exact ((Nat.mod_modEq _ 64).of_dvd (by decide)).symm

theorem Represents.empty_clock (push : Option α) (some : pop = true → queue ≠ []) :
    (clock f push pop).empty = decide (left queue pop = []) := by
  obtain ⟨wIdx, _, length⟩ := rep.popped some
  have zero := add_ofNat_inj (if pop then f.rIdx + 1 else f.rIdx) (a := (left queue pop).length)
    (b := 0) (by omega) (by decide)
  have none : (if pop then f.rIdx + 1 else f.rIdx) + BitVec.ofNat 6 0 = if pop then f.rIdx + 1
    else f.rIdx := BitVec.add_zero _
  rw [none, ← wIdx, List.length_eq_zero_iff] at zero
  exact decide_eq_decide.mpr zero

theorem Represents.clock (some : pop = true → queue ≠ []) (room : Room f push.isSome pop) :
    Represents (clock f push pop) (left queue pop ++ push.toList) := by
  obtain ⟨wIdx, holds, length⟩ := rep.popped some
  have fits : (left queue pop).length + push.toList.length ≤ 32 := by
    cases push with
    | none => exact length
    | some value =>
      rcases room rfl with notFull | popped
      · rw [rep.full, decide_eq_false_iff_not] at notFull
        have short := rep.length
        have shorter : (left queue pop).length ≤ queue.length := by
          cases pop with
          | false => exact le_rfl
          | true => rw [left, if_pos rfl, List.length_tail]; omega
        simp only [Option.toList_some, List.length_singleton]
        omega
      · have positive := List.length_pos_iff.mpr (some popped)
        have short := rep.length
        rw [left, if_pos popped, List.length_tail]
        simp only [Option.toList_some, List.length_singleton]
        omega
  have cell : f.wIdx.toNat % 32 = ((if pop then f.rIdx + 1 else f.rIdx).toNat + (left queue pop).length) % 32 := by
    rw [wIdx, BitVec.toNat_add, BitVec.toNat_ofNat]
    omega
  have flag := rep.empty_clock push some
  have pointer : (Fifo.clock f push pop).wIdx = (if pop then f.rIdx + 1 else f.rIdx) +
      BitVec.ofNat 6 ((left queue pop).length + push.toList.length) := by
    cases push with
    | none => exact wIdx
    | some value =>
      rw [Option.toList_some, List.length_singleton, BitVec.ofNat_add, ← BitVec.add_assoc, ← wIdx]
      rfl
  refine ⟨?_, ?_, ?_, ?_, ?_⟩
  · rw [List.length_append]
    exact fits
  · rw [List.length_append]
    exact pointer
  · cases push with
    | none =>
      rw [Option.toList_none, List.append_nil]
      exact holds
    | some value =>
      have stored := holds.push value (Nat.lt_of_succ_le fits)
      rw [← cell] at stored
      exact stored
  · rw [List.length_append]
    have flips : (Fifo.clock f push pop).full = decide ((Fifo.clock f push pop).wIdx ^^^ 0x20 =
        if pop then f.rIdx + 1 else f.rIdx) := rfl
    rw [flips, pointer, decide_eq_decide]
    exact full_iff _ fits
  · intro shown
    rw [flag, decide_eq_false_iff_not] at shown
    cases rest : left queue pop with
    | nil => exact absurd rest shown
    | cons value rest' =>
      rw [rest] at holds
      rw [List.cons_append, List.head?_cons]
      exact congrArg Option.some holds.front.symm

theorem Represents.shown (shown : f.empty = false) : queue = f.rDat :: queue.tail :=
  List.eq_cons_of_mem_head? (rep.front shown)

theorem Represents.stage (valid served : Bool) (value : α) (behind : List α) (held : served = true → valid = true) :
    left ((if valid then [value] else []) ++ (queue ++ behind)) served =
      (if served || !valid then (if f.empty then [] else [f.rDat]) else if valid then [value] else []) ++
        (left queue (!f.empty && (served || !valid)) ++ behind) := by
  cases shown : f.empty with
  | true =>
    cases valid with
    | true => cases served <;> rfl
    | false =>
      cases served with
      | true => exact absurd (held rfl) Bool.false_ne_true
      | false => rfl
  | false =>
    have front := rep.shown shown
    cases valid with
    | true =>
      cases served with
      | true =>
        simp only [left, Bool.not_false, Bool.true_or, Bool.true_and, if_true, List.singleton_append, List.tail_cons]
        conv_lhs => rw [front]
        rfl
      | false => rfl
    | false =>
      cases served with
      | true => exact absurd (held rfl) Bool.false_ne_true
      | false =>
        simp only [left, Bool.not_false, Bool.or_true, Bool.true_and, if_true, List.nil_append,
          Bool.false_eq_true, if_false]
        conv_lhs => rw [front]
        rfl

end

end BelProject.SlaveCore.Fifo
