import BelProject.Mil.Decoder
import Mathlib.Data.Nat.Bits

/-! The windows of `Mil_dec_edge_timed` in counts of the clock. From 20 MHz on they are apart from
each other, and a flag is up inside of its window only. -/

namespace BelProject.Mil.Decoder

variable {hz : Nat} {g h : Gap} {r : Registers} {i : Inputs} {posLane : Bool}

theorem clkInPs_bounds (fast : 20000000 ≤ hz) (int : hz < 2 ^ 31) : 0 < clkInPs hz ∧ clkInPs hz ≤ 50000 := by
  have kilo : 20000 ≤ hz / 1000 := by omega
  constructor
  · exact Nat.div_pos (by omega) (by omega)
  · calc
      clkInPs hz ≤ 1000000000 / 20000 := Nat.div_le_div_left kilo (by decide)
      _ = 50000 := by decide

theorem cnt_mono {a b : Nat} (le : a ≤ b) : cnt hz a ≤ cnt hz b :=
  Nat.div_le_div_right (Nat.mul_le_mul_right 1000 le)

theorem cnt_add (fast : 20000000 ≤ hz) (int : hz < 2 ^ 31) (a k : Nat) : cnt hz a + k ≤ cnt hz (a + 50 * k) := by
  obtain ⟨positive, slow⟩ := clkInPs_bounds fast int
  have clocks : k * clkInPs hz ≤ 50 * k * 1000 := by
    calc
      k * clkInPs hz ≤ k * 50000 := Nat.mul_le_mul_left k slow
      _ = 50 * k * 1000 := by omega
  calc
    cnt hz a + k = (a * 1000 + k * clkInPs hz) / clkInPs hz := (Nat.add_mul_div_right _ _ positive).symm
    _ ≤ (a * 1000 + 50 * k * 1000) / clkInPs hz := Nat.div_le_div_right (Nat.add_le_add_left clocks _)
    _ = cnt hz (a + 50 * k) := by rw [cnt, Nat.add_mul]

theorem Gap.ns_eq : g.ns = 500 * g.halves := by
  cases g <;> rfl

theorem minCnt_lt (fast : 20000000 ≤ hz) (int : hz < 2 ^ 31) : minCnt hz g < maxCnt hz g := by
  have wide := cnt_add fast int (g.ns - deltaInNs) 1
  have inside : cnt hz (g.ns - deltaInNs + 50 * 1) ≤ maxCnt hz g := cnt_mono (by cases g <;> decide)
  exact Nat.lt_of_lt_of_le wide inside

theorem two_le_minCnt (fast : 20000000 ≤ hz) (int : hz < 2 ^ 31) : 2 ≤ minCnt hz g := by
  have wide := cnt_add fast int 0 2
  have inside : cnt hz (0 + 50 * 2) ≤ minCnt hz g := cnt_mono (by cases g <;> decide)
  omega

theorem maxCnt_le_timeout : maxCnt hz g ≤ timeoutTimeCnt hz :=
  cnt_mono (by cases g <;> decide)

theorem three_le_timeout (fast : 20000000 ≤ hz) (int : hz < 2 ^ 31) : 3 ≤ timeoutTimeCnt hz := by
  have wide := cnt_add fast int 0 3
  have inside : cnt hz (0 + 50 * 3) ≤ timeoutTimeCnt hz := cnt_mono (by decide)
  omega

theorem maxCnt_le_minCnt (shorter : g.halves < h.halves) : maxCnt hz g ≤ minCnt hz h := by
  apply cnt_mono
  have ends := Gap.ns_eq (g := g)
  have starts := Gap.ns_eq (g := h)
  simp only [deltaInNs]
  omega

theorem window_unique {c : Nat} (inside : minCnt hz g < c ∧ c ≤ maxCnt hz g)
    (other : minCnt hz h < c ∧ c ≤ maxCnt hz h) : g = h := by
  rcases Nat.lt_trichotomy g.halves h.halves with less | same | greater
  · have apart := @maxCnt_le_minCnt hz _ _ less
    omega
  · cases g <;> cases h <;> first | rfl | cases same
  · have apart := @maxCnt_le_minCnt hz _ _ greater
    omega

theorem lt_howManyBits : ∀ (i : Nat) {int : Nat}, int < 2 ^ i → int < 2 ^ howManyBits i int
  | 0, _, bound => bound
  | i + 1, int, bound => by
    by_cases zero : int = 0
    · rw [zero]
      exact Nat.two_pow_pos _
    · have half : int / 2 < 2 ^ howManyBits i (int / 2) := lt_howManyBits i (by omega)
      rw [howManyBits, if_neg zero]
      omega

theorem not_stopped {c : Nat} (early : c ≤ timeoutTimeCnt hz) :
    c.testBit (howManyBits 32 (timeoutTimeCnt hz)) = false := by
  have small : timeoutTimeCnt hz ≤ 2400000 := Nat.div_le_self _ _
  apply Nat.testBit_lt_two_pow
  exact Nat.lt_of_le_of_lt early (lt_howManyBits 32 (by omega))

/-- A flag is up while the counter is inside of its window, or it is being cleared. -/
def Timed (hz : Nat) (r : Registers) : Prop :=
  ∀ g, r.isGap g = true →
    r.machine.clr g = true ∨ opens r.machine.state g = true ∧ minCnt hz g < r.count ∧ r.count ≤ maxCnt hz g

/-- An edge outside of idle does not come in the clock that clears a flag, nor in the one that sets
a flag. -/
def Clean (hz : Nat) (r : Registers) : Prop :=
  edgeDetect r = true → r.machine.state ≠ .idle →
    ∀ g, ¬(r.isGap g = true ∧ r.machine.clr g = true) ∧ ¬(r.count = minCnt hz g ∧ opens r.machine.state g = true)

/-- The end of a word is met one clock behind its last bit. -/
def Ends (r : Registers) : Prop := r.machine.state = .data → r.shift.msb = true → r.count ≤ 1

theorem level_of_edge (seen : edgeDetect r = true) : r.sync1 = !r.sync2 := by
  revert seen
  rw [edgeDetect]
  cases r.sync1 <;> cases r.sync2 <;> decide

theorem level_of_still (still : edgeDetect r = false) : r.sync1 = r.sync2 := by
  revert still
  rw [edgeDetect]
  cases r.sync1 <;> cases r.sync2 <;> decide

theorem not_idle_of_opens (opened : opens r.machine.state g = true) : r.machine.state ≠ .idle := by
  intro idle
  rw [idle] at opened
  cases g <;> cases opened

theorem Timed.inside (timed : Timed hz r) (clean : Clean hz r) (seen : edgeDetect r = true)
    (busy : r.machine.state ≠ .idle)
    (up : r.isGap g = true) : opens r.machine.state g = true ∧ minCnt hz g < r.count ∧ r.count ≤ maxCnt hz g := by
  rcases timed g up with cleared | inside
  · exact absurd ⟨up, cleared⟩ (clean seen busy g).1
  · exact inside

theorem Timed.unique (timed : Timed hz r) (clean : Clean hz r) (seen : edgeDetect r = true)
    (busy : r.machine.state ≠ .idle)
    (up : r.isGap g = true) (other : r.isGap h = true) : g = h :=
  window_unique (timed.inside clean seen busy up).2 (timed.inside clean seen busy other).2

theorem Timed.settle {res : Bool} (timed : Timed hz r) : Timed hz (settle r res) := by
  intro g up
  by_cases stopped : (res || r.isTimeout) = true
  · refine Or.inl ?_
    simp only [Decoder.settle, stopped, if_true, Machine.reset]
  · simp only [Decoder.settle, stopped]
    exact timed g up

theorem clears (timed : Timed hz r) (clean : Clean hz r) (ends : Ends r) (seen : edgeDetect r = true)
    (busy : r.machine.state ≠ .idle)
    (slow : 2 ≤ minCnt hz g) (up : r.isGap g = true) : (nextMachine posLane r).clr g = true := by
  have inside := timed.inside clean seen busy up
  have same : ∀ {h}, r.isGap h = true → g = h := timed.unique clean seen busy up
  have opened := inside.1
  cases state : r.machine.state with
  | idle => exact absurd state busy
  | sync1or2 =>
    simp only [nextMachine, state, seen, if_true]
    by_cases withBit : r.isGap .syncWithBit = true
    · cases same withBit
      simp [withBit, only]
    · have plain : g = .sync := by
        rw [state] at opened
        cases g with
        | short => cases opened
        | long => cases opened
        | sync => rfl
        | syncWithBit => exact absurd up withBit
      subst plain
      simp [withBit, up, only]
  | sync2orData =>
    simp only [nextMachine, state, seen, if_true]
    by_cases withBit : r.isGap .syncWithBit = true
    · cases same withBit
      simp [withBit, only]
    · by_cases plain : r.isGap .sync = true
      · cases same plain
        simp [withBit, plain, only]
      · have short : g = .short := by
          rw [state] at opened
          cases g with
          | short => rfl
          | long => cases opened
          | sync => exact absurd up plain
          | syncWithBit => exact absurd up withBit
        subst short
        simp [withBit, plain, up, only]
  | data =>
    have going : r.shift.msb ≠ true := by
      intro last
      have early := ends state last
      omega
    simp only [nextMachine, state, seen, if_true, going]
    rw [state] at opened
    cases g with
    | short =>
      have notLong : r.isGap .long ≠ true := fun long => by cases same long
      cases turn : r.machine.nextShort <;> simp [up, notLong, only]
    | long =>
      have notShort : r.isGap .short ≠ true := fun short => by cases same short
      cases turn : r.machine.nextShort <;> simp [up, notShort, only]
    | sync => cases opened
    | syncWithBit => cases opened
  | parity =>
    rw [state] at opened
    cases g <;> cases opened
  | err =>
    rw [state] at opened
    cases g <;> cases opened

theorem opens_still (still : edgeDetect r = false) (ends : Ends r) (late : 2 ≤ r.count)
    (opened : opens r.machine.state g = true) :
    opens (nextMachine posLane r).state g = true := by
  have same : (nextMachine posLane r).state = r.machine.state := by
    cases state : r.machine.state with
    | idle => simp [nextMachine, state, still]
    | sync1or2 => simp [nextMachine, state, still, Machine.lower]
    | sync2orData => simp [nextMachine, state, still, Machine.lower]
    | data =>
      have going : r.shift.msb ≠ true := by
        intro last
        have early := ends state last
        omega
      simp [nextMachine, state, still, going, Machine.lower]
    | parity =>
      rw [state] at opened
      cases g <;> cases opened
    | err =>
      rw [state] at opened
      cases g <;> cases opened
  rw [same]
  exact opened

theorem Timed.kept (fast : 20000000 ≤ hz) (int : hz < 2 ^ 31) (timed : Timed hz r) (clean : Clean hz r) (ends : Ends r)
    (settled : r.isTimeout = true ∨ i.res = true → r.machine.state = .idle) : Timed hz (edge hz posLane r i) := by
  intro g up
  have slow := two_le_minCnt (g := g) fast int
  have running (opened : opens r.machine.state g = true) : (edge hz posLane r i).machine = nextMachine posLane r := by
    refine if_neg fun stopped => not_idle_of_opens opened (settled ?_)
    rw [Bool.or_eq_true] at stopped
    exact stopped.symm
  have counts (opened : opens r.machine.state g = true) (still : edgeDetect r = false) (early : r.count ≤ maxCnt hz g) :
      (edge hz posLane r i).count = r.count + 1 := by
    have busy := not_idle_of_opens opened
    have going := not_stopped (Nat.le_trans early maxCnt_le_timeout)
    simp [Decoder.edge, nextCount, still, busy, going]
  change nextIsGap hz r g = true at up
  rw [nextIsGap] at up
  split at up
  next starts =>
    obtain ⟨reached, opened⟩ := starts
    have still : edgeDetect r = false := by
      by_contra seen
      exact (clean (Bool.eq_true_of_not_eq_false seen) (not_idle_of_opens opened) g).2 ⟨reached, opened⟩
    have wide := minCnt_lt (g := g) fast int
    refine Or.inr ?_
    rw [running opened, counts opened still (by omega)]
    exact ⟨opens_still still ends (by omega) opened, by omega, by omega⟩
  next =>
    split at up
    · cases up
    next keeps =>
      obtain ⟨notLast, notCleared⟩ := not_or.mp keeps
      obtain ⟨opened, above, below⟩ := (timed g up).resolve_left notCleared
      rw [running opened]
      by_cases seen : edgeDetect r = true
      · exact Or.inl (clears timed clean ends seen (not_idle_of_opens opened) slow up)
      · have still := Bool.eq_false_of_not_eq_true seen
        rw [counts opened still below]
        exact Or.inr ⟨opens_still still ends (by omega) opened, by omega, by omega⟩

end BelProject.Mil.Decoder
