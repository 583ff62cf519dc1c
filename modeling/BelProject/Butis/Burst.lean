import Mathlib.Tactic.Common
import BelProject.Butis.Timestamp

/-! What the encoder sends in one period of T0: eighty bits, each for `g` clocks, and then zeros
up to the next T0. -/

namespace BelProject.Butis.Burst
open Timestamp

def crcBytes (timestamp : BitVec 64) : Nat → BitVec 8
  | 0 => 0
  | n + 1 => crcC (byteOf timestamp n) (crcBytes timestamp n)

def code (timestamp : BitVec 64) (k : Nat) : Bool :=
  if k < 8 then k % 2 == 0
  else if k < 72 then timestamp.getLsbD (71 - k)
  else (crcBytes timestamp 8).getLsbD (79 - k)

/-- A period of 2000 clocks that begins with T0 for one clock, and the timestamp held in it. -/
structure Period (inputs : Nat → Inputs) (start : Nat) (timestamp : BitVec 64) : Prop where
  reset : ∀ n < 2000, (inputs (start + n)).reset = false
  butisT0 : ∀ n < 2000, (inputs (start + n)).butisT0 = (n == 0)
  held : ∀ n < 2000, (inputs (start + n)).timestampOnNextT0 = timestamp

/-- The encoder between the bursts. -/
structure Silent (e : Encoder) : Prop where
  mode : e.mode = .nextTimestamp
  serial : e.serial = false
  butisT0 : e.butisT0 = false

/-- The encoder in clock c of bit k. The serial output comes a clock later. -/
structure Sends (timestamp : BitVec 64) (k c : Nat) (e : Encoder) : Prop where
  mode : e.mode = if k < 8 then .startByte else .par2Ser
  clockcounter : e.clockcounter = c
  bitcounter : e.bitcounter = k % 8
  bytecounter : e.bytecounter = k / 8 - 1
  serial : e.serial = code timestamp (if c = 0 then k - 1 else k)

variable {g start : Nat} {inputs : Nat → Inputs} {timestamp : BitVec 64} {e : Nat → Encoder}

theorem crc_counts (trace : ∀ t, e (t + 1) = (e t).clock g (inputs t))
    (period : Period inputs start timestamp) {n : Nat} (inside : n < 2000) :
    (e (start + 1 + n)).tsbytecounter = min n 8 ∧
    (1 ≤ n → (e (start + 1 + n)).crc.next = crcBytes timestamp (min n 8)) := by
  induction n with
  | zero =>
    refine ⟨?_, fun some => absurd some (by decide)⟩
    have reset := period.reset 0 (by decide)
    have t0 := period.butisT0 0 (by decide)
    rw [Nat.add_zero] at reset t0
    rw [Nat.add_zero, trace, Encoder.clock]
    simp only [reset, t0, Bool.false_eq_true, if_false, beq_self_eq_true, if_true]
    rfl
  | succ n ih =>
    obtain ⟨count, checked⟩ := ih (by omega)
    have at' : start + 1 + n = start + (n + 1) := by omega
    have reset := period.reset (n + 1) inside
    have t0 := period.butisT0 (n + 1) inside
    have held := period.held (n + 1) inside
    rw [← at'] at reset t0 held
    have next : (e (start + 1 + (n + 1))) = (e (start + 1 + n)).clock g (inputs (start + 1 + n)) := trace _
    have off : (n + 1 == 0) = false := rfl
    have bytes : (e (start + 1 + (n + 1))).tsbytecounter = if min n 8 < 8 then min n 8 + 1 else min n 8 := by
      rw [next, Encoder.clock]
      simp only [reset, t0, off, Bool.false_eq_true, if_false, count]
    have check : (e (start + 1 + (n + 1))).crc = (e (start + 1 + n)).crcNext (inputs (start + 1 + n)) := by
      rw [next, Encoder.clock]
      simp only [reset, Bool.false_eq_true, if_false]
    refine ⟨?_, fun _ => ?_⟩
    · rw [bytes]
      split_ifs <;> omega
    · rw [check, Crc8.next, Encoder.crcNext]
      simp only [reset, t0, off, held, count, Bool.not_false, Bool.true_and, Bool.or_self, Bool.false_eq_true, if_false,
        decide_eq_true_eq, beq_iff_eq]
      by_cases more : n < 8
      · have here : min n 8 = n := by omega
        have there : min (n + 1) 8 = n + 1 := by omega
        rw [here, there, if_pos more, if_pos more, crcBytes]
        cases n with
        | zero => rfl
        | succ n =>
          rw [if_neg (Nat.succ_ne_zero n), checked (by omega), here]
      · have here : min n 8 = 8 := by omega
        have there : min (n + 1) 8 = 8 := by omega
        rw [here, there, if_neg (by decide), checked (by omega), here]

theorem crc_ready (trace : ∀ t, e (t + 1) = (e t).clock g (inputs t)) (period : Period inputs start timestamp) {n : Nat}
    (late : 10 ≤ n) (inside : n < 2000) : (e (start + n)).crc.crcR = crcBytes timestamp 8 := by
  obtain ⟨m, rfl⟩ : ∃ m, n = m + 2 := ⟨n - 2, by omega⟩
  have reset := period.reset (m + 1) (by omega)
  have checked := (crc_counts trace period (n := m) (by omega)).2 (by omega)
  rw [Nat.min_eq_right (by omega)] at checked
  have next : e (start + (m + 2)) = (e (start + (m + 1))).clock g (inputs (start + (m + 1))) := trace _
  have at' : start + (m + 1) = start + 1 + m := by omega
  rw [next, Encoder.clock]
  simp only [reset, Bool.false_eq_true, if_false]
  rw [Encoder.crcNext, at', ← checked]
  simp only [← at', reset, Bool.false_eq_true, if_false]

variable {i : Inputs}

theorem clock_serialize {e : Encoder} (reset : i.reset = false) (t0 : i.butisT0 = false) :
    (e.clock g i).mode = (e.serialize g i).mode ∧ (e.clock g i).serial = (e.serialize g i).serial ∧
      (e.clock g i).clockcounter = (e.serialize g i).clockcounter ∧ (e.clock g i).bitcounter =
      (e.serialize g i).bitcounter ∧
      (e.clock g i).bytecounter = (e.serialize g i).bytecounter ∧ (e.clock g i).butisT0 = false := by
  rw [Encoder.clock]
  simp only [reset, t0, Bool.false_eq_true, if_false, and_self]

variable {k c : Nat}

theorem Sends.bit {e : Encoder} (sends : Sends timestamp k c e) (short : k < 80) (late : 1 ≤ k ∨ 1 ≤ c)
    (held : i.timestampOnNextT0 = timestamp) (ready : 72 ≤ k → e.crc.crcR = crcBytes timestamp 8) :
    (if c = 0 then (if k < 8 then !e.serial else e.serialBit i) else e.serial) = code timestamp k := by
  have serial := sends.serial
  by_cases first : c = 0
  · rw [if_pos first] at serial ⊢
    by_cases startByte : k < 8
    · rw [if_pos startByte, serial, code, code, if_pos startByte, if_pos (by omega)]
      have some : 1 ≤ k := by omega
      obtain ⟨m, rfl⟩ : ∃ m, k = m + 1 := ⟨k - 1, by omega⟩
      rw [Nat.add_sub_cancel]
      rcases Nat.mod_two_eq_zero_or_one m with even | odd
      · rw [even, Nat.add_mod, even]
        rfl
      · rw [odd, Nat.add_mod, odd]
        rfl
    · rw [if_neg startByte, Encoder.serialBit, sends.bytecounter, sends.bitcounter, held, code, if_neg startByte]
      by_cases data : k < 72
      · rw [if_pos data, if_pos (by omega)]
        congr 1
        omega
      · rw [if_neg data, if_neg (by omega), ready (by omega)]
        congr 1
        omega
  · rw [if_neg first] at serial ⊢
    exact serial

theorem Sends.step {e : Encoder} (sends : Sends timestamp k c e) (short : k < 80) (late : 1 ≤ k ∨ 1 ≤ c)
    (inside : c + 1 < g) (reset : i.reset = false) (t0 : i.butisT0 = false) (held : i.timestampOnNextT0 = timestamp)
    (ready : 72 ≤ k → e.crc.crcR = crcBytes timestamp 8) : Sends timestamp k (c + 1) (e.clock g i) := by
  have bit := sends.bit short late held ready
  have off : (i.butisT0 && !e.butisT0) = false := by rw [t0]; rfl
  have more : c < g - 1 := by omega
  obtain ⟨mode, serial, clockcounter, bitcounter, bytecounter, _⟩ := clock_serialize (g := g) (e := e) reset t0
  have was := sends.mode
  by_cases startByte : k < 8
  · rw [if_pos startByte] at was bit
    have serialized : e.serialize g i = { e with
        serial := if c = 0 then !e.serial else e.serial, clockcounter := c + 1,
        mode := .startByte, bytecounter := 0 } := by
      rw [Encoder.serialize, off, was, sends.clockcounter]
      simp only [more, Bool.false_eq_true, if_false, if_true, true_or]
    rw [serialized] at mode serial clockcounter bitcounter bytecounter
    refine ⟨?_, clockcounter, bitcounter.trans sends.bitcounter, ?_, ?_⟩
    · rw [mode, if_pos startByte]
    · rw [bytecounter]
      show 0 = k / 8 - 1
      omega
    · rw [serial, if_neg (Nat.succ_ne_zero c)]
      exact bit
  · rw [if_neg startByte] at was bit
    have serialized : e.serialize g i = { e with
        serial := if c = 0 then e.serialBit i else e.serial, clockcounter := c + 1, mode := .par2Ser } := by
      rw [Encoder.serialize, off, was, sends.clockcounter]
      simp only [more, Bool.false_eq_true, if_false, if_true, true_or]
    rw [serialized] at mode serial clockcounter bitcounter bytecounter
    refine ⟨?_, clockcounter, bitcounter.trans sends.bitcounter, bytecounter.trans sends.bytecounter, ?_⟩
    · rw [mode, if_neg startByte]
    · rw [serial, if_neg (Nat.succ_ne_zero c)]
      exact bit

theorem Sends.bit_step {e : Encoder} (sends : Sends timestamp k c e) (short : k < 79) (last : c + 1 = g)
    (some : 1 ≤ c) (reset : i.reset = false) (t0 : i.butisT0 = false) : Sends timestamp (k + 1) 0 (e.clock g i) := by
  have off : (i.butisT0 && !e.butisT0) = false := by rw [t0]; rfl
  have ends : ¬c < g - 1 := by omega
  obtain ⟨mode, serial, clockcounter, bitcounter, bytecounter, _⟩ := clock_serialize (g := g) (e := e) reset t0
  have was := sends.mode
  have bit : e.serial = code timestamp k := by
    rw [sends.serial, if_neg (by omega)]
  by_cases startByte : k < 8
  · rw [if_pos startByte] at was
    have serialized : e.serialize g i = { e with
        clockcounter := 0, bitcounter := if k % 8 < 7 then k % 8 + 1 else 0
        mode := if k % 8 < 7 then .startByte else .par2Ser, bytecounter := 0 } := by
      rw [Encoder.serialize, off, was, sends.clockcounter, sends.bitcounter]
      simp only [ends, Bool.false_eq_true, if_false, false_or, show ¬c = 0 by omega]
    rw [serialized] at mode serial clockcounter bitcounter bytecounter
    refine ⟨?_, clockcounter, ?_, ?_, ?_⟩
    · rw [mode]
      show (if k % 8 < 7 then EncoderMode.startByte else .par2Ser) = _
      by_cases more : k + 1 < 8
      · rw [if_pos more, if_pos (by omega)]
      · rw [if_neg more, if_neg (by omega)]
    · rw [bitcounter]
      show (if k % 8 < 7 then k % 8 + 1 else 0) = _
      split_ifs <;> omega
    · rw [bytecounter]
      show 0 = (k + 1) / 8 - 1
      omega
    · rw [serial]
      exact bit
  · rw [if_neg startByte] at was
    have serialized : e.serialize g i = { e with
        clockcounter := 0, bitcounter := if k % 8 < 7 then k % 8 + 1 else 0
        mode := if k % 8 < 7 ∨ k / 8 - 1 < 8 then .par2Ser else .nextTimestamp
        bytecounter := if k % 8 < 7 then k / 8 - 1 else if k / 8 - 1 < 8 then k / 8 - 1 + 1 else 0 } := by
      rw [Encoder.serialize, off, was, sends.clockcounter, sends.bitcounter, sends.bytecounter]
      simp only [ends, Bool.false_eq_true, if_false, false_or, show ¬c = 0 by omega]
    rw [serialized] at mode serial clockcounter bitcounter bytecounter
    refine ⟨?_, clockcounter, ?_, ?_, ?_⟩
    · rw [mode]
      show (if k % 8 < 7 ∨ k / 8 - 1 < 8 then EncoderMode.par2Ser else .nextTimestamp) = _
      have later : ¬k + 1 < 8 := by omega
      have more : k % 8 < 7 ∨ k / 8 - 1 < 8 := by omega
      rw [if_pos more, if_neg later]
    · rw [bitcounter]
      show (if k % 8 < 7 then k % 8 + 1 else 0) = _
      split_ifs <;> omega
    · rw [bytecounter]
      show (if k % 8 < 7 then k / 8 - 1 else if k / 8 - 1 < 8 then k / 8 - 1 + 1 else 0) = (k + 1) / 8 - 1
      split_ifs <;> omega
    · rw [serial]
      exact bit

theorem Sends.ends {c : Nat} {e : Encoder} (sends : Sends timestamp 79 c e) (last : c + 1 = g)
    (some : 1 ≤ c) (reset : i.reset = false) (t0 : i.butisT0 = false) :
    (e.clock g i).mode = .nextTimestamp ∧ (e.clock g i).serial = code timestamp 79 := by
  have off : (i.butisT0 && !e.butisT0) = false := by rw [t0]; rfl
  have ends : ¬c < g - 1 := by omega
  obtain ⟨mode, serial, _⟩ := clock_serialize (g := g) (e := e) reset t0
  have was : e.mode = .par2Ser := sends.mode
  have serialized : e.serialize g i = { e with
      clockcounter := 0, bitcounter := 0, mode := .nextTimestamp, bytecounter := 0 } := by
    rw [Encoder.serialize, off, was, sends.clockcounter, sends.bitcounter, sends.bytecounter]
    simp only [ends, Bool.false_eq_true, if_false, show ¬c = 0 by omega]
    rfl
  rw [serialized] at mode serial
  refine ⟨mode, serial.trans ?_⟩
  show e.serial = _
  rw [sends.serial, if_neg (by omega)]

theorem Silent.sends {e : Encoder} (silent : Silent e) (reset : i.reset = false) (t0 : i.butisT0 = true) :
    Sends timestamp 0 1 (e.clock g i) := by
  have on : (i.butisT0 && !e.butisT0) = true := by rw [t0, silent.butisT0]; rfl
  have serialized : e.serialize g i = { e with
      mode := .startByte, clockcounter := 1, bitcounter := 0, bytecounter := 0, serial := true } := by
    rw [Encoder.serialize, on]
    rfl
  rw [Encoder.clock]
  simp only [reset, Bool.false_eq_true, if_false, serialized]
  exact ⟨rfl, rfl, rfl, rfl, rfl⟩

section
variable (trace : ∀ t, e (t + 1) = (e t).clock g (inputs t))
include trace

theorem sends_at (period : Period inputs start timestamp) (silent : Silent (e start))
    (two : 2 ≤ g) (fits : g ≤ 18) {k : Nat} (short : k < 80) :
    ∀ c < g, 1 ≤ k ∨ 1 ≤ c → Sends timestamp k c (e (start + (k * g + c))) := by
  have within : (k : Nat) → k < 80 → k * g + g ≤ 1440 := fun k short => by
    calc k * g + g = (k + 1) * g := (Nat.succ_mul k g).symm
      _ ≤ 80 * 18 := Nat.mul_le_mul short fits
  have quiet : ∀ n, 0 < n → n < 2000 → (inputs (start + n)).butisT0 = false := fun n some inside => by
    rw [period.butisT0 n inside]
    exact beq_eq_false_iff_ne.mpr some.ne'
  have up : ∀ k < 80, ∀ c, c + 1 < g → 1 ≤ k ∨ 1 ≤ c → Sends timestamp k c (e (start + (k * g + c))) →
      Sends timestamp k (c + 1) (e (start + (k * g + (c + 1)))) := by
    intro k short c inside late sends
    have bound := within k short
    have positive : 0 < k * g + c := by
      rcases late with late | late
      · have := Nat.mul_pos late (show 0 < g by omega)
        omega
      · omega
    have next : e (start + (k * g + (c + 1))) = (e (start + (k * g + c))).clock g
      (inputs (start + (k * g + c))) := trace _
    rw [next]
    refine sends.step short late inside (period.reset _ (by omega)) (quiet _ positive (by omega))
      (period.held _ (by omega)) ?_
    intro check
    have far : 72 * 2 ≤ k * g := Nat.mul_le_mul check two
    exact crc_ready trace period (by omega) (by omega)
  induction k with
  | zero =>
    intro c inside late
    induction c with
    | zero => exact absurd late (by omega)
    | succ c ih =>
      by_cases first : c = 0
      · subst first
        have next : e (start + (0 * g + (0 + 1))) = (e start).clock g (inputs start) := by
          rw [Nat.zero_mul]
          exact trace start
        rw [next]
        exact silent.sends (period.reset 0 (by decide)) (period.butisT0 0 (by decide))
      · exact up 0 short c inside (by omega) (ih (by omega) (by omega))
  | succ k ih =>
    intro c inside _
    induction c with
    | zero =>
      have bound := within k (by omega)
      have sends := ih (by omega) (g - 1) (by omega) (by omega)
      have same : start + ((k + 1) * g + 0) = start + (k * g + (g - 1)) + 1 := by
        rw [Nat.succ_mul]
        omega
      rw [same, trace]
      exact sends.bit_step (by omega) (by omega) (by omega) (period.reset _ (by omega)) (quiet _ (by omega) (by omega))
    | succ c ihc => exact up (k + 1) short c inside (by omega) (ihc (by omega) (by omega))

theorem serial_bit (period : Period inputs start timestamp) (silent : Silent (e start))
    (two : 2 ≤ g) (fits : g ≤ 18) (short : k < 80) (inside : c < g) :
    (e (start + (k * g + c) + 1)).serial = code timestamp k := by
  by_cases last : c + 1 = g
  · have bound : k * g + g ≤ 80 * 18 := by
      rw [← Nat.succ_mul]
      exact Nat.mul_le_mul short fits
    by_cases final : k = 79
    · subst final
      have sends := sends_at trace period silent two fits short c inside (by omega)
      rw [trace]
      refine (sends.ends last (by omega) (period.reset _ (by omega)) ?_).2
      rw [period.butisT0 _ (by omega)]
      exact beq_eq_false_iff_ne.mpr (by omega)
    · have sends := sends_at trace period silent two fits (k := k + 1) (by omega) 0 (by omega) (by omega)
      have same : start + (k * g + c) + 1 = start + ((k + 1) * g + 0) := by
        rw [Nat.succ_mul]
        omega
      rw [same, sends.serial]
      rfl
  · have sends := sends_at trace period silent two fits short (c + 1) (by omega) (by omega)
    exact sends.serial

theorem serial_gap (period : Period inputs start timestamp) (silent : Silent (e start))
    (two : 2 ≤ g) (fits : g ≤ 18) {n : Nat} (late : 80 * g < n) (inside : n ≤ 2000) : Silent (e (start + n)) := by
  have bound : 80 * g ≤ 80 * 18 := Nat.mul_le_mul_left 80 fits
  have quiet : ∀ n, 0 < n → n < 2000 → (inputs (start + n)).butisT0 = false := fun n some inside => by
    rw [period.butisT0 n inside]
    exact beq_eq_false_iff_ne.mpr some.ne'
  have waits : ∀ n, 80 * g ≤ n → n ≤ 2000 → (e (start + n)).mode = .nextTimestamp := by
    intro n late inside
    induction n, late using Nat.le_induction with
    | base =>
      have sends := sends_at trace period silent two fits (k := 79) (by decide) (g - 1) (by omega) (by omega)
      have same : start + 80 * g = start + (79 * g + (g - 1)) + 1 := by omega
      rw [same, trace]
      exact (sends.ends (by omega) (by omega) (period.reset _ (by omega)) (quiet _ (by omega) (by omega))).1
    | succ n late ih =>
      have mode := ih (by omega)
      obtain ⟨next, _⟩ :=
        clock_serialize (g := g) (e := e (start + n)) (period.reset n (by omega)) (quiet n (by omega) (by omega))
      have off : ((inputs (start + n)).butisT0 && !(e (start + n)).butisT0) = false := by
        rw [quiet n (by omega) (by omega)]
        rfl
      rw [← Nat.add_assoc, trace, next, Encoder.serialize, off, mode]
      rfl
  obtain ⟨m, rfl⟩ : ∃ m, n = m + 1 := ⟨n - 1, by omega⟩
  have mode := waits m (by omega) (by omega)
  obtain ⟨_, serial, _, _, _, t0⟩ :=
    clock_serialize (g := g) (e := e (start + m)) (period.reset m (by omega)) (quiet m (by omega) (by omega))
  have off : ((inputs (start + m)).butisT0 && !(e (start + m)).butisT0) = false := by
    rw [quiet m (by omega) (by omega)]
    rfl
  refine ⟨waits (m + 1) (by omega) inside, ?_, ?_⟩
  · rw [← Nat.add_assoc, trace, serial, Encoder.serialize, off, mode]
    rfl
  · rw [← Nat.add_assoc, trace]
    exact t0

end

end BelProject.Butis.Burst
