import BelProject.Butis.Burst

/-! What the decoder makes of one period of the serial line. It samples each bit in the middle
of its clocks, counted from the first edge. -/

namespace BelProject.Butis.Reception
open Timestamp Burst
open Library.Bits (setBit getLsbD_setBit)
open Decoder (convert crcNext detects endsByte modeNext samples)

/-- The serial line in a period of 2000 clocks, without a reset. -/
structure Line (g : Nat) (serial reset : Nat → Bool) (start : Nat) (timestamp : BitVec 64) : Prop where
  reset : ∀ n < 2000, reset (start + n) = false
  before : serial start = false
  bits : ∀ k < 80, ∀ c < g, serial (start + (k * g + c) + 1) = code timestamp k
  gap : ∀ n, 80 * g < n → n ≤ 2000 → serial (start + n) = false

/-- The decoder between the bursts. -/
structure Waits (d : Decoder) : Prop where
  mode : d.mode = .waitForSignal
  serial1 : d.serial1 = false
  serial2 : d.serial2 = false

/-- The bits that are sampled after clock c of bit k has begun. -/
def sampled (g k c : Nat) : Nat := if g / 2 ≤ c then k + 1 else k

/-- The decoder in clock c of bit k. -/
structure Receives (g : Nat) (timestamp : BitVec 64) (k c : Nat) (d : Decoder) : Prop where
  mode : d.mode = .ser2Par
  clockcounter : d.clockcounter = c
  bitcounter : d.bitcounter = k % 8
  bytecounter : d.bytecounter = k / 8
  received : ∀ m, 8 ≤ m → m < 72 → m < sampled g k c → d.timestampRec.getLsbD (71 - m) = timestamp.getLsbD (71 - m)
  byte : ∀ m, 8 * (k / 8) ≤ m → m < sampled g k c → d.crc.data.getLsbD (7 - m % 8) = code timestamp m
  check : 16 ≤ k → d.crc.next = crcBytes timestamp (k / 8 - 1)

def word (bits : Nat → Bool) (first : Nat) : (n : Nat) → BitVec n
  | 0 => 0
  | n + 1 => (word bits first n).concat (bits (first + n))

/-- The decoder in clock c of bit k of any burst. -/
structure Takes (g : Nat) (bits : Nat → Bool) (k c : Nat) (d : Decoder) : Prop where
  mode : d.mode = .ser2Par
  clockcounter : d.clockcounter = c
  bitcounter : d.bitcounter = k % 8
  bytecounter : d.bytecounter = k / 8
  received : ∀ m, 8 ≤ m → m < 72 → m < sampled g k c → d.timestampRec.getLsbD (71 - m) = bits m
  byte : ∀ m, 8 * (k / 8) ≤ m → m < sampled g k c → d.crc.data.getLsbD (7 - m % 8) = bits m
  check : 16 ≤ k → d.crc.next = crcBytes (word bits 8 64) (k / 8 - 1)

variable {bits : Nat → Bool} {g precision start : Nat} {serial reset : Nat → Bool}
  {timestamp : BitVec 64} {d : Nat → Decoder}

theorem getLsbD_word (first : Nat) {n j : Nat} (bits : Nat → Bool) (inside : j < n) :
    (word bits first n).getLsbD j = bits (first + n - 1 - j) := by
  induction n generalizing j with
  | zero => exact absurd inside (Nat.not_lt_zero j)
  | succ n ih =>
    rw [word, BitVec.getLsbD_concat]
    cases j with
    | zero => rfl
    | succ j =>
      rw [if_neg (Nat.succ_ne_zero j), Nat.add_sub_cancel, ih (by omega)]
      congr 1
      omega

theorem Takes.step {k c : Nat} {d : Decoder} {line : Bool} (takes : Takes g bits k c d) (short : k < 80)
    (inside : c + 1 < g)
    (bit : c + 1 = g / 2 → d.serial1 = bits k) : Takes g bits k (c + 1) (d.clock g precision false line) := by
  have more : d.clockcounter < g - 1 := by
    rw [takes.clockcounter]
    omega
  have inside' : d.endsByte g = false := by
    rw [endsByte, decide_eq_true more, Bool.not_true, Bool.and_false, Bool.false_and]
  have samples : d.samples g = decide (c + 1 = g / 2) := by
    rw [samples, takes.mode, decide_eq_true more, takes.clockcounter]
    rfl
  have convert : d.convert g = (c + 1, k % 8, k / 8, 0) := by
    rw [convert, takes.mode]
    simp only [takes.clockcounter, takes.bitcounter, takes.bytecounter]
    exact if_pos (by omega)
  have crc : (d.clock g precision false line).crc = d.crcNext g false := rfl
  have data : (d.clock g precision false line).crc.data =
      if c + 1 = g / 2 then setBit d.crc.data (7 - k % 8) (bits k) else d.crc.data := by
    rw [crc, crcNext, samples, takes.bitcounter]
    by_cases middle : c + 1 = g / 2
    · rw [decide_eq_true middle, if_pos middle, bit middle]
      rfl
    · rw [decide_eq_false middle, if_neg middle]
      rfl
  have record : (d.clock g precision false line).timestampRec =
      if c + 1 = g / 2 ∧ 0 < k / 8 ∧ k / 8 < 9 then setBit d.timestampRec (63 - (k / 8 - 1) * 8 - k % 8) (bits k)
      else d.timestampRec := by
    show (if d.samples g && decide (0 < d.bytecounter) && decide (d.bytecounter < 9) then _ else _) = _
    rw [samples, takes.bytecounter, takes.bitcounter]
    simp only [Bool.and_eq_true, decide_eq_true_eq, and_assoc]
    by_cases middle : c + 1 = g / 2
    · rw [bit middle]
    · rw [if_neg (fun all => middle all.1), if_neg (fun all => middle all.1)]
  refine ⟨?_, ?_, ?_, ?_, ?_, ?_, ?_⟩
  · show d.modeNext g = _
    rw [modeNext, takes.mode, inside']
    rfl
  · exact congrArg (·.1) convert
  · exact congrArg (·.2.1) convert
  · exact congrArg (·.2.2.1) convert
  · intro m first last less
    rw [record]
    by_cases middle : c + 1 = g / 2
    · rw [sampled, if_pos (by omega)] at less
      by_cases own : m = k
      · subst own
        rw [if_pos ⟨middle, by omega, by omega⟩, getLsbD_setBit _ (by omega), if_pos (by omega)]
      · have old := takes.received m first last (by rw [sampled]; split_ifs <;> omega)
        split_ifs with writes
        · rw [getLsbD_setBit _ (by omega), if_neg (by omega)]
          exact old
        · exact old
    · rw [if_neg (fun both => middle both.1)]
      apply takes.received m first last
      rw [sampled] at less ⊢
      split_ifs at less ⊢ <;> omega
  · intro m first less
    rw [data]
    by_cases middle : c + 1 = g / 2
    · rw [sampled, if_pos (by omega)] at less
      rw [if_pos middle, getLsbD_setBit _ (by omega)]
      by_cases own : m = k
      · rw [own, if_pos rfl]
      · rw [if_neg (by omega)]
        apply takes.byte m first
        rw [sampled]
        split_ifs <;> omega
    · rw [if_neg middle]
      apply takes.byte m first
      rw [sampled] at less ⊢
      split_ifs at less ⊢ <;> omega
  · intro late
    rw [crc, Crc8.next, crcNext, inside']
    simp only [Bool.not_false, Bool.true_and, Bool.false_and, Bool.false_eq_true, if_false]
    exact takes.check late

theorem Takes.whole {b : Nat} {d : Decoder} (takes : Takes g bits (8 * b + 7) (g - 1) d) (two : 2 ≤ g)
    (some : 1 ≤ b) (data : b ≤ 8) :
    d.crc.data = byteOf (word bits 8 64) (b - 1) := by
  apply BitVec.eq_of_getLsbD_eq
  intro j inside
  have bit := takes.byte (8 * b + 7 - j) (by omega) (by rw [sampled, if_pos (by omega)]; omega)
  rw [show 7 - (8 * b + 7 - j) % 8 = j by omega] at bit
  rw [bit, byteOf, BitVec.getLsbD_extractLsb', getLsbD_word _ _ (by omega)]
  simp only [inside, decide_true, Bool.true_and]
  congr 1
  omega

theorem Takes.bit_step {k : Nat} {d : Decoder} {line : Bool} (takes : Takes g bits k (g - 1) d)
    (two : 2 ≤ g) (short : k < 79) :
    Takes g bits (k + 1) 0 (d.clock g precision false line) := by
  have last : ¬d.clockcounter < g - 1 := by
    rw [takes.clockcounter]
    omega
  have ends : d.endsByte g = decide (k % 8 = 7) := by
    rw [endsByte, takes.mode, decide_eq_false last, takes.bitcounter]
    simp only [beq_self_eq_true, Bool.not_false, Bool.true_and, decide_eq_decide, ← decide_not]
    omega
  have samples : d.samples g = false := by
    rw [samples, decide_eq_false last, Bool.and_false, Bool.false_and]
  have convert : d.convert g = if k % 8 < 7 then (0, k % 8 + 1, k / 8, 0) else (0, 0, k / 8 + 1, 0) := by
    rw [convert, takes.mode]
    simp only [last, if_false, takes.bitcounter, takes.bytecounter]
    split_ifs with more few
    · rfl
    · rfl
    · omega
  have crc : (d.clock g precision false line).crc = d.crcNext g false := rfl
  have record : (d.clock g precision false line).timestampRec = d.timestampRec := by
    show (if d.samples g && decide (0 < d.bytecounter) && decide (d.bytecounter < 9) then _ else _) = _
    rw [samples]
    rfl
  have data : (d.clock g precision false line).crc.data = d.crc.data := by
    rw [crc, crcNext, samples]
    rfl
  have all : sampled g k (g - 1) = k + 1 := if_pos (by omega)
  have none : sampled g (k + 1) 0 = k + 1 := if_neg (by omega)
  refine ⟨?_, ?_, ?_, ?_, ?_, ?_, ?_⟩
  · show d.modeNext g = _
    rw [modeNext, takes.mode, ends, takes.bytecounter]
    simp only [Bool.and_eq_true, decide_eq_true_eq, Bool.not_eq_true', decide_eq_false_iff_not]
    exact if_neg (by omega)
  · refine (congrArg (·.1) convert).trans ?_
    split_ifs <;> rfl
  · refine (congrArg (·.2.1) convert).trans ?_
    split_ifs with more
    · show k % 8 + 1 = (k + 1) % 8
      omega
    · show 0 = (k + 1) % 8
      omega
  · refine (congrArg (·.2.2.1) convert).trans ?_
    split_ifs with more
    · show k / 8 = (k + 1) / 8
      omega
    · show k / 8 + 1 = (k + 1) / 8
      omega
  · intro m first final less
    rw [record]
    exact takes.received m first final (by rw [all]; rw [none] at less; exact less)
  · intro m first less
    rw [data]
    exact takes.byte m (by omega) (by rw [all]; rw [none] at less; exact less)
  · intro late
    rw [crc, Crc8.next, crcNext, ends, samples, takes.bytecounter]
    simp only [Bool.not_false, Bool.true_and, Bool.false_eq_true, if_false, Bool.and_eq_true,
      decide_eq_true_eq, beq_iff_eq, bne_iff_ne]
    by_cases full : k % 8 = 7
    · obtain ⟨b, rfl⟩ : ∃ b, k = 8 * b + 7 := ⟨k / 8, by omega⟩
      rw [show (8 * b + 7) / 8 = b by omega, show (8 * b + 7 + 1) / 8 - 1 = b by omega, if_pos ⟨⟨full, by omega⟩, by omega⟩,
        takes.whole two (by omega) (by omega)]
      obtain ⟨a, rfl⟩ : ∃ a, b = a + 1 := ⟨b - 1, by omega⟩
      rw [Nat.add_sub_cancel, crcBytes]
      by_cases first : a = 0
      · subst first
        rw [if_pos ⟨full, rfl⟩]
        rfl
      · have before := takes.check (by omega)
        rw [show (8 * (a + 1) + 7) / 8 - 1 = a by omega] at before
        rw [if_neg (fun both => first (by omega)), before]
    · rw [if_neg (fun both => full both.1.1), takes.check (by omega)]
      congr 1
      omega

/-- A burst has been read, with its check byte beside the check of its timestamp. -/
structure Read (bits : Nat → Bool) (d : Decoder) : Prop where
  mode : d.mode = .crcResult
  received : d.timestampRec = word bits 8 64
  data : d.crc.data = word bits 72 8
  crcR : d.crc.crcR = crcBytes (word bits 8 64) 8

theorem Takes.ends (precision : Nat) {d : Decoder} (line : Bool) (takes : Takes g bits 79 (g - 1) d) (two : 2 ≤ g) :
    Read bits (d.clock g precision false line) := by
  have last : ¬d.clockcounter < g - 1 := by
    rw [takes.clockcounter]
    omega
  have ends : d.endsByte g = true := by
    rw [endsByte, takes.mode, decide_eq_false last, takes.bitcounter]
    rfl
  have samples : d.samples g = false := by
    rw [samples, decide_eq_false last, Bool.and_false, Bool.false_and]
  have all : sampled g 79 (g - 1) = 80 := if_pos (by omega)
  refine ⟨?_, ?_, ?_, takes.check (by decide)⟩
  · show d.modeNext g = _
    rw [modeNext, takes.mode, ends, takes.bytecounter]
    rfl
  · show (if d.samples g && decide (0 < d.bytecounter) && decide (d.bytecounter < 9) then _ else _) = _
    rw [samples]
    apply BitVec.eq_of_getLsbD_eq
    intro j inside
    have bit := takes.received (71 - j) (by omega) (by omega) (by rw [all]; omega)
    rw [show 71 - (71 - j) = j by omega] at bit
    rw [getLsbD_word _ _ inside]
    exact bit
  · show (d.crcNext g false).data = _
    rw [crcNext, samples]
    apply BitVec.eq_of_getLsbD_eq
    intro j inside
    have bit := takes.byte (79 - j) (by omega) (by rw [all]; omega)
    rw [show 7 - (79 - j) % 8 = j by omega] at bit
    rw [getLsbD_word _ _ inside]
    exact bit

theorem Takes.first {d : Decoder} {line : Bool} (edge : d.detects = true) (two : 2 ≤ g) :
    Takes g bits 0 0 (d.clock g precision false line) := by
  rw [detects, Bool.and_eq_true, Bool.and_eq_true, beq_iff_eq, and_assoc, ← Bool.and_eq_true] at edge
  refine ⟨?_, ?_, ?_, ?_, ?_, ?_, fun late => absurd late (by decide)⟩
  · show d.modeNext g = _
    rw [modeNext, edge.1]
    exact if_pos edge.2
  · show (d.convert g).1 = _
    rw [convert, edge.1]
  · show (d.convert g).2.1 = _
    rw [convert, edge.1]
  · show (d.convert g).2.2.1 = _
    rw [convert, edge.1]
  · intro m first _ less
    rw [sampled] at less
    split_ifs at less <;> omega
  · intro m _ less
    rw [sampled, if_neg (by omega)] at less
    omega

theorem word_code : word (code timestamp) 8 64 = timestamp := by
  apply BitVec.eq_of_getLsbD_eq
  intro j inside
  rw [getLsbD_word _ _ inside, code, if_neg (by omega), if_pos (by omega)]
  congr 1
  omega

theorem check_code : word (code timestamp) 72 8 = crcBytes timestamp 8 := by
  apply BitVec.eq_of_getLsbD_eq
  intro j inside
  rw [getLsbD_word _ _ inside, code, if_neg (by omega), if_neg (by omega)]
  congr 1
  omega

theorem receives_iff {k c : Nat} {d : Decoder} : Receives g timestamp k c d ↔ Takes g (code timestamp) k c d := by
  have bit : ∀ m, 8 ≤ m → m < 72 → code timestamp m = timestamp.getLsbD (71 - m) := by
    intro m first last
    rw [code, if_neg (by omega), if_pos last]
  constructor
  · intro receives
    refine ⟨receives.mode, receives.clockcounter, receives.bitcounter, receives.bytecounter, ?_, receives.byte, ?_⟩
    · intro m first last less
      rw [bit m first last]
      exact receives.received m first last less
    · rw [word_code]
      exact receives.check
  · intro takes
    refine ⟨takes.mode, takes.clockcounter, takes.bitcounter, takes.bytecounter, ?_, takes.byte, ?_⟩
    · intro m first last less
      rw [← bit m first last]
      exact takes.received m first last less
    · have check := takes.check
      rw [word_code] at check
      exact check

structure Complete (timestamp : BitVec 64) (d : Decoder) : Prop where
  mode : d.mode = .crcResult
  received : d.timestampRec = timestamp
  valid : d.crc.data = d.crc.crcR

theorem Receives.step {k c : Nat} {d : Decoder} {line : Bool} (receives : Receives g timestamp k c d)
    (short : k < 80) (inside : c + 1 < g)
    (bit : d.serial1 = code timestamp k) : Receives g timestamp k (c + 1) (d.clock g precision false line) :=
  receives_iff.mpr ((receives_iff.mp receives).step short inside fun _ => bit)

theorem Receives.bit_step {k : Nat} {d : Decoder} {line : Bool}
    (receives : Receives g timestamp k (g - 1) d) (two : 2 ≤ g) (short : k < 79) :
    Receives g timestamp (k + 1) 0 (d.clock g precision false line) :=
  receives_iff.mpr ((receives_iff.mp receives).bit_step two short)

theorem Receives.ends {d : Decoder} {line : Bool} (receives : Receives g timestamp 79 (g - 1) d) (two : 2 ≤ g) :
    Complete timestamp (d.clock g precision false line) := by
  have read := (receives_iff.mp receives).ends precision line two
  have received := read.received
  have crcR := read.crcR
  rw [word_code] at received crcR
  exact ⟨read.mode, received, read.data.trans (check_code.trans crcR.symm)⟩

section Period

variable (trace : ∀ t, d (t + 1) = (d t).clock g precision (reset t) (serial t))
  (line : Line g serial reset start timestamp)
  (waits : Waits (d start)) (two : 2 ≤ g) (fits : g ≤ 18)

include trace line

theorem clock_at {n : Nat} (inside : n < 2000) :
    d (start + (n + 1)) = (d (start + n)).clock g precision false (serial (start + n)) := by
  rw [← line.reset n inside]
  exact trace (start + n)

theorem serial1_at {n : Nat} (inside : n < 2000) : (d (start + (n + 1))).serial1 = serial (start + n) := by
  rw [clock_at trace line inside]
  rfl

theorem serial2_at {n : Nat} (inside : n < 2000) : (d (start + (n + 1))).serial2 = (d (start + n)).serial1 := by
  rw [clock_at trace line inside]
  rfl

include waits

theorem waits_first : (d (start + 1)).mode = .waitForSignal ∧ (d (start + 1)).serial1 = false ∧
    (d (start + 2)).mode = .waitForSignal := by
  have mode : (d (start + 1)).mode = .waitForSignal := by
    rw [clock_at trace line (n := 0) (by decide)]
    show (d start).modeNext g = _
    rw [modeNext, waits.mode, waits.serial1]
    rfl
  have serial1 : (d (start + 1)).serial1 = false := (serial1_at trace line (n := 0) (by decide)).trans line.before
  refine ⟨mode, serial1, ?_⟩
  rw [clock_at trace line (n := 1) (by decide)]
  show (d (start + 1)).modeNext g = _
  rw [modeNext, mode, serial1]
  rfl

include two

theorem detects_edge : (d (start + 2)).detects = true := by
  obtain ⟨_, low, mode⟩ := waits_first trace line waits
  have bit := line.bits 0 (by decide) 0 (by omega)
  rw [Nat.zero_mul, code, if_pos (by decide)] at bit
  rw [detects, mode, serial1_at trace line (n := 1) (by decide), serial2_at trace line (n := 1) (by decide), low, bit]
  rfl

include fits

theorem receives_at {k : Nat} (short : k < 80) : ∀ c < g, Receives g timestamp k c (d (start + (3 + (k * g + c)))) := by
  have within : (k : Nat) → k < 80 → k * g + g ≤ 1440 := fun k short => by
    calc k * g + g = (k + 1) * g := (Nat.succ_mul k g).symm
      _ ≤ 80 * 18 := Nat.mul_le_mul short fits
  have up : ∀ k < 80, ∀ c, c + 1 < g → Receives g timestamp k c (d (start + (3 + (k * g + c)))) →
      Receives g timestamp k (c + 1) (d (start + (3 + (k * g + (c + 1))))) := by
    intro k short c inside receives
    have bound := within k short
    have bit : (d (start + (3 + (k * g + c)))).serial1 = code timestamp k := by
      have here := serial1_at trace line (n := 2 + (k * g + c)) (by omega)
      rw [show start + (2 + (k * g + c)) = start + (k * g + (c + 1)) +
        1 by omega, line.bits k short (c + 1) inside] at here
      rw [show 3 + (k * g + c) = 2 + (k * g + c) + 1 by omega]
      exact here
    rw [show 3 + (k * g + (c + 1)) = 3 + (k * g + c) + 1 by omega, clock_at trace line (by omega)]
    exact receives.step short inside bit
  induction k with
  | zero =>
    intro c inside
    induction c with
    | zero =>
      have edge := detects_edge trace line waits two
      have next : d (start + (3 + (0 * g + 0))) = (d (start + 2)).clock g precision false (serial (start + 2)) := by
        rw [Nat.zero_mul]
        exact clock_at trace line (n := 2) (by decide)
      rw [next]
      exact receives_iff.mpr (Takes.first edge two)
    | succ c ih => exact up 0 short c inside (ih (by omega))
  | succ k ih =>
    intro c inside
    induction c with
    | zero =>
      have bound := within k (by omega)
      have receives := ih (by omega) (g - 1) (by omega)
      have same : 3 + ((k + 1) * g + 0) = 3 + (k * g + (g - 1)) + 1 := by
        rw [Nat.succ_mul]
        omega
      rw [same, clock_at trace line (by omega)]
      exact receives.bit_step two (by omega)
    | succ c ihc => exact up (k + 1) short c inside (ihc (by omega))

theorem complete_at : Complete timestamp (d (start + (3 + 80 * g))) := by
  have receives := receives_at trace line waits two fits (k := 79) (by decide) (g - 1) (by omega)
  have same : 3 + 80 * g = 3 + (79 * g + (g - 1)) + 1 := by omega
  rw [same, clock_at trace line (by omega)]
  exact receives.ends two

end Period

end BelProject.Butis.Reception
