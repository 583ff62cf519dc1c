import BelProject.Butis.Reception
import BelProject.Library.Traces

/-! The encoder and the decoder together, T0 after T0. -/

namespace BelProject.Butis.RoundTrip
open Timestamp Burst Reception Library.Traces

def encoder (g : Nat) (inputs : Nat → Inputs) : Nat → Encoder :=
  trace (fun e i => e.clock g i) .powerUp inputs

/-- The clocks of a decoder, each with its reset and the serial line. -/
def received (g precision : Nat) (lines : Nat → Bool × Bool) : Nat → Decoder :=
  trace (fun d line => d.clock g precision line.1 line.2) .powerUp lines

def decoder (g precision : Nat) (inputs : Nat → Inputs) : Nat → Decoder :=
  received g precision fun t => ((inputs t).reset, (encoder g inputs t).serial)

/-- T0 comes for one clock in 2000 from some time on, each time with a timestamp to be sent. Before
the first T0 there may be a reset. -/
structure Feeds (inputs : Nat → Inputs) (first : Nat) (stamps : Nat → BitVec 64) : Prop where
  before : ∀ t < first, (inputs t).butisT0 = false
  period : ∀ p, Period inputs (first + 2000 * p) (stamps p)

/-- The decoder before a T0, when it has received a timestamp in the period before. -/
structure Locked (timestamp : BitVec 64) (d : Decoder) : Prop where
  waits : Waits d
  received : d.timestampRec = timestamp
  error : d.error = false
  nosignal : d.errorNosignal = false
  ratio : d.ratiocounter = 1997

theorem timestamp_clock {g precision : Nat} {d : Decoder} {serial : Bool} :
    (d.clock g precision false serial).timestamp = if d.detects && !d.error then d.timestampRec + 10
      else d.timestamp + 5 := by
  have same : ({ d with butisT0 := false } : Decoder).detects = d.detects := rfl
  show (d.count false).timestamp = _
  simp only [Decoder.count, Bool.false_eq_true, if_false, apply_ite Decoder.timestamp]
  rw [same]
  cases d.detects with
  | true => cases d.error <;> rfl
  | false => rfl

section Period

variable {g precision start : Nat} {serial reset : Nat → Bool} {timestamp : BitVec 64} {d : Nat → Decoder}
  (trace : ∀ t, d (t + 1) = (d t).clock g precision (reset t) (serial t)) (line : Line g serial reset start timestamp)
  (waits : Waits (d start)) (two : 2 ≤ g) (fits : g ≤ 18)

include trace line waits two fits

theorem rests_at {n : Nat} (late : 4 + 80 * g ≤ n) (inside : n ≤ 2000) :
    (d (start + n)).timestampRec = timestamp ∧ (d (start + n)).error = false ∧
      (if n ≤ 504 + 80 * g then (d (start + n)).mode = .waitForZeros ∧ (d (start + n)).zeroscounter = n - (4 + 80 * g)
        else (d (start + n)).mode = .waitForSignal) := by
  have bound : 80 * g ≤ 80 * 18 := Nat.mul_le_mul_left 80 fits
  induction n, late using Nat.le_induction with
  | base =>
    have complete := complete_at trace line waits two fits
    have next : d (start + (4 + 80 * g)) = (d (start + (3 + 80 * g))).clock g precision false
      (serial (start + (3 + 80 * g))) := by
      rw [show 4 + 80 * g = 3 + 80 * g + 1 by omega]
      exact clock_at trace line (by omega)
    have off : (d (start + (3 + 80 * g))).samples g = false := by
      rw [Decoder.samples, complete.mode]
      rfl
    rw [next, if_pos (by omega)]
    refine ⟨?_, ?_, ?_, ?_⟩
    · show (if (d (start + (3 + 80 * g))).samples g && _ && _ then _ else _) = _
      rw [off]
      exact complete.received
    · show (if (d (start + (3 + 80 * g))).mode = .crcResult then _ else _) = _
      rw [if_pos complete.mode, complete.valid]
      exact bne_self_eq_false _
    · show (d (start + (3 + 80 * g))).modeNext g = _
      rw [Decoder.modeNext, complete.mode]
    · show ((d (start + (3 + 80 * g))).convert g).2.2.2 = _
      rw [Decoder.convert, complete.mode]
      exact (Nat.sub_self _).symm
  | succ n late ih =>
    obtain ⟨received, error, place⟩ := ih (by omega)
    have low : (d (start + n)).serial1 = false := by
      obtain ⟨m, rfl⟩ : ∃ m, n = m + 1 := ⟨n - 1, by omega⟩
      rw [serial1_at trace line (by omega)]
      exact line.gap m (by omega) (by omega)
    have mode : (d (start + n)).mode = .waitForZeros ∨ (d (start + n)).mode = .waitForSignal := by
      split_ifs at place
      · exact Or.inl place.1
      · exact Or.inr place
    have off : (d (start + n)).samples g = false := by
      rw [Decoder.samples]
      rcases mode with mode | mode
      · rw [mode]; rfl
      · rw [mode]; rfl
    have other : (d (start + n)).mode ≠ .crcResult := by
      rcases mode with mode | mode
      · rw [mode]; exact DecoderMode.noConfusion
      · rw [mode]; exact DecoderMode.noConfusion
    rw [clock_at trace line (by omega)]
    refine ⟨?_, ?_, ?_⟩
    · show (if (d (start + n)).samples g && _ && _ then _ else _) = _
      rw [off]
      exact received
    · show (if (d (start + n)).mode = .crcResult then _ else _) = _
      rw [if_neg other]
      exact error
    · show if n + 1 ≤ 504 + 80 * g then (d (start + n)).modeNext g = _ ∧
        ((d (start + n)).convert g).2.2.2 = _ else (d (start + n)).modeNext g = _
      by_cases counting : n ≤ 504 + 80 * g
      · rw [if_pos counting] at place
        obtain ⟨zeros, count⟩ := place
        rw [Decoder.modeNext, Decoder.convert, zeros, low, count]
        by_cases more : n + 1 ≤ 504 + 80 * g
        · rw [if_pos more]
          have few : n - (4 + 80 * g) < 500 := by omega
          simp only [few, decide_true, Bool.not_true, Bool.and_false, Bool.false_eq_true, if_false, if_true, true_and]
          omega
        · rw [if_neg more]
          have many : ¬n - (4 + 80 * g) < 500 := by omega
          simp only [many, decide_false, Bool.not_false, Bool.and_true, if_true]
      · rw [if_neg counting] at place
        rw [if_neg (by omega), Decoder.modeNext, place, low]
        rfl

theorem detects_none {n : Nat} (late : 3 ≤ n) (inside : n ≤ 2000) : (d (start + n)).detects = false := by
  have bound : 80 * g ≤ 80 * 18 := Nat.mul_le_mul_left 80 fits
  rw [Decoder.detects]
  by_cases sending : n < 3 + 80 * g
  · have receives :=
      receives_at trace line waits two fits (k := (n - 3) / g) (Nat.div_lt_of_lt_mul (by rw [Nat.mul_comm]; omega))
      ((n - 3) % g) (Nat.mod_lt _ (by omega))
    rw [show 3 + ((n - 3) / g * g + (n - 3) % g) = n by rw [Nat.div_add_mod']; omega] at receives
    rw [receives.mode]
    rfl
  · by_cases check : n = 3 + 80 * g
    · rw [check, (complete_at trace line waits two fits).mode]
      rfl
    · obtain ⟨m, rfl⟩ : ∃ m, n = m + 1 := ⟨n - 1, by omega⟩
      rw [serial1_at trace line (by omega), line.gap m (by omega) (by omega), Bool.and_false, Bool.false_and]

theorem error_at (clean : (d start).error = false) {n : Nat} (inside : n ≤ 2000) : (d (start + n)).error = false := by
  by_cases rest : 4 + 80 * g ≤ n
  · exact (rests_at trace line waits two fits rest inside).2.1
  · induction n with
    | zero => exact clean
    | succ n ih =>
      have old := ih (by omega) (by omega)
      have other : (d (start + n)).mode ≠ .crcResult := by
        by_cases sending : n < 3
        · obtain ⟨one, _, both⟩ := waits_first trace line waits
          have mode : (d (start + n)).mode = .waitForSignal := by
            obtain rfl | rfl | rfl : n = 0 ∨ n = 1 ∨ n = 2 := by omega
            · exact waits.mode
            · exact one
            · exact both
          rw [mode]
          exact DecoderMode.noConfusion
        · have receives :=
            receives_at trace line waits two fits (k := (n - 3) / g)
            (Nat.div_lt_of_lt_mul (by rw [Nat.mul_comm]; omega))
            ((n - 3) % g) (Nat.mod_lt _ (by omega))
          rw [show 3 + ((n - 3) / g * g + (n - 3) % g) = n by rw [Nat.div_add_mod']; omega] at receives
          rw [receives.mode]
          exact DecoderMode.noConfusion
      rw [clock_at trace line (by omega)]
      show (if (d (start + n)).mode = .crcResult then _ else _) = _
      rw [if_neg other]
      exact old

theorem counts_at {n : Nat} (late : 3 ≤ n) (inside : n ≤ 2000) :
    (d (start + n)).ratiocounter = n - 3 ∧ (4 ≤ n → (d (start + n)).errorNosignal = false) ∧
      (d (start + n)).periodError = (d (start + 3)).periodError ∧
      (d (start + n)).timestamp = (d (start + 3)).timestamp + 5 * BitVec.ofNat 64 (n - 3) := by
  induction n, late using Nat.le_induction with
  | base =>
    have edge := detects_edge trace line waits two
    refine ⟨?_, fun some => absurd some (by decide), rfl, ?_⟩
    · rw [clock_at trace line (n := 2) (by decide)]
      show ((d (start + 2)).ratioNext precision).1 = _
      rw [Decoder.ratioNext, if_pos edge]
    · simp
  | succ n late ih =>
    obtain ⟨ratio, _, period, timestamp⟩ := ih (by omega)
    have none := detects_none trace line waits two fits late (by omega)
    have counts : (d (start + n)).ratioNext precision = (n - 3 + 1, false) := by
      rw [Decoder.ratioNext, none, ratio, if_neg Bool.false_ne_true, if_pos (by omega)]
    have next := clock_at trace line (n := n) (by omega)
    refine ⟨?_, fun _ => ?_, ?_, ?_⟩
    · rw [next]
      show ((d (start + n)).ratioNext precision).1 = _
      rw [counts]
      show n - 3 + 1 = n + 1 - 3
      omega
    · rw [next]
      show ((d (start + n)).ratioNext precision).2 = _
      rw [counts]
    · rw [next, ← period]
      show (d (start + n)).periodNext precision = _
      rw [Decoder.periodNext]
      cases mode : (d (start + n)).mode with
      | waitForSignal =>
        have low : (d (start + n)).serial1 = false := by
          by_cases sending : n < 3 + 80 * g
          · have receives :=
              receives_at trace line waits two fits (k := (n - 3) / g)
              (Nat.div_lt_of_lt_mul (by rw [Nat.mul_comm]; omega))
              ((n - 3) % g) (Nat.mod_lt _ (by omega))
            rw [show 3 + ((n - 3) / g * g + (n - 3) % g) = n by rw [Nat.div_add_mod']; omega] at receives
            exact DecoderMode.noConfusion (receives.mode.symm.trans mode)
          · by_cases check : n = 3 + 80 * g
            · rw [check, (complete_at trace line waits two fits).mode] at mode
              cases mode
            · obtain ⟨m, rfl⟩ : ∃ m, n = m + 1 := ⟨n - 1, by omega⟩
              rw [serial1_at trace line (by omega)]
              exact line.gap m (by omega) (by omega)
        rw [low]
        rfl
      | _ => rfl
    · rw [next, timestamp_clock, none, Bool.false_and, if_neg Bool.false_ne_true, timestamp,
        show n + 1 - 3 = n - 3 + 1 by omega,
        BitVec.ofNat_add, BitVec.mul_add, ← BitVec.add_assoc]
      rfl

theorem locked_next : Locked timestamp (d (start + 2000)) := by
  have bound : 80 * g ≤ 80 * 18 := Nat.mul_le_mul_left 80 fits
  obtain ⟨received, error, place⟩ := rests_at trace line waits two fits (n := 2000) (by omega) (le_refl _)
  obtain ⟨ratio, nosignal, _⟩ := counts_at trace line waits two fits (n := 2000) (by decide) (le_refl _)
  rw [if_neg (by omega)] at place
  refine ⟨⟨place, ?_, ?_⟩, received, error, nosignal (by decide), ratio⟩
  · rw [serial1_at trace line (n := 1999) (by decide)]
    exact line.gap 1999 (by omega) (by decide)
  · rw [serial2_at trace line (n := 1999) (by decide), serial1_at trace line (n := 1998) (by decide)]
    exact line.gap 1998 (by omega) (by decide)

end Period

section Next

variable {g precision start : Nat} {serial reset : Nat → Bool} {timestamp sent : BitVec 64} {d : Nat → Decoder}
  (trace : ∀ t, d (t + 1) = (d t).clock g precision (reset t) (serial t)) (line : Line g serial reset start timestamp)
  (locked : Locked sent (d start)) (positive : 1 ≤ precision)

include trace line locked

theorem early_at {n : Nat} (inside : n ≤ 2) :
    (d (start + n)).ratiocounter = 1997 + n ∧ (d (start + n)).error = false ∧ (d (start + n)).errorNosignal = false ∧
      (d (start + n)).periodError = (d start).periodError ∧ (d (start + n)).timestampRec = sent ∧
      (d (start + n)).timestamp = (d start).timestamp + 5 * BitVec.ofNat 64 n := by
  obtain ⟨one, low, _⟩ := waits_first trace line locked.waits
  induction n with
  | zero => exact ⟨locked.ratio, locked.error, locked.nosignal, rfl, locked.received, by simp⟩
  | succ n ih =>
    obtain ⟨ratio, error, _, period, received, timestamp⟩ := ih (by omega)
    have quiet : (d (start + n)).mode = .waitForSignal ∧ (d (start + n)).serial1 = false := by
      obtain rfl | rfl : n = 0 ∨ n = 1 := by omega
      · exact ⟨locked.waits.mode, locked.waits.serial1⟩
      · exact ⟨one, low⟩
    have none : (d (start + n)).detects = false := by
      rw [Decoder.detects, quiet.2, Bool.and_false, Bool.false_and]
    have counts : (d (start + n)).ratioNext precision = (1997 + n + 1, false) := by
      rw [Decoder.ratioNext, none, ratio, if_neg Bool.false_ne_true, if_pos (by omega)]
    have off : (d (start + n)).samples g = false := by
      rw [Decoder.samples, quiet.1]
      rfl
    rw [clock_at trace line (by omega)]
    refine ⟨?_, ?_, ?_, ?_, ?_, ?_⟩
    · show ((d (start + n)).ratioNext precision).1 = _
      rw [counts]
      rfl
    · show (if (d (start + n)).mode = .crcResult then _ else _) = _
      rw [if_neg (by rw [quiet.1]; exact DecoderMode.noConfusion)]
      exact error
    · show ((d (start + n)).ratioNext precision).2 = _
      rw [counts]
    · show (d (start + n)).periodNext precision = _
      rw [Decoder.periodNext, quiet.1, quiet.2]
      exact period
    · show (if (d (start + n)).samples g && _ && _ then _ else _) = _
      rw [off]
      exact received
    · rw [timestamp_clock, none, Bool.false_and, if_neg Bool.false_ne_true, timestamp, BitVec.ofNat_add,
        BitVec.mul_add, ← BitVec.add_assoc]
      rfl

include positive

theorem loads (two : 2 ≤ g) :
    (d (start + 3)).timestamp = sent + 10 ∧ (d (start + 3)).errorNosignal = false ∧
    (d (start + 3)).periodError = false := by
  obtain ⟨ratio, error, nosignal, _, received, _⟩ := early_at trace line locked (n := 2) (le_refl _)
  have edge := detects_edge trace line locked.waits two
  have mode := (waits_first trace line locked.waits).2.2
  have pulse : ((d (start + 2)).serial1 = true) ∧ ((d (start + 2)).serial2 = false) := by
    rw [Decoder.detects, mode] at edge
    simpa using edge
  rw [clock_at trace line (n := 2) (by decide)]
  refine ⟨?_, ?_, ?_⟩
  · rw [timestamp_clock, edge, error, received]
    rfl
  · show ((d (start + 2)).ratioNext precision).2 = _
    rw [Decoder.ratioNext, if_pos edge]
    exact nosignal
  · show (d (start + 2)).periodNext precision = _
    rw [Decoder.periodNext, mode, pulse.1, pulse.2, ratio]
    simp only [if_true, Bool.not_false, decide_eq_false_iff_not]
    omega

theorem locked_at (two : 2 ≤ g) (fits : g ≤ 18) {n : Nat} (late : 3 ≤ n) (inside : n ≤ 2000) :
    (d (start + n)).timestamp = sent + 10 + 5 * BitVec.ofNat 64 (n - 3) ∧ (d (start + n)).errorNosignal = false ∧
      (d (start + n)).periodError = false ∧ (d (start + n)).errorOut = false := by
  obtain ⟨loaded, signal, regular⟩ := loads trace line locked positive two
  obtain ⟨_, nosignal, period, timestamp⟩ := counts_at trace line locked.waits two fits late inside
  have error := error_at trace line locked.waits two fits locked.error inside
  have signal' : (d (start + n)).errorNosignal = false := by
    by_cases first : n = 3
    · rw [first]
      exact signal
    · exact nosignal (by omega)
  have regular' := period.trans regular
  refine ⟨?_, signal', regular', ?_⟩
  · rw [timestamp, loaded]
  · rw [Decoder.errorOut, error, signal', regular']
    rfl

end Next

section RoundTrip

variable {g precision first : Nat} {inputs : Nat → Inputs} {stamps : Nat → BitVec 64}

theorem idle_at (feeds : Feeds inputs first stamps) {t : Nat} (early : t ≤ first) :
    Silent (encoder g inputs t) ∧ Waits (decoder g precision inputs t) := by
  induction t with
  | zero => exact ⟨⟨rfl, rfl, rfl⟩, ⟨rfl, rfl, rfl⟩⟩
  | succ t ih =>
    obtain ⟨silent, waits⟩ := ih (by omega)
    have t0 := feeds.before t (by omega)
    show Silent ((encoder g inputs t).clock g (inputs t)) ∧
      Waits ((decoder g precision inputs t).clock g precision (inputs t).reset (encoder g inputs t).serial)
    rw [silent.serial]
    cases reset : (inputs t).reset with
    | true =>
      refine ⟨?_, ?_⟩
      · rw [Encoder.clock, reset]
        exact ⟨rfl, rfl, rfl⟩
      · exact ⟨rfl, waits.serial1, waits.serial2⟩
    | false =>
      refine ⟨?_, ?_, rfl, waits.serial1⟩
      · obtain ⟨mode, serial, _, _, _, low⟩ := clock_serialize (g := g) (e := encoder g inputs t) reset t0
        have off : ((inputs t).butisT0 && !(encoder g inputs t).butisT0) = false := by
          rw [t0]
          rfl
        rw [Encoder.serialize, off, silent.mode] at mode serial
        exact ⟨mode, serial, low⟩
      · show (decoder g precision inputs t).modeNext g = _
        rw [Decoder.modeNext, waits.mode, waits.serial1]
        rfl

theorem line_of (two : 2 ≤ g) (fits : g ≤ 18) {start : Nat} {timestamp : BitVec 64}
    (period : Period inputs start timestamp)
    (silent : Silent (encoder g inputs start)) :
    Line g (fun t => (encoder g inputs t).serial) (fun t => (inputs t).reset) start timestamp where
  reset := period.reset
  before := silent.serial
  bits := fun _ short _ inside => serial_bit (fun _ => rfl) period silent two fits short inside
  gap := fun _ late inside => (serial_gap (fun _ => rfl) period silent two fits late inside).serial

/-- At every T0 the encoder is silent and the decoder waits; from the second T0 on it has
received the timestamp of the period before. -/
theorem ready_at (precision : Nat) (two : 2 ≤ g) (fits : g ≤ 18) (feeds : Feeds inputs first stamps) (p : Nat) :
    Silent (encoder g inputs (first + 2000 * p)) ∧ Waits (decoder g precision inputs (first + 2000 * p)) ∧
      Locked (stamps p) (decoder g precision inputs (first + 2000 * (p + 1))) := by
  induction p with
  | zero =>
    have quiet : Silent (encoder g inputs first) ∧ Waits (decoder g precision inputs first) :=
      idle_at feeds (le_refl first)
    obtain ⟨silent, waits⟩ := quiet
    have line := line_of two fits (feeds.period 0) silent
    exact ⟨silent, waits, locked_next (fun _ => rfl) line waits two fits⟩
  | succ p ih =>
    obtain ⟨before, _, locked⟩ := ih
    have burst : 80 * g < 2000 := by
      have := Nat.mul_le_mul_left 80 fits
      omega
    have silent := serial_gap (e := encoder g inputs) (fun _ => rfl)
      (feeds.period p) before two fits burst (le_refl 2000)
    rw [Nat.add_assoc, ← Nat.mul_succ] at silent
    have line := line_of two fits (feeds.period (p + 1)) silent
    have next := locked_next (fun _ => rfl) line locked.waits two fits
    rw [Nat.add_assoc, ← Nat.mul_succ] at next
    exact ⟨silent, locked.waits, next⟩

/-- For 2 to 18 clocks a bit, and any precision from one clock on: three clocks after a T0 the
decoder shows the timestamp sent in the period before plus ten, counts on by five in each of the
2000 clocks up to the next one, and reports no error. -/
theorem round_trip (g precision : Nat) (two : 2 ≤ g) (fits : g ≤ 18) (positive : 1 ≤ precision)
    (inputs : Nat → Inputs) (first : Nat)
    (stamps : Nat → BitVec 64) (feeds : Feeds inputs first stamps) (p j : Nat) (inside : j < 2000) :
    (decoder g precision inputs (first + 2000 * (p + 1) + 3 + j)).timestamp = stamps p + 10 + 5 * BitVec.ofNat 64 j ∧
      (decoder g precision inputs (first + 2000 * (p + 1) + 3 + j)).errorOut = false := by
  have trace : ∀ t, decoder g precision inputs (t + 1) =
      (decoder g precision inputs t).clock g precision (inputs t).reset (encoder g inputs t).serial := fun _ => rfl
  obtain ⟨_, _, locked⟩ := ready_at precision two fits feeds p
  obtain ⟨silent, _, later⟩ := ready_at precision two fits feeds (p + 1)
  have line := line_of two fits (feeds.period (p + 1)) silent
  by_cases same : j ≤ 1997
  · obtain ⟨timestamp, _, _, error⟩ := locked_at trace line locked positive two fits (n := 3 + j) (by omega) (by omega)
    rw [Nat.add_assoc]
    exact ⟨by rw [timestamp, Nat.add_sub_cancel_left], error⟩
  · -- the two clocks that the next edge needs
    obtain ⟨m, rfl⟩ : ∃ m, j = 1997 + m := ⟨j - 1997, by omega⟩
    obtain ⟨timestamp, _, regular, _⟩ :=
      locked_at trace line locked positive two fits (n := 2000) (by decide) (le_refl _)
    have silent' := (ready_at precision two fits feeds (p + 1 + 1)).1
    have line' := line_of two fits (feeds.period (p + 1 + 1)) silent'
    obtain ⟨_, error, nosignal, period, _, counted⟩ := early_at trace line' later (n := m) (by omega)
    have here : first + 2000 * (p + 1) + 3 + (1997 + m) = first + 2000 * (p + 1 + 1) + m := by omega
    rw [Nat.add_assoc, ← Nat.mul_succ] at timestamp regular
    rw [here]
    refine ⟨?_, ?_⟩
    · rw [counted, timestamp, BitVec.ofNat_add, BitVec.mul_add, ← BitVec.add_assoc]
    · rw [Decoder.errorOut, error, nosignal, period, regular]
      rfl

/-- A timestamp in nanoseconds, with T0 in the first clock. -/
def clockwork (t : Nat) : Inputs := ⟨false, t % 2000 == 0, BitVec.ofNat 64 (10000 * (t / 2000))⟩

theorem clockwork_feeds : Feeds clockwork 0 (fun p => BitVec.ofNat 64 (10000 * p)) where
  before _ none := absurd none (by omega)
  period p :=
    { reset _ _ := rfl
      butisT0 n inside := by
        have same : (0 + 2000 * p + n) % 2000 = n := by omega
        exact congrArg (· == 0) same
      held n inside := by
        have same : (0 + 2000 * p + n) / 2000 = p := by omega
        exact congrArg (fun k => BitVec.ofNat 64 (10000 * k)) same }

theorem round_trip_clockwork :
    (decoder 4 3 clockwork (0 + 2000 * (6 + 1) + 3 + 7)).timestamp = BitVec.ofNat 64
    (10000 * 6) + 10 + 5 * BitVec.ofNat 64 7 ∧
      (decoder 4 3 clockwork (0 + 2000 * (6 + 1) + 3 + 7)).errorOut = false :=
  round_trip 4 3 (by decide) (by decide) (by decide) clockwork 0
    (fun p => BitVec.ofNat 64 (10000 * p)) clockwork_feeds 6 7 (by decide)

end RoundTrip

end BelProject.Butis.RoundTrip
