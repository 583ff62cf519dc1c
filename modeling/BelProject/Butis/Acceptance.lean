import BelProject.Butis.RoundTrip

/-! What the decoder makes of any waveform. It takes a timestamp over when the check byte of the
burst is the check of its timestamp, whatever the start byte was, and counts on otherwise. -/

namespace BelProject.Butis.Acceptance
open Timestamp Burst Reception Library.Runs Library.Traces

def decoder (g precision : Nat) (reset serial : Nat → Bool) : Nat → Decoder :=
  RoundTrip.received g precision fun t => (reset t, serial t)

theorem decoder_succ (g precision : Nat) (reset serial : Nat → Bool) (t : Nat) :
    decoder g precision reset serial (t + 1) = (decoder g precision reset serial t).clock g precision
      (reset t) (serial t) := rfl

/-- The bits of a burst with the edge seen in clock s, each from the middle of its clocks. -/
def bitsFrom (g : Nat) (serial : Nat → Bool) (s k : Nat) : Bool := serial (s + k * g + g / 2 - 1)

def startByte (g : Nat) (serial : Nat → Bool) (s : Nat) : BitVec 8 := word (bitsFrom g serial s) 0 8

def stamp (g : Nat) (serial : Nat → Bool) (s : Nat) : BitVec 64 := word (bitsFrom g serial s) 8 64

def Passes (g : Nat) (serial : Nat → Bool) (s : Nat) : Prop :=
  word (bitsFrom g serial s) 72 8 = crcBytes (stamp g serial s) 8

instance (g : Nat) (serial : Nat → Bool) (s : Nat) : Decidable (Passes g serial s) :=
  inferInstanceAs (Decidable (_ = _))

/-- The last edge before a clock, with no reset from there on. -/
structure Since (reset : Nat → Bool) (d : Nat → Decoder) (s t : Nat) : Prop where
  before : s < t
  edge : (d s).detects = true
  last : ∀ u, s < u → u < t → (d u).detects = false
  free : ∀ u, s ≤ u → u < t → reset u = false

def idle (d : Decoder) : Prop := d.mode = .waitForSignal ∨ d.mode = .waitForZeros

inductive Phase (g : Nat) (reset serial : Nat → Bool) (d : Nat → Decoder) (t : Nat) : Prop
  | fresh (idle : idle (d t)) (error : (d t).error = false) (timestampRec : (d t).timestampRec = 0)
      (none : ∀ u < t, (d u).detects = false)
  | cleared (u : Nat) (idle : idle (d t)) (error : (d t).error = true) (before : u < t) (reset : reset u = true)
      (none : ∀ v, u < v → v < t → (d v).detects = false)
  | taking (s k c : Nat) (since : Since reset d s t) (short : k < 80) (inside : c < g) (here : t = s + 1 + (k * g + c))
      (takes : Takes g (bitsFrom g serial s) k c (d t))
  | read (s : Nat) (since : Since reset d s t) (here : t = s + 1 + 80 * g) (read : Read (bitsFrom g serial s) (d t))
  | rests (s : Nat) (since : Since reset d s t) (late : s + 1 + 80 * g < t) (idle : idle (d t))
      (error : (d t).error = !decide (Passes g serial s)) (timestampRec : (d t).timestampRec = stamp g serial s)

variable {g precision s t : Nat} {reset serial : Nat → Bool} {d : Nat → Decoder}

theorem Since.unique {s' : Nat} (since : Since reset d s t) (since' : Since reset d s' t) : s = s' := by
  rcases Nat.lt_trichotomy s s' with less | same | more
  · exact absurd since'.edge (Bool.eq_false_iff.mp (since.last s' less since'.before))
  · exact same
  · exact absurd since.edge (Bool.eq_false_iff.mp (since'.last s more since.before))

theorem Since.on (since : Since reset d s t) (quiet : (d t).detects = false) (free : reset t = false) :
    Since reset d s (t + 1) where
  before := Nat.lt_succ_of_lt since.before
  edge := since.edge
  last u after before := by
    rcases Nat.lt_succ_iff_lt_or_eq.mp before with before | rfl
    · exact since.last u after before
    · exact quiet
  free u after before := by
    rcases Nat.lt_succ_iff_lt_or_eq.mp before with before | rfl
    · exact since.free u after before
    · exact free

theorem Since.edge_now (edge : (d t).detects = true) (free : reset t = false) : Since reset d t (t + 1) where
  before := Nat.lt_succ_self t
  edge := edge
  last u after before := absurd after (Nat.not_lt.mpr (Nat.le_of_lt_succ before))
  free u after before := by
    rw [Nat.le_antisymm (Nat.le_of_lt_succ before) after]
    exact free

theorem detects_mode {d : Decoder} (other : d.mode ≠ .waitForSignal) : d.detects = false := by
  rw [Decoder.detects, beq_eq_false_iff_ne.mpr other]
  rfl

theorem idle_clock (g precision : Nat) {d : Decoder} (line : Bool) (rests : idle d) (quiet : d.detects = false) :
    idle (d.clock g precision false line) ∧ (d.clock g precision false line).error = d.error ∧
      (d.clock g precision false line).timestampRec = d.timestampRec := by
  have still : d.samples g = false := by
    rw [Decoder.samples]
    rcases rests with mode | mode
    all_goals rw [mode]; rfl
  refine ⟨?_, ?_, ?_⟩
  · change d.modeNext g = _ ∨ d.modeNext g = _
    rw [Decoder.modeNext]
    rcases rests with mode | mode
    · rw [Decoder.detects, mode, beq_self_eq_true, Bool.true_and] at quiet
      rw [mode]
      exact Or.inl (if_neg (Bool.eq_false_iff.mp quiet))
    · rw [mode]
      dsimp only
      split_ifs
      · exact Or.inl rfl
      · exact Or.inr rfl
  · change (if d.mode = .crcResult then _ else d.error) = d.error
    apply if_neg
    rcases rests with mode | mode
    all_goals rw [mode]; exact DecoderMode.noConfusion
  · change (if d.samples g && decide (0 < d.bytecounter) && decide (d.bytecounter < 9) then _ else d.timestampRec) = _
    rw [still]
    rfl

theorem read_clock (precision : Nat) {d : Decoder} (line : Bool) (read : Read (bitsFrom g serial s) d) :
    idle (d.clock g precision false line) ∧ (d.clock g precision false line).error = (!decide (Passes g serial s)) ∧
      (d.clock g precision false line).timestampRec = stamp g serial s := by
  have still : d.samples g = false := by
    rw [Decoder.samples, read.mode]
    rfl
  refine ⟨?_, ?_, ?_⟩
  · change d.modeNext g = _ ∨ d.modeNext g = _
    rw [Decoder.modeNext, read.mode]
    exact Or.inr rfl
  · change (if d.mode = .crcResult then d.crc.data != d.crc.crcR else d.error) = _
    rw [if_pos read.mode, read.data, read.crcR]
    rfl
  · change (if d.samples g && decide (0 < d.bytecounter) && decide (d.bytecounter < 9) then _ else d.timestampRec) = _
    rw [still]
    exact read.received

section
variable (trace : ∀ t, d (t + 1) = (d t).clock g precision (reset t) (serial t))
include trace

theorem Phase.edge (two : 2 ≤ g) (edge : (d t).detects = true) (free : reset t = false) :
    Phase g reset serial d (t + 1) := by
  apply Phase.taking t 0 0 (Since.edge_now edge free) (by decide) (by omega) (by omega)
  rw [trace, free]
  exact Takes.first edge two

theorem Phase.step (two : 2 ≤ g) (phase : Phase g reset serial d t) : Phase g reset serial d (t + 1) := by
  have next := trace t
  cases free : reset t with
  | true =>
    rw [free] at next
    apply Phase.cleared t _ _ (Nat.lt_succ_self t) free
    · intro v after before
      exact absurd after (Nat.not_lt.mpr (Nat.le_of_lt_succ before))
    · rw [next]
      exact Or.inl rfl
    · rw [next]
      rfl
  | false =>
    rw [free] at next
    cases quiet : (d t).detects with
    | true => exact Phase.edge trace two quiet free
    | false =>
      cases phase with
      | fresh rests error timestampRec none =>
        obtain ⟨rests', error', timestampRec'⟩ := idle_clock g precision (serial t) rests quiet
        rw [← next] at rests' error' timestampRec'
        apply Phase.fresh rests' (error'.trans error) (timestampRec'.trans timestampRec)
        intro u before
        rcases Nat.lt_succ_iff_lt_or_eq.mp before with before | rfl
        · exact none u before
        · exact quiet
      | cleared u rests error before reset none =>
        obtain ⟨rests', error', _⟩ := idle_clock g precision (serial t) rests quiet
        rw [← next] at rests' error'
        apply Phase.cleared u rests' (error'.trans error) (Nat.lt_succ_of_lt before) reset
        intro v after before
        rcases Nat.lt_succ_iff_lt_or_eq.mp before with before | rfl
        · exact none v after before
        · exact quiet
      | taking s k c since short inside here takes =>
        have on := since.on quiet free
        by_cases more : c + 1 < g
        · apply Phase.taking s k (c + 1) on short more (by omega)
          rw [next]
          apply takes.step short more
          intro middle
          obtain ⟨u, rfl⟩ : ∃ u, t = u + 1 := ⟨t - 1, by omega⟩
          rw [trace u, since.free u (by omega) (by omega)]
          change serial u = serial (s + k * g + g / 2 - 1)
          congr 1
          omega
        · obtain rfl : c = g - 1 := by omega
          by_cases final : k = 79
          · subst final
            apply Phase.read s on (by omega)
            rw [next]
            exact takes.ends precision (serial t) two
          · apply Phase.taking s (k + 1) 0 on (by omega) (by omega)
            · rw [Nat.succ_mul]
              omega
            · rw [next]
              exact takes.bit_step two (by omega)
      | read s since here read =>
        obtain ⟨rests, error, timestampRec⟩ := read_clock precision (serial t) read
        rw [← next] at rests error timestampRec
        exact Phase.rests s (since.on quiet free) (by omega) rests error timestampRec
      | rests s since late rests error timestampRec =>
        obtain ⟨rests', error', timestampRec'⟩ := idle_clock g precision (serial t) rests quiet
        rw [← next] at rests' error' timestampRec'
        exact Phase.rests s (since.on quiet free) (by omega) rests' (error'.trans error)
          (timestampRec'.trans timestampRec)

end

theorem phase_at (precision : Nat) (reset serial : Nat → Bool) (two : 2 ≤ g) (t : Nat) :
    Phase g reset serial (decoder g precision reset serial) t := by
  induction t with
  | zero => exact Phase.fresh (Or.inl rfl) rfl rfl fun u before => absurd before (Nat.not_lt_zero u)
  | succ t ih => exact ih.step (fun _ => rfl) two

theorem load_passed (two : 2 ≤ g) (free : reset t = false) (edge : (decoder g precision reset serial t).detects = true)
    (clean : (decoder g precision reset serial t).error = false) :
    (∃ s, Since reset (decoder g precision reset serial) s t ∧ s + 1 + 80 * g < t ∧ Passes g serial s ∧
        (decoder g precision reset serial (t + 1)).timestamp = stamp g serial s + 10) ∨
      (∀ u < t, (decoder g precision reset serial u).detects = false) ∧
      (decoder g precision reset serial (t + 1)).timestamp = 10 := by
  have load : (decoder g precision reset serial (t + 1)).timestamp =
    (decoder g precision reset serial t).timestampRec + 10 := by
    rw [decoder_succ, free, RoundTrip.timestamp_clock, edge, clean]
    rfl
  cases phase_at precision reset serial two t with
  | fresh _ _ timestampRec none =>
    rw [timestampRec] at load
    exact Or.inr ⟨none, load⟩
  | cleared u _ error => exact absurd (clean.symm.trans error) Bool.false_ne_true
  | taking s k c _ _ _ _ takes =>
    rw [detects_mode (by rw [takes.mode]; exact DecoderMode.noConfusion)] at edge
    exact absurd edge Bool.false_ne_true
  | read s _ _ read =>
    rw [detects_mode (by rw [read.mode]; exact DecoderMode.noConfusion)] at edge
    exact absurd edge Bool.false_ne_true
  | rests s since late _ error timestampRec =>
    rw [timestampRec] at load
    rw [clean] at error
    exact Or.inl ⟨s, since, late, of_decide_eq_true ((Bool.not_eq_eq_eq_not.mp error.symm)), load⟩

theorem error_checked (two : 2 ≤ g) (since : Since reset (decoder g precision reset serial) s t)
    (late : s + 1 + 80 * g < t) :
    (decoder g precision reset serial t).error = !decide (Passes g serial s) := by
  cases phase_at precision reset serial two t with
  | fresh _ _ _ none => exact absurd since.edge (Bool.eq_false_iff.mp (none s since.before))
  | cleared u _ _ before reset none =>
    rcases Nat.lt_or_ge u s with early | after
    · exact absurd since.edge (Bool.eq_false_iff.mp (none s early since.before))
    · exact absurd reset (Bool.eq_false_iff.mp (since.free u after before))
  | taking s' k c since' short inside here =>
    obtain rfl := since.unique since'
    have bound : k * g + g ≤ 80 * g := by
      rw [← Nat.succ_mul]
      exact Nat.mul_le_mul_right g short
    omega
  | read s' since' here =>
    obtain rfl := since.unique since'
    omega
  | rests s' since' _ _ error =>
    obtain rfl := since.unique since'
    exact error

/-- The timestamp stays uncertain behind a clock in which it is, until it is loaded. -/
theorem uncertain_kept (late : s ≤ t) (counted : (decoder g precision reset serial s).errorCounter = 3)
    (none : ∀ u, s ≤ u → u < t → (decoder g precision reset serial u).detects = true →
      (decoder g precision reset serial u).error = true) :
    (decoder g precision reset serial t).uncertain = true := by
  suffices count : (decoder g precision reset serial t).errorCounter = 3 by
    rw [Decoder.uncertain, count]
    rfl
  induction t, late using Nat.le_induction with
  | base => exact counted
  | succ t late ih =>
    have count := ih fun u after before => none u after (Nat.lt_succ_of_lt before)
    have fails := none t late (Nat.lt_succ_self t)
    rw [decoder_succ]
    generalize decoder g precision reset serial t = d at count fails
    have same : ({ d with butisT0 := false } : Decoder).detects = d.detects := rfl
    have full : ¬ d.errorCounter < 3 := by omega
    cases reset t with
    | true => rfl
    | false =>
      change (d.count false).errorCounter = 3
      simp only [Decoder.count, Bool.false_eq_true, if_false, apply_ite Decoder.errorCounter]
      rw [same]
      cases edge : d.detects with
      | true =>
        rw [fails edge]
        exact (if_neg full).trans count
      | false => exact count

/-- For every waveform and all resets: a timestamp is taken over only from a burst whose check byte
is the check of its timestamp (or, at the first edge of all, the value from power-up), in any other
clock the timestamp counts on, and a burst that does not pass raises the error up to the next edge. -/
theorem accepts_checked (g precision : Nat) (two : 2 ≤ g) (reset serial : Nat → Bool) (t : Nat)
    (free : reset t = false) :
    let d := decoder g precision reset serial
    ((d t).detects = true → (d t).error = false →
      (∃ s, Since reset d s t ∧ s + 1 + 80 * g < t ∧ Passes g serial s ∧ (d (t + 1)).timestamp =
        stamp g serial s + 10) ∨
        (∀ u < t, (d u).detects = false) ∧ (d (t + 1)).timestamp = 10) ∧
    ((d t).detects = false ∨ (d t).error = true → (d (t + 1)).timestamp = (d t).timestamp + 5) ∧
    ∀ s, Since reset d s t → s + 1 + 80 * g < t → ¬ Passes g serial s → (d t).error = true ∧ (d t).errorOut = true := by
  refine ⟨load_passed two free, ?_, ?_⟩
  · intro counts
    rw [decoder_succ, free, RoundTrip.timestamp_clock]
    rcases counts with quiet | error
    · rw [quiet]
      rfl
    · rw [error, Bool.not_true, Bool.and_false]
      rfl
  · intro s since late fails
    have error := error_checked two since late
    rw [decide_eq_false fails] at error
    refine ⟨error, ?_⟩
    rw [Decoder.errorOut, error]
    rfl

def pulses (t : Nat) : Bool := t % 2000 == 0

theorem decoder_trace (g precision : Nat) (serial : Nat → Bool) (t : Nat) :
    decoder g precision (fun _ => false) serial t =
      trace (fun d line => d.clock g precision false line) .powerUp serial t := by
  induction t with
  | zero => rfl
  | succ t ih =>
    rw [decoder_succ, ih]
    rfl

def accepts (g precision : Nat) (d : Decoder) (line : Bool) : Bool :=
  !(d.clock g precision false line).errorOut && (d.detects && !d.error)

theorem second_pulse : ∃ t, (decoder 4 3 (fun _ => false) pulses t).detects = true ∧
    (decoder 4 3 (fun _ => false) pulses t).error = false ∧
    (decoder 4 3 (fun _ => false) pulses (t + 1)).errorOut = false := by
  by_contra none
  have found : test (fun d line => d.clock 4 3 false line) (fun d line => !accepts 4 3 d line) Decoder.powerUp
      ((List.range 2002).map pulses) = false := by decide +kernel
  have missed : test (fun d line => d.clock 4 3 false line) (fun d line => !accepts 4 3 d line) Decoder.powerUp
      ((List.range 2002).map pulses) = true := by
    rw [test_iff, along_trace]
    intro t _
    rw [← decoder_trace, Bool.not_eq_true']
    apply Bool.eq_false_iff.mpr
    intro accepted
    rw [accepts, Bool.and_eq_true, Bool.and_eq_true, Bool.not_eq_true', Bool.not_eq_true'] at accepted
    exact none ⟨t, accepted.2.1, accepted.2.2, accepted.1⟩
  exact Bool.false_ne_true (found.symm.trans missed)

/-- The first pulse is detected in clock 1, and there was no signal before it. -/
theorem accepts_checked_pulses : ∃ t s, (decoder 4 3 (fun _ => false) pulses t).detects = true ∧
    (decoder 4 3 (fun _ => false) pulses t).error = false ∧ Since (fun _ => false)
    (decoder 4 3 (fun _ => false) pulses) s t ∧
    s + 1 + 80 * 4 < t ∧ Passes 4 pulses s ∧ (decoder 4 3 (fun _ => false) pulses (t + 1)).timestamp =
      stamp 4 pulses s + 10 := by
  obtain ⟨t, edge, error, signal⟩ := second_pulse
  rcases (accepts_checked 4 3 (by decide) (fun _ => false) pulses t rfl).1 edge error with ⟨s, burst⟩ | ⟨none, _⟩
  · exact ⟨t, s, edge, error, burst⟩
  · have first : (decoder 4 3 (fun _ => false) pulses 1).detects = true := rfl
    match t with
    | 0 => exact absurd edge Bool.false_ne_true
    | 1 => exact absurd rfl (Bool.eq_false_iff.mp signal)
    | t + 2 => exact absurd first (Bool.eq_false_iff.mp (none 1 (by omega)))

theorem startByte_pulses {d : Nat → Decoder} (trace : ∀ t, d (t + 1) = (d t).clock 4 3 false (pulses t))
    (low : (d 0).serial1 = false)
    {s : Nat} (edge : (d s).detects = true) : startByte 4 pulses s ≠ 0xAA := by
  intro same
  have top : (startByte 4 pulses s).getLsbD 7 = true := by rw [same]; rfl
  rw [startByte, getLsbD_word 0 _ (by decide)] at top
  have bit : (s + 1) % 2000 = 0 := by
    have here : bitsFrom 4 pulses s 0 = true := top
    rw [bitsFrom, pulses, beq_iff_eq] at here
    exact here
  rw [Decoder.detects, Bool.and_eq_true, Bool.and_eq_true] at edge
  cases s with
  | zero => exact Bool.false_ne_true (low.symm.trans edge.1.2)
  | succ u =>
    have pulse : pulses u = true := by
      have high := edge.1.2
      rw [trace u] at high
      exact high
    rw [pulses, beq_iff_eq] at pulse
    omega

/-- The second pulse takes over the zeros behind the first one, which began with no start byte. -/
theorem pulses_accepted : ¬ ∀ (reset serial : Nat → Bool) (t : Nat), reset t = false →
    (decoder 4 3 reset serial t).detects = true →
    (decoder 4 3 reset serial t).error = false → (decoder 4 3 reset serial (t + 1)).errorOut = false →
    ∃ s, Since reset (decoder 4 3 reset serial) s t ∧ startByte 4 serial s = 0xAA ∧ Passes 4 serial s := by
  intro claim
  obtain ⟨t, edge, error, signal⟩ := second_pulse
  obtain ⟨s, since, start, _⟩ := claim (fun _ => false) pulses t rfl edge error signal
  exact startByte_pulses (fun _ => rfl) rfl since.edge start

end BelProject.Butis.Acceptance
