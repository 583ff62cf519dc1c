import BelProject.Dac.Line
import BelProject.Library.Runs

/-! What becomes of the words for the DAC. A word that is taken waits in `Shift_Reg` with `SPI_TRM`
set, which the state machine sees with its next enable, and until then nothing keeps the next word
off. -/

namespace BelProject.Dac.Words
open Dac714 Line Library.Runs

def bitsOf (word : BitVec 16) : List Bool := (List.range 16).map word.getMsbD

/-- The words that were offered without a pulse of `New_trm_during_trm_active` for them, those with
one, the clocks with a pulse, and the pulses that the counter has seen since it was cleared. -/
structure Ledger where
  line : Seen
  accepted : List (BitVec 16)
  rejected : ℕ
  pulses : ℕ
  seen : ℕ

def Ledger.start : Ledger := ⟨⟨[], []⟩, [], 0, 0, 0⟩

def Ledger.next (l : Ledger) (s s' : Registers) (i : Inputs) : Ledger where
  line := l.line.next s.spi s'.spi
  accepted :=
    match offered s i with
    | none => l.accepted
    | some word => if s'.spi.newTrmDuringTrmActive then l.accepted else l.accepted ++ [word]
  rejected := if (offered s i).isSome && s'.spi.newTrmDuringTrmActive then l.rejected + 1 else l.rejected
  pulses := if s'.spi.newTrmDuringTrmActive then l.pulses + 1 else l.pulses
  seen := if s.clrTrmDuringTrmActiveErrCnt then 0 else if s.spi.newTrmDuringTrmActive then l.seen + 1 else l.seen

def booked (g : Generics) (x : Registers × Ledger) (i : Inputs) : Registers × Ledger :=
  (clock g x.1 i, x.2.next x.1 (clock g x.1 i) i)

/-- The accepted words come out one after the other as whole frames, and at most the last one is not
out yet. The others are rejected with one pulse, which the counter counts up to its end. -/
structure Accounted (s : Registers) (l : Ledger) : Prop where
  whole : l.line.frames <+: l.accepted.map bitsOf
  last : l.accepted.length ≤ l.line.frames.length + 1
  part : s.spi.nCs = false → ∃ word, l.accepted.map bitsOf = l.line.frames ++ [bitsOf word] ∧
    l.line.bits <+: bitsOf word
  rejects : l.rejected = l.pulses
  counted : s.newTrmDuringTrmActiveErrCnt = min l.seen 255

/-- The branches that lose a word, or send one again, are not taken. -/
structure Orderly (g : Generics) (s : Registers) (i : Inputs) : Prop where
  /-- No reset, and no clear of the DAC, which is one. -/
  running : running s = true
  /-- No word is taken on top of one that waits. -/
  free : (offered s i).isSome = true → s.spi.takes s.cntrl.fgMode s.cntrl.dacConvExtern = true → s.spi.spiTrm = false
  /-- No word waits, or comes, when the external trigger is served. -/
  load : s.spi.spiSm = .load → spiClkEna s = true → s.cntrl.dacConvExtern = true → s.trig.trigDac = true →
    s.spi.spiTrm = false ∧ ((offered s i).isSome = true → s.spi.takes s.cntrl.fgMode s.cntrl.dacConvExtern = false)
  /-- The mode is not switched to a clock of `Load` with `SPI_TRM` set. -/
  mode : (clock g s i).spi.spiSm = .load → (clock g s i).spi.spiTrm = true →
    (clock g s i).cntrl.dacConvExtern = s.cntrl.dacConvExtern

/-- The word of which the frame is not complete. -/
inductive Waiting (r : Spi) (convExtern : Bool) (bits : List Bool) : Option (BitVec 16) → Prop
  | idle (sm : r.spiSm = .idle) (spiTrm : r.spiTrm = false) : Waiting r convExtern bits none
  | pending (sm : r.spiSm = .idle ∨ r.spiSm = .selOn) (spiTrm : r.spiTrm = true) :
      Waiting r convExtern bits (some r.shiftReg)
  | clkLo (word : BitVec 16) (sm : r.spiSm = .clkLo) (spiTrm : r.spiTrm = true)
      (sent : bits = (bitsOf word).take r.bitCnt)
      (rest : r.shiftReg = word <<< (r.bitCnt - 1)) : Waiting r convExtern bits (some word)
  | clkHi (word : BitVec 16) (sm : r.spiSm = .clkHi) (spiTrm : r.spiTrm = true)
      (sent : bits = (bitsOf word).take r.bitCnt)
      (rest : r.shiftReg = word <<< r.bitCnt) : Waiting r convExtern bits (some word)
  | selOff (sm : r.spiSm = .selOff) (spiTrm : r.spiTrm = true) : Waiting r convExtern bits none
  | load (sm : r.spiSm = .load) (spiTrm : convExtern = true → r.spiTrm = false) : Waiting r convExtern bits none
  | loadNew (sm : r.spiSm = .load) (external : convExtern = true) (spiTrm : r.spiTrm = true) :
      Waiting r convExtern bits (some r.shiftReg)
  | loadWait (sm : r.spiSm = .loadWait) (spiTrm : r.spiTrm = false) : Waiting r convExtern bits none
  | loadWaitNew (sm : r.spiSm = .loadWait) (spiTrm : r.spiTrm = true) : Waiting r convExtern bits (some r.shiftReg)
  | loadEnd (sm : r.spiSm = .loadEnd) (spiTrm : r.spiTrm = false) : Waiting r convExtern bits none

structure Kept (s : Registers) (l : Ledger) : Prop where
  phase : Phase s.spi l.line.bits.length
  waiting : ∃ word, Waiting s.spi s.cntrl.dacConvExtern l.line.bits word ∧ l.accepted.map bitsOf =
    l.line.frames ++ word.toList.map bitsOf
  rejects : l.rejected = l.pulses
  counted : s.newTrmDuringTrmActiveErrCnt = min l.seen 255

/-! ### The bits of a word -/

theorem length_bitsOf (word : BitVec 16) : (bitsOf word).length = 16 := by
  rw [bitsOf, List.length_map, List.length_range]

theorem take_bitsOf {word : BitVec 16} {k : ℕ} (inside : k < 16) :
    (bitsOf word).take (k + 1) = (bitsOf word).take k ++ [(word <<< k).msb] := by
  rw [List.take_add_one, bitsOf, List.getElem?_map, List.getElem?_range inside, BitVec.msb_shiftLeft]
  rfl

/-! ### A new word -/

variable {r q : Spi} {l : Seen} {fgMode convExtern trigDac : Bool} {bits : List Bool}
  {word : Option (BitVec 16)} {offer : Option (BitVec 16)}

/-- Behind the first half of a clock a word is taken, or nothing but the pulse is new. -/
inductive Half (r : Spi) (fgMode convExtern : Bool) (offer : Option (BitVec 16)) (q : Spi) : Prop
  | quiet (spiTrm : q.spiTrm = r.spiTrm) (shiftReg : q.shiftReg = r.shiftReg) (clear : q.clearSpiClk = false)
      (pulse : q.newTrmDuringTrmActive = offer.isSome) (other : offer.isSome = true → r.takes fgMode convExtern = false)
  | taken (data : BitVec 16) (offered : offer = some data) (takes : r.takes fgMode convExtern = true)
      (spiTrm : q.spiTrm = true)
      (shiftReg : q.shiftReg = data) (pulse : q.newTrmDuringTrmActive = false)

theorem half_cases (r : Spi) (fgMode convExtern : Bool) (offer : Option (BitVec 16)) :
    Half r fgMode convExtern offer (half r fgMode convExtern offer) := by
  cases offer with
  | none => exact .quiet rfl rfl rfl rfl fun none => absurd none Bool.false_ne_true
  | some data =>
    change Half r fgMode convExtern (some data) (if r.takes fgMode convExtern then _ else _)
    cases takes : r.takes fgMode convExtern with
    | true => exact .taken data rfl takes rfl rfl rfl
    | false => exact .quiet rfl rfl rfl rfl fun _ => takes

theorem takes_iff : r.takes fgMode convExtern = true ↔ r.spiSm = .idle ∨
    (fgMode = false ∧ convExtern = true) ∧ (r.spiSm = .load ∨ r.spiSm = .loadWait) := by
  rw [Spi.takes, Bool.or_eq_true, Bool.and_eq_true, Bool.and_eq_true, Bool.or_eq_true,
    Bool.not_eq_true', beq_iff_eq, beq_iff_eq, beq_iff_eq]

section
variable (half : Half r fgMode convExtern offer q)
include half

theorem Half.kept (old : r.spiTrm = true) : q.spiTrm = true := by
  cases half with
  | quiet spiTrm _ _ _ _ => exact spiTrm.trans old
  | taken _ _ _ spiTrm _ _ => exact spiTrm

theorem Half.fresh (new : q.spiTrm = true) (old : r.spiTrm = false) : r.spiSm = .idle ∨ convExtern = true := by
  cases half with
  | quiet spiTrm _ _ _ _ => exact absurd (old.symm.trans (spiTrm.symm.trans new)) Bool.false_ne_true
  | taken _ _ takes _ _ _ => exact (takes_iff.mp takes).imp_right fun waits => waits.1.2

theorem Half.shift (shifts : shifting r.spiSm = true) : q.shiftReg = r.shiftReg := by
  cases half with
  | quiet _ shiftReg _ _ _ => exact shiftReg
  | taken _ _ takes _ _ _ =>
    rcases takes_iff.mp takes with sm | ⟨_, sm | sm⟩
    all_goals rw [sm] at shifts; exact absurd shifts Bool.false_ne_true

end

theorem Waiting.quiet (waiting : Waiting r convExtern bits word) (same : Same r q)
    (spiTrm : q.spiTrm = r.spiTrm) (shiftReg : q.shiftReg = r.shiftReg) :
    Waiting q convExtern bits word := by
  cases waiting with
  | idle sm trm => exact .idle (same.spiSm.trans sm) (spiTrm.trans trm)
  | pending sm trm =>
    rw [← shiftReg]
    refine .pending ?_ (spiTrm.trans trm)
    rw [same.spiSm]
    exact sm
  | clkLo word sm trm sent rest =>
    rw [← same.bitCnt] at sent rest
    exact .clkLo word (same.spiSm.trans sm) (spiTrm.trans trm) sent (shiftReg.trans rest)
  | clkHi word sm trm sent rest =>
    rw [← same.bitCnt] at sent rest
    exact .clkHi word (same.spiSm.trans sm) (spiTrm.trans trm) sent (shiftReg.trans rest)
  | selOff sm trm => exact .selOff (same.spiSm.trans sm) (spiTrm.trans trm)
  | load sm trm => exact .load (same.spiSm.trans sm) fun external => spiTrm.trans (trm external)
  | loadNew sm external trm =>
    rw [← shiftReg]
    exact .loadNew (same.spiSm.trans sm) external (spiTrm.trans trm)
  | loadWait sm trm => exact .loadWait (same.spiSm.trans sm) (spiTrm.trans trm)
  | loadWaitNew sm trm =>
    rw [← shiftReg]
    exact .loadWaitNew (same.spiSm.trans sm) (spiTrm.trans trm)
  | loadEnd sm trm => exact .loadEnd (same.spiSm.trans sm) (spiTrm.trans trm)

theorem Waiting.taken (waiting : Waiting r convExtern bits word) (same : Same r q)
    (takes : r.takes fgMode convExtern = true) (old : r.spiTrm = false)
    (new : q.spiTrm = true) : word = none ∧ Waiting q convExtern bits (some q.shiftReg) := by
  have none : word = none := by
    cases waiting with
    | idle sm trm => rfl
    | pending sm trm => exact absurd (old.symm.trans trm) Bool.false_ne_true
    | clkLo word sm trm sent rest => exact absurd (old.symm.trans trm) Bool.false_ne_true
    | clkHi word sm trm sent rest => exact absurd (old.symm.trans trm) Bool.false_ne_true
    | selOff sm trm => rfl
    | load sm trm => rfl
    | loadNew sm external trm => exact absurd (old.symm.trans trm) Bool.false_ne_true
    | loadWait sm trm => rfl
    | loadWaitNew sm trm => exact absurd (old.symm.trans trm) Bool.false_ne_true
    | loadEnd sm trm => rfl
  refine ⟨none, ?_⟩
  rcases takes_iff.mp takes with sm | ⟨⟨_, external⟩, sm | sm⟩
  · exact .pending (Or.inl (same.spiSm.trans sm)) new
  · exact .loadNew (same.spiSm.trans sm) external new
  · exact .loadWaitNew (same.spiSm.trans sm) new

/-! ### A clock of the state machine -/

def Even (l l' : Seen) (word word' : Option (BitVec 16)) : Prop :=
  l'.frames ++ word'.toList.map bitsOf = l.frames ++ word.toList.map bitsOf

theorem even_of_frames {l l' : Seen} (frames : l'.frames = l.frames) (word : Option (BitVec 16)) :
    Even l l' word word := by
  rw [Even, frames]

variable {data : BitVec 16}

theorem next_clkLo (phase : Phase r l.bits.length) (same : Same r q) (half : Half r fgMode convExtern offer q)
    (sm : r.spiSm = .clkLo) (trm : q.spiTrm = true) (sent : l.bits = (bitsOf data).take r.bitCnt)
    (rest : q.shiftReg = data <<< (r.bitCnt - 1)) :
    ∃ word', Waiting (r.advance convExtern trigDac q) convExtern
      (l.next r (r.advance convExtern trigDac q)).bits word' ∧
      Even l (l.next r (r.advance convExtern trigDac q)) (some data) word' := by
  have high := phase.nCs_eq
  rw [sm] at high
  obtain ⟨spiClk, inside⟩ := phase.at_clkLo sm
  have kept : q.shiftReg = r.shiftReg := half.shift (by rw [sm]; rfl)
  by_cases more : r.bitCnt ≤ 15
  · refine ⟨some data, ?_, even_of_frames (frames_low ?_) _⟩
    · rw [Spi.advance, sm]
      dsimp only
      rw [if_pos more]
      refine .clkHi data rfl trm ?_ ?_
      · rw [bits_fall high spiClk, sent]
        dsimp only
        rw [same.bitCnt]
      · change (if 0 < r.bitCnt then r.shiftReg <<< 1 else q.shiftReg) = data <<< q.bitCnt
        rw [same.bitCnt, ← kept, rest]
        split_ifs with some
        · rw [← BitVec.shiftLeft_add, Nat.sub_add_cancel some]
        · rw [Nat.eq_zero_of_not_pos some]
    · rw [Spi.advance, sm]
      dsimp only
      rw [if_pos more]
      exact same.nCs.trans high
  · have all : r.bitCnt = 16 := by omega
    refine ⟨none, ?_, ?_⟩
    · rw [Spi.advance, sm]
      dsimp only
      rw [if_neg more]
      exact .selOff rfl trm
    · rw [Spi.advance, sm]
      dsimp only
      rw [if_neg more, Even, frames_end high rfl, sent, all, List.take_of_length_le (length_bitsOf data).le]
      exact List.append_nil _

theorem next_clkHi (phase : Phase r l.bits.length) (same : Same r q) (half : Half r fgMode convExtern offer q)
    (sm : r.spiSm = .clkHi) (trm : q.spiTrm = true) (sent : l.bits = (bitsOf data).take r.bitCnt)
    (rest : q.shiftReg = data <<< r.bitCnt) :
    ∃ word', Waiting (r.advance convExtern trigDac q) convExtern
      (l.next r (r.advance convExtern trigDac q)).bits word' ∧
      Even l (l.next r (r.advance convExtern trigDac q)) (some data) word' := by
  have high := phase.nCs_eq
  rw [sm] at high
  obtain ⟨spiClk, inside⟩ := phase.at_clkHi sm
  have kept : q.shiftReg = r.shiftReg := half.shift (by rw [sm]; rfl)
  refine ⟨some data, ?_, even_of_frames (frames_low ?_) _⟩
  · rw [Spi.advance, sm]
    have count : (r.bitCnt + 1) % 32 = r.bitCnt + 1 := Nat.mod_eq_of_lt (by omega)
    refine .clkLo data rfl trm ?_ ?_
    · dsimp only
      rw [bits_rise high spiClk rfl, count, take_bitsOf inside, sent, ← rest, kept]
    · dsimp only
      rw [count, Nat.add_sub_cancel, rest]
  · rw [Spi.advance, sm]
    exact same.nCs.trans high

theorem Waiting.advance (phase : Phase r l.bits.length) (same : Same r q) (half : Half r fgMode convExtern offer q)
    (waiting : Waiting q convExtern l.bits word) (serve : r.spiSm = .load → convExtern = true →
      trigDac = true → q.spiTrm = false) :
    ∃ word', Waiting (r.advance convExtern trigDac q) convExtern
      (l.next r (r.advance convExtern trigDac q)).bits word' ∧
      Even l (l.next r (r.advance convExtern trigDac q)) word word' := by
  have old : q.spiTrm = false → r.spiTrm = false := by
    intro trm
    by_contra set
    exact Bool.false_ne_true (trm.symm.trans (half.kept (Bool.not_eq_false _ ▸ set)))
  have high := phase.nCs_eq
  cases waiting with
  | idle sm trm =>
    rw [same.spiSm] at sm
    rw [sm] at high
    refine ⟨none, ?_, even_of_frames (frames_high high) none⟩
    rw [Spi.advance, sm, old trm]
    exact .idle rfl trm
  | pending sm trm =>
    rw [same.spiSm] at sm
    rcases sm with sm | sm
    · rw [sm] at high
      refine ⟨some q.shiftReg, ?_, even_of_frames (frames_high high) _⟩
      rw [Spi.advance, sm]
      refine .pending ?_ trm
      cases r.spiTrm with
      | false => exact Or.inl rfl
      | true => exact Or.inr rfl
    · rw [sm] at high
      refine ⟨some q.shiftReg, ?_, even_of_frames (frames_high high) _⟩
      rw [Spi.advance, sm]
      have none : q.bitCnt = 0 := same.bitCnt.trans (phase.at_selOn sm)
      refine .clkLo q.shiftReg rfl trm ?_ ?_
      · dsimp only
        rw [bits_start high rfl, none]
        rfl
      · dsimp only
        rw [none]
        exact (BitVec.shiftLeft_zero _).symm
  | clkLo data sm trm sent rest =>
    rw [same.spiSm] at sm
    rw [same.bitCnt] at sent rest
    exact next_clkLo phase same half sm trm sent rest
  | clkHi data sm trm sent rest =>
    rw [same.spiSm] at sm
    rw [same.bitCnt] at sent rest
    exact next_clkHi phase same half sm trm sent rest
  | selOff sm trm =>
    rw [same.spiSm] at sm
    rw [sm] at high
    refine ⟨none, ?_, even_of_frames (frames_high high) none⟩
    rw [Spi.advance, sm]
    exact .load rfl fun external => if_pos external
  | load sm trm =>
    rw [same.spiSm] at sm
    rw [sm] at high
    refine ⟨none, ?_, even_of_frames (frames_high high) none⟩
    rw [Spi.advance, sm]
    cases convExtern with
    | false => exact .loadEnd rfl rfl
    | true =>
      cases trigDac with
      | true => exact .loadEnd rfl rfl
      | false => exact .loadWait rfl (trm rfl)
  | loadNew sm external trm =>
    rw [same.spiSm] at sm
    rw [sm] at high
    refine ⟨some q.shiftReg, ?_, even_of_frames (frames_high high) _⟩
    have none : trigDac = false := by
      by_contra trigger
      exact Bool.false_ne_true ((serve sm external (Bool.not_eq_false _ ▸ trigger)).symm.trans trm)
    rw [Spi.advance, sm, external, none]
    exact .loadWaitNew rfl trm
  | loadWait sm trm =>
    rw [same.spiSm] at sm
    rw [sm] at high
    refine ⟨none, ?_, even_of_frames (frames_high high) none⟩
    rw [Spi.advance, sm, old trm]
    exact .load rfl fun _ => trm
  | loadWaitNew sm trm =>
    rw [same.spiSm] at sm
    rw [sm] at high
    refine ⟨some q.shiftReg, ?_, even_of_frames (frames_high high) _⟩
    rw [Spi.advance, sm]
    cases before : r.spiTrm with
    | true => exact .pending (Or.inl rfl) trm
    | false =>
      have external : convExtern = true := by
        rcases half.fresh trm before with other | external
        · exact absurd (sm.symm.trans other) SpiSm.noConfusion
        · exact external
      exact .loadNew rfl external trm
  | loadEnd sm trm =>
    rw [same.spiSm] at sm
    rw [sm] at high
    refine ⟨none, ?_, even_of_frames (frames_high high) none⟩
    rw [Spi.advance, sm]
    exact .idle rfl trm

theorem Waiting.mode {convExtern' : Bool} (waiting : Waiting r convExtern bits word)
    (same : r.spiSm = .load → r.spiTrm = true → convExtern' = convExtern) : Waiting r convExtern' bits word := by
  cases waiting with
  | idle sm trm => exact .idle sm trm
  | pending sm trm => exact .pending sm trm
  | clkLo word sm trm sent rest => exact .clkLo word sm trm sent rest
  | clkHi word sm trm sent rest => exact .clkHi word sm trm sent rest
  | selOff sm trm => exact .selOff sm trm
  | load sm trm =>
    refine .load sm fun external => ?_
    by_contra set
    have set := Bool.eq_true_of_not_eq_false set
    rw [same sm set] at external
    exact Bool.false_ne_true ((trm external).symm.trans set)
  | loadNew sm external trm => exact .loadNew sm ((same sm trm).trans external) trm
  | loadWait sm trm => exact .loadWait sm trm
  | loadWaitNew sm trm => exact .loadWaitNew sm trm
  | loadEnd sm trm => exact .loadEnd sm trm

theorem advance_keeps :
    (r.advance convExtern trigDac q).newTrmDuringTrmActive = q.newTrmDuringTrmActive ∧
    (r.advance convExtern trigDac q).clearSpiClk = q.clearSpiClk := by
  rw [Spi.advance]
  cases r.spiSm with
  | clkLo =>
    dsimp only
    split_ifs
    all_goals exact ⟨rfl, rfl⟩
  | load =>
    dsimp only
    split_ifs
    all_goals exact ⟨rfl, rfl⟩
  | idle | selOn | clkHi | selOff | loadWait | loadEnd => exact ⟨rfl, rfl⟩

theorem clock_pulse {ena : Bool} :
    (r.clock fgMode convExtern trigDac ena offer).newTrmDuringTrmActive =
    (Line.half r fgMode convExtern offer).newTrmDuringTrmActive := by
  cases ena with
  | false => rfl
  | true => exact advance_keeps.1

/-! ### A clock of the books -/

variable {g : Generics} {s : Registers} {b : Ledger} {i : Inputs}

theorem spi_next (runs : running s = true) :
    (clock g s i).spi = s.spi.clock s.cntrl.fgMode s.cntrl.dacConvExtern s.trig.trigDac (spiClkEna s)
    (offered s i) := by
  change spiNext s i = _
  rw [spiNext, if_pos runs]

def halfOf (s : Registers) (i : Inputs) : Spi := Line.half s.spi s.cntrl.fgMode s.cntrl.dacConvExtern (offered s i)

theorem halfOf_cases (s : Registers) (i : Inputs) :
    Half s.spi s.cntrl.fgMode s.cntrl.dacConvExtern (offered s i) (halfOf s i) := half_cases _ _ _ _

theorem halfOf_same (s : Registers) (i : Inputs) : Same s.spi (halfOf s i) := half_same _ _ _ _

theorem pulse_next (runs : running s = true) :
    (clock g s i).spi.newTrmDuringTrmActive = (halfOf s i).newTrmDuringTrmActive := by
  rw [spi_next runs]
  exact clock_pulse

theorem Kept.taken (kept : Kept s b) (orderly : Orderly g s i) :
    ∃ word, Waiting (halfOf s i) s.cntrl.dacConvExtern b.line.bits word ∧
    (b.next s (clock g s i) i).accepted.map bitsOf = b.line.frames ++ word.toList.map bitsOf := by
  obtain ⟨word, waiting, even⟩ := kept.waiting
  have pulse : (clock g s i).spi.newTrmDuringTrmActive = (halfOf s i).newTrmDuringTrmActive :=
    pulse_next orderly.running
  cases halfOf_cases s i with
  | quiet spiTrm shiftReg clear rejected other =>
    refine ⟨word, waiting.quiet (halfOf_same s i) spiTrm shiftReg, ?_⟩
    rw [rejected] at pulse
    rw [Ledger.next, pulse]
    cases offered s i with
    | none => exact even
    | some data => exact even
  | taken data offer takes spiTrm shiftReg rejected =>
    have old := orderly.free (by rw [offer]; rfl) takes
    obtain ⟨none, waits⟩ := waiting.taken (halfOf_same s i) takes old spiTrm
    refine ⟨some (halfOf s i).shiftReg, waits, ?_⟩
    rw [none] at even
    rw [rejected] at pulse
    rw [Ledger.next, pulse, offer, shiftReg]
    change (b.accepted ++ [data]).map bitsOf = _
    rw [List.map_append, even, Option.toList_none, List.map_nil, List.append_nil]
    rfl

theorem Orderly.served (orderly : Orderly g s i) (ena : spiClkEna s = true) (sm : s.spi.spiSm = .load)
    (external : s.cntrl.dacConvExtern = true)
    (trigger : s.trig.trigDac = true) : (halfOf s i).spiTrm = false := by
  obtain ⟨old, none⟩ := orderly.load sm ena external trigger
  cases halfOf_cases s i with
  | quiet spiTrm _ _ _ _ => exact spiTrm.trans old
  | taken data offer takes _ _ _ => exact absurd ((none (by rw [offer]; rfl)).symm.trans takes) Bool.false_ne_true

theorem Kept.waiting_next (kept : Kept s b) (orderly : Orderly g s i) :
    ∃ word, Waiting (clock g s i).spi (clock g s i).cntrl.dacConvExtern (b.next s (clock g s i) i).line.bits word ∧
      (b.next s (clock g s i) i).accepted.map bitsOf = (b.next s (clock g s i) i).line.frames ++
        word.toList.map bitsOf := by
  obtain ⟨word, waiting, even⟩ := kept.taken orderly
  have moved : ∃ word', Waiting (clock g s i).spi s.cntrl.dacConvExtern
    (b.line.next s.spi (clock g s i).spi).bits word' ∧
      Even b.line (b.line.next s.spi (clock g s i).spi) word word' := by
    rw [spi_next orderly.running]
    cases ena : spiClkEna s with
    | false =>
      rw [clock_rest, next_same (half_same _ _ _ _)]
      exact ⟨word, waiting, rfl⟩
    | true =>
      rw [clock_ena]
      exact waiting.advance kept.phase (halfOf_same s i) (halfOf_cases s i) fun sm external trigger =>
        orderly.served ena sm external trigger
  obtain ⟨word', waiting', even'⟩ := moved
  exact ⟨word', waiting'.mode orderly.mode, even.trans even'.symm⟩

theorem Kept.rejects_next (kept : Kept s b) (runs : running s = true) :
    (b.next s (clock g s i) i).rejected = (b.next s (clock g s i) i).pulses := by
  have pulse : (clock g s i).spi.newTrmDuringTrmActive = (halfOf s i).newTrmDuringTrmActive := pulse_next runs
  rw [Ledger.next, pulse, kept.rejects]
  cases halfOf_cases s i with
  | quiet _ _ _ rejected _ =>
    rw [rejected, Bool.and_self]
  | taken _ _ _ _ _ rejected =>
    rw [rejected, Bool.and_false]

theorem errCnt_min (clear event : Bool) (count : ℕ) :
    errCnt (min count 255) clear event = min (if clear then 0 else if event then count + 1 else count) 255 := by
  rw [errCnt]
  cases clear with
  | true => rfl
  | false =>
    cases event with
    | false => rfl
    | true =>
      rw [if_neg Bool.false_ne_true, if_neg Bool.false_ne_true, if_pos rfl, Bool.true_and]
      split_ifs with more
      · rw [decide_eq_true_iff] at more
        omega
      · rw [decide_eq_true_iff] at more
        omega

theorem Kept.counted_next (kept : Kept s b) (runs : running s = true) :
    (clock g s i).newTrmDuringTrmActiveErrCnt = min (b.next s (clock g s i) i).seen 255 := by
  change (if running s then errCnt _ _ _ else 0) = _
  rw [if_pos runs, kept.counted, errCnt_min]
  rfl

theorem Kept.next (kept : Kept s b) (orderly : Orderly g s i) : Kept (clock g s i) (b.next s (clock g s i) i) where
  phase := by
    change Phase (clock g s i).spi (b.line.next s.spi (clock g s i).spi).bits.length
    rw [spi_next orderly.running]
    exact kept.phase.clock
  waiting := kept.waiting_next orderly
  rejects := kept.rejects_next orderly.running
  counted := kept.counted_next orderly.running

theorem start_kept (g : Generics) : Kept (start g) Ledger.start where
  phase := phase_reset _
  waiting := ⟨none, .idle rfl rfl, rfl⟩
  rejects := rfl
  counted := rfl

theorem Waiting.part (waiting : Waiting r convExtern bits word)
    (low : r.spiSm = .clkLo ∨ r.spiSm = .clkHi) : ∃ data, word = some data ∧ bits <+: bitsOf data := by
  cases waiting with
  | clkLo data _ _ sent _ =>
    rw [sent]
    exact ⟨data, rfl, List.take_prefix _ _⟩
  | clkHi data _ _ sent _ =>
    rw [sent]
    exact ⟨data, rfl, List.take_prefix _ _⟩
  | idle sm | selOff sm | load sm | loadNew sm | loadWait sm | loadWaitNew sm | loadEnd sm =>
    rw [sm] at low
    exact absurd low (by decide)
  | pending sm =>
    rcases sm with sm | sm
    all_goals
      rw [sm] at low
      exact absurd low (by decide)

theorem Kept.account (kept : Kept s b) : Accounted s b := by
  obtain ⟨word, waiting, even⟩ := kept.waiting
  refine ⟨?_, ?_, ?_, kept.rejects, kept.counted⟩
  · rw [even]
    exact List.prefix_append _ _
  · have lengths := congrArg List.length even
    rw [List.length_map, List.length_append, List.length_map] at lengths
    have few : word.toList.length ≤ 1 := by
      cases word with
      | none => exact Nat.zero_le 1
      | some data => exact Nat.le_refl 1
    omega
  · intro low
    have shift : s.spi.spiSm = .clkLo ∨ s.spi.spiSm = .clkHi := by
      rw [kept.phase.nCs_eq, Bool.not_eq_false', Bool.or_eq_true, beq_iff_eq, beq_iff_eq] at low
      exact low
    obtain ⟨data, rfl, sent⟩ := waiting.part shift
    exact ⟨data, even, sent⟩

/-! ### The time of a word -/

def enables (r : Spi) : ℕ :=
  match r.spiSm with
  | .load => 37
  | .loadWait => 36
  | .idle => 35
  | .selOn => 34
  | .clkLo => 33 - 2 * r.bitCnt
  | .clkHi => 32 - 2 * r.bitCnt
  | _ => 0

def pause (g : Generics) (s : Registers) : ℕ := if s.spi.clearSpiClk then g.cSpiClkEnaCnt else (s.divN + 1).toNat

def clocks (g : Generics) (s : Registers) : ℕ := enables s.spi * g.cSpiClkEnaCnt + pause g s

/-- The divider counts from its load value to minus one. -/
structure Divided (g : Generics) (s : Registers) : Prop where
  low : -1 ≤ s.divN
  high : s.divN ≤ g.cSpiClkEnaCnt - 2
  loaded : s.spi.clearSpiClk = true → s.divN = g.cSpiClkEnaCnt - 2

theorem two_le (g : Generics) : 2 ≤ g.cSpiClkEnaCnt := g.divides

theorem divN_clock : (clock g s i).divN =
    if s.spi.clearSpiClk || (clock g s i).spi.clearSpiClk || decide (s.divN < 0) then (g.cSpiClkEnaCnt : ℤ) - 2
    else s.divN - 1 := by
  change (if s.spi.clearSpiClk || (clock g s i).spi.clearSpiClk then _ else AuxFunctions.DivN.count _ true s.divN) = _
  rw [AuxFunctions.DivN.count, if_pos rfl]
  cases s.spi.clearSpiClk || (clock g s i).spi.clearSpiClk with
  | true => rw [Bool.true_or, if_pos rfl, if_pos rfl]
  | false => simp only [Bool.false_or, Bool.false_eq_true, if_false, decide_eq_true_eq]

theorem Divided.next (divided : Divided g s) : Divided g (clock g s i) := by
  have two := two_le g
  have here := divN_clock (g := g) (s := s) (i := i)
  refine ⟨?_, ?_, ?_⟩
  · rw [here]
    split_ifs with reloads
    · omega
    · have positive : ¬ s.divN < 0 := by
        intro negative
        rw [decide_eq_true negative, Bool.or_true] at reloads
        exact reloads rfl
      omega
  · rw [here]
    split_ifs
    · exact le_rfl
    · have high := divided.high
      omega
  · intro cleared
    rw [here, cleared, Bool.or_true, Bool.true_or, if_pos rfl]

theorem pause_next (divided : Divided g s) (free : (clock g s i).spi.clearSpiClk = false) :
    (spiClkEna s = true → pause g s = 0 ∧ pause g (clock g s i) = g.cSpiClkEnaCnt - 1) ∧
      (spiClkEna s = false → pause g (clock g s i) < pause g s) := by
  have two := two_le g
  have low := divided.low
  have here := divN_clock (g := g) (s := s) (i := i)
  rw [free, Bool.or_false] at here
  have behind : pause g (clock g s i) = ((clock g s i).divN + 1).toNat := by rw [pause, free, if_neg Bool.false_ne_true]
  rw [behind, here, pause, spiClkEna]
  cases cleared : s.spi.clearSpiClk with
  | true =>
    have full := divided.loaded cleared
    rw [Bool.true_or, if_pos rfl, if_pos rfl]
    constructor
    · intro ena
      rw [decide_eq_true_iff] at ena
      omega
    · intro _
      omega
  | false =>
    rw [Bool.false_or, if_neg Bool.false_ne_true]
    constructor
    · intro ena
      rw [if_pos ena]
      rw [decide_eq_true_iff] at ena
      omega
    · intro ena
      rw [if_neg (Bool.eq_false_iff.mp ena)]
      rw [decide_eq_false_iff_not] at ena
      omega

theorem Orderly.busy (orderly : Orderly g s i) (trm : s.spi.spiTrm = true) : (clock g s i).spi.clearSpiClk = false := by
  have cleared : (clock g s i).spi.clearSpiClk = (halfOf s i).clearSpiClk := by
    rw [spi_next orderly.running]
    cases spiClkEna s with
    | false => rfl
    | true => exact advance_keeps.2
  rw [cleared]
  cases halfOf_cases s i with
  | quiet _ _ clear _ _ => exact clear
  | taken data offer takes _ _ _ => exact absurd ((orderly.free (by rw [offer]; rfl) takes).symm.trans trm) Bool.false_ne_true

theorem Waiting.trm (waiting : Waiting r convExtern bits (some data)) : r.spiTrm = true := by
  cases waiting with
  | pending _ trm => exact trm
  | clkLo _ _ trm _ _ => exact trm
  | clkHi _ _ trm _ _ => exact trm
  | loadNew _ _ trm => exact trm
  | loadWaitNew _ trm => exact trm

theorem enables_advance (phase : Phase r l.bits.length)
    (waiting : Waiting r convExtern l.bits (some data)) (same : Same r q)
    (serve : r.spiSm = .load → convExtern = true → trigDac = false) :
    (l.next r (r.advance convExtern trigDac q)).frames.length = l.frames.length + 1 ∨
      enables (r.advance convExtern trigDac q) < enables r := by
  have low := phase.nCs_eq
  cases waiting with
  | pending sm trm =>
    right
    rcases sm with sm | sm
    · rw [Spi.advance, sm, trm, enables, enables, sm]
      exact Nat.lt_succ_self 34
    · rw [Spi.advance, sm, enables, enables, sm]
      change 33 - 2 * q.bitCnt < 34
      omega
  | clkLo _ sm trm sent rest =>
    rw [sm] at low
    obtain ⟨_, inside⟩ := phase.at_clkLo sm
    by_cases more : r.bitCnt ≤ 15
    · right
      rw [Spi.advance, sm]
      dsimp only
      rw [if_pos more, enables, enables, sm]
      change 32 - 2 * q.bitCnt < 33 - 2 * r.bitCnt
      rw [same.bitCnt]
      omega
    · left
      rw [Spi.advance, sm]
      dsimp only
      rw [if_neg more, frames_end low rfl, List.length_append]
      rfl
  | clkHi _ sm trm sent rest =>
    right
    obtain ⟨_, inside⟩ := phase.at_clkHi sm
    rw [Spi.advance, sm, enables, enables, sm]
    change 33 - 2 * ((r.bitCnt + 1) % 32) < 32 - 2 * r.bitCnt
    omega
  | loadNew sm external trm =>
    right
    rw [Spi.advance, sm, external, serve sm external, enables, enables, sm]
    exact Nat.lt_succ_self 36
  | loadWaitNew sm trm =>
    right
    rw [Spi.advance, sm, trm, enables, enables, sm]
    exact Nat.lt_succ_self 35

theorem frames_mono (l : Seen) (r r' : Spi) : l.frames.length ≤ (l.next r r').frames.length := by
  rw [Seen.next]
  dsimp only
  split_ifs
  · rw [List.length_append]
    exact Nat.le_add_right _ _
  · exact Nat.le_refl _

theorem accepted_mono (b : Ledger) (s s' : Registers) (i : Inputs) :
    b.accepted.length ≤ (b.next s s' i).accepted.length := by
  rw [Ledger.next]
  cases offered s i with
  | none => exact Nat.le_refl _
  | some data =>
    dsimp only
    split_ifs
    · exact Nat.le_refl _
    · rw [List.length_append]
      exact Nat.le_add_right _ _

theorem clocks_next (kept : Kept s b) (orderly : Orderly g s i) (divided : Divided g s)
    (waiting : Waiting s.spi s.cntrl.dacConvExtern b.line.bits (some data)) :
    (b.next s (clock g s i) i).line.frames.length = b.line.frames.length + 1 ∨ clocks g (clock g s i) < clocks g s := by
  have two := two_le g
  obtain ⟨enabled, rests⟩ := pause_next divided (orderly.busy waiting.trm)
  have same := halfOf_same s i
  cases ena : spiClkEna s with
  | false =>
    right
    have still : enables (clock g s i).spi = enables s.spi := by
      rw [spi_next orderly.running, ena, clock_rest, enables, enables, (half_same _ _ _ _).spiSm,
        (half_same _ _ _ _).bitCnt]
    rw [clocks, clocks, still]
    exact Nat.add_lt_add_left (rests ena) _
  | true =>
    obtain ⟨before, behind⟩ := enabled ena
    have serve : s.spi.spiSm = .load → s.cntrl.dacConvExtern = true → s.trig.trigDac = false := by
      intro sm external
      by_contra trigger
      have none := (orderly.load sm ena external (Bool.eq_true_of_not_eq_false trigger)).1
      exact Bool.false_ne_true (none.symm.trans waiting.trm)
    have moved := enables_advance kept.phase waiting same serve
    have spi : (clock g s i).spi = s.spi.advance s.cntrl.dacConvExtern s.trig.trigDac (halfOf s i) := by
      rw [spi_next orderly.running, ena, clock_ena]
      rfl
    rw [← spi] at moved
    apply moved.imp_right
    intro less
    have words := Nat.mul_le_mul_right g.cSpiClkEnaCnt less
    rw [Nat.succ_mul] at words
    rw [clocks, clocks, before, behind]
    omega

theorem enables_le (r : Spi) : enables r ≤ 37 := by
  rw [enables]
  cases r.spiSm with
  | clkLo => exact (Nat.sub_le _ _).trans (by decide)
  | clkHi => exact (Nat.sub_le _ _).trans (by decide)
  | idle | selOn | selOff | load | loadWait | loadEnd => exact Nat.le_of_ble_eq_true rfl

theorem clocks_le (divided : Divided g s) : clocks g s ≤ 38 * g.cSpiClkEnaCnt := by
  have two := two_le g
  have high := divided.high
  have words := Nat.mul_le_mul_right g.cSpiClkEnaCnt (enables_le s.spi)
  have short : pause g s ≤ g.cSpiClkEnaCnt := by
    rw [pause]
    split_ifs
    · exact Nat.le_refl _
    · omega
  rw [clocks]
  omega

theorem start_divided (g : Generics) : Divided g (start g) where
  low := by
    have two := two_le g
    change -1 ≤ (g.cSpiClkEnaCnt : ℤ) - 2
    omega
  high := le_rfl
  loaded _ := rfl

theorem reaches {x : Registers × Ledger} {later : List Inputs} (kept : Kept x.1 x.2) (divided : Divided g x.1)
    (orderly : Along (booked g) (fun x i => Orderly g x.1 i) x later) (enough : 38 * g.cSpiClkEnaCnt < later.length) :
    x.2.accepted.length ≤ (later.foldl (booked g) x).2.line.frames.length := by
  apply orderly.reaches (fun y => (Kept y.1 y.2 ∧ Divided g y.1) ∧ x.2.accepted.length ≤ y.2.accepted.length)
    (fun y => x.2.accepted.length ≤ y.2.line.frames.length) (fun y => clocks g y.1) ⟨⟨kept, divided⟩, Nat.le_refl _⟩
  · rintro ⟨s, b⟩ i ⟨⟨kept, divided⟩, many⟩ orderly
    by_cases done : x.2.accepted.length ≤ b.line.frames.length
    · exact Or.inl (done.trans (frames_mono _ _ _))
    · obtain ⟨word, waiting, even⟩ := kept.waiting
      have lengths := congrArg List.length even
      rw [List.length_map, List.length_append, List.length_map] at lengths
      cases word with
      | none =>
        rw [Option.toList_none, List.length_nil] at lengths
        exact absurd (many.trans lengths.le) done
      | some data =>
        rw [Option.toList_some, List.length_singleton] at lengths
        rcases clocks_next kept orderly divided waiting with more | less
        · left
          change x.2.accepted.length ≤ (b.next s (clock g s i) i).line.frames.length
          rw [more, ← lengths]
          dsimp only at many
          omega
        · exact Or.inr ⟨⟨⟨kept.next orderly, divided.next⟩, many.trans (accepted_mono _ _ _ _)⟩, less⟩
  · rintro ⟨s, b⟩ i done orderly
    exact done.trans (frames_mono _ _ _)
  · exact (clocks_le divided).trans_lt enough

def books (g : Generics) (inputs : List Inputs) : Registers × Ledger := inputs.foldl (booked g) (start g, Ledger.start)

/-- In an orderly run, whatever the modes, each word is rejected or comes out whole, once and in its
turn, within 38 enables. -/
theorem accounted (g : Generics) (past later : List Inputs)
    (orderly : Along (booked g) (fun x i => Orderly g x.1 i) (start g, Ledger.start) (past ++ later)) :
    Accounted (books g (past ++ later)).1 (books g (past ++ later)).2 ∧
      (38 * g.cSpiClkEnaCnt < later.length → (books g past).2.accepted.length ≤
        (books g (past ++ later)).2.line.frames.length) := by
  have keeps : ∀ {x : Registers × Ledger} {i : Inputs}, Kept x.1 x.2 ∧ Divided g x.1 → Orderly g x.1 i →
      Kept (booked g x i).1 (booked g x i).2 ∧ Divided g (booked g x i).1 :=
    fun both orderly => ⟨both.1.next orderly, both.2.next⟩
  obtain ⟨before, behind⟩ := along_append.mp orderly
  obtain ⟨kept, divided⟩ :=
    before.invariant (fun x => Kept x.1 x.2 ∧ Divided g x.1) ⟨start_kept g, start_divided g⟩ keeps
  constructor
  · exact (orderly.invariant (fun x => Kept x.1 x.2 ∧ Divided g x.1) ⟨start_kept g, start_divided g⟩ keeps).1.account
  · intro enough
    rw [books, books, List.foldl_append]
    exact reaches kept divided behind enough

/-! ### Three words -/

set_option synthInstance.maxSize 256 in
instance : Decidable (Orderly g s i) :=
  decidable_of_iff (running s = true ∧
      ((offered s i).isSome = true → s.spi.takes s.cntrl.fgMode s.cntrl.dacConvExtern = true → s.spi.spiTrm = false) ∧
      (s.spi.spiSm = .load → spiClkEna s = true → s.cntrl.dacConvExtern = true → s.trig.trigDac = true →
        s.spi.spiTrm = false ∧ ((offered s i).isSome = true →
          s.spi.takes s.cntrl.fgMode s.cntrl.dacConvExtern = false)) ∧
      ((clock g s i).spi.spiSm = .load → (clock g s i).spi.spiTrm = true →
        (clock g s i).cntrl.dacConvExtern = s.cntrl.dacConvExtern))
    ⟨fun ⟨running, free, load, mode⟩ => ⟨running, free, load, mode⟩, fun ⟨running, free, load, mode⟩ =>
      ⟨running, free, load, mode⟩⟩

def idles : Inputs := ⟨0, 0, false, false, true, false, 0, false⟩

def writeTo (offset data : BitVec 16) : List Inputs :=
  [{ idles with adr := defaults.baseAddr + offset, data := data, extAdrVal := true, extWrActive := true },
    { idles with data := data }]

/-- A word, one in its shift, which is rejected, and one behind it. -/
def spaced : List Inputs :=
  writeTo 1 0xA5C3 ++ List.replicate 60 idles ++ writeTo 1 0x5555 ++ List.replicate 140 idles ++ writeTo 1 0x1234

theorem accounted_spaced :
    Accounted (books defaults (spaced ++ List.replicate 200 idles)).1
      (books defaults (spaced ++ List.replicate 200 idles)).2 ∧
      (books defaults spaced).2.accepted.length ≤
        (books defaults (spaced ++ List.replicate 200 idles)).2.line.frames.length := by
  have orderly : test (booked defaults) (fun x i => decide (Orderly defaults x.1 i)) (start defaults, Ledger.start)
      (spaced ++ List.replicate 200 idles) = true := by
    decide +kernel
  obtain ⟨all, out⟩ :=
    accounted defaults spaced (List.replicate 200 idles) ((test_iff.mp orderly).mono of_decide_eq_true)
  refine ⟨all, out ?_⟩
  rw [List.length_replicate]
  decide

def close : List Inputs := writeTo 1 0xA5C3 ++ writeTo 1 0x1234 ++ List.replicate 200 idles

/-- External convert mode, a word, another one in the enable in which the trigger is served, and a
third. -/
def served : List Inputs :=
  writeTo 0 0x0004 ++ List.replicate 3 idles ++ writeTo 1 0xA5C3 ++ List.replicate 190 idles ++
    (writeTo 1 0x5555).map (fun i => { i with nExtTrigDac := true }) ++ List.replicate 2
    { idles with nExtTrigDac := true } ++
    List.replicate 40 idles ++ writeTo 1 0x1234 ++ List.replicate 200 idles

/-- In both runs a word is neither rejected nor seen. -/
theorem close_served :
    ¬ Along (booked defaults) (fun x _ => Accounted x.1 x.2) (start defaults, Ledger.start) close ∧
      ¬ Along (booked defaults) (fun x _ => Accounted x.1 x.2) (start defaults, Ledger.start) served := by
  have lost : test (booked defaults) (fun x _ => decide (x.2.line.frames <+: x.2.accepted.map bitsOf))
      (start defaults, Ledger.start) close = false := by
    decide +kernel
  have skipped : test (booked defaults) (fun x _ => decide (x.2.line.frames <+: x.2.accepted.map bitsOf))
      (start defaults, Ledger.start) served = false := by
    decide +kernel
  constructor
  · intro all
    have whole := test_iff.mpr (all.mono fun accounted => decide_eq_true accounted.whole)
    exact Bool.false_ne_true (lost.symm.trans whole)
  · intro all
    have whole := test_iff.mpr (all.mono fun accounted => decide_eq_true accounted.whole)
    exact Bool.false_ne_true (skipped.symm.trans whole)

end BelProject.Dac.Words
