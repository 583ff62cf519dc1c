import BelProject.Dac.Dac714

/-! The serial line to the DAC. Each rising edge of `spi_clk` brings a bit while `nCS_DAC` is low,
and a frame ends when it rises. The phases of `SPI_SM` tell what is on the line. -/

namespace BelProject.Dac.Line
open Dac714

/-- What the DAC has seen: the bits since `nCS_DAC` fell, and the frames before. -/
structure Seen where
  bits : List Bool
  frames : List (List Bool)

/-- From the registers before an edge and behind it. -/
def Seen.next (l : Seen) (r r' : Spi) : Seen where
  bits :=
    if r.nCs && !r'.nCs then []
    else if !r.nCs && !r.spiClk && r'.spiClk then l.bits ++ [r.shiftReg.msb]
    else l.bits
  frames := if !r.nCs && r'.nCs then l.frames ++ [l.bits] else l.frames

/-- `nLD_DAC` falls. -/
def loads (r r' : Spi) : Bool := r.nLd && !r'.nLd

inductive Phase (r : Spi) (count : ℕ) : Prop
  | idle (sm : r.spiSm = .idle) (nCs : r.nCs = true)
  | selOn (sm : r.spiSm = .selOn) (nCs : r.nCs = true) (nLd : r.nLd = true) (spiClk : r.spiClk = true)
      (bitCnt : r.bitCnt = 0)
  | clkLo (sm : r.spiSm = .clkLo) (nCs : r.nCs = false) (nLd : r.nLd = true) (spiClk : r.spiClk = true)
      (bitCnt : r.bitCnt = count) (inside : count ≤ 16)
  | clkHi (sm : r.spiSm = .clkHi) (nCs : r.nCs = false) (nLd : r.nLd = true) (spiClk : r.spiClk = false)
      (bitCnt : r.bitCnt = count) (inside : count < 16)
  | behind (sm : r.spiSm = .selOff ∨ r.spiSm = .load ∨ r.spiSm = .loadWait) (nCs : r.nCs = true)
      (nLd : r.nLd = true) (all : count = 16)
  | loadEnd (sm : r.spiSm = .loadEnd) (nCs : r.nCs = true) (nLd : r.nLd = false)

variable {r r' : Spi} {l : Seen} {fgMode convExtern trigDac ena : Bool} {offered : Option (BitVec 16)}

def half (r : Spi) (fgMode convExtern : Bool) (offered : Option (BitVec 16)) : Spi :=
  Spi.word { r with clearSpiClk := false, newTrmDuringTrmActive := false, extTrigValid := false } fgMode convExtern offered

structure Same (r r' : Spi) : Prop where
  spiSm : r'.spiSm = r.spiSm
  bitCnt : r'.bitCnt = r.bitCnt
  nCs : r'.nCs = r.nCs
  spiClk : r'.spiClk = r.spiClk
  nLd : r'.nLd = r.nLd

theorem half_same (r : Spi) (fgMode convExtern : Bool) (offered : Option (BitVec 16)) :
    Same r (half r fgMode convExtern offered) := by
  cases offered with
  | none => exact ⟨rfl, rfl, rfl, rfl, rfl⟩
  | some data =>
    rw [half, Spi.word]
    split_ifs
    all_goals exact ⟨rfl, rfl, rfl, rfl, rfl⟩

theorem clock_rest : r.clock fgMode convExtern trigDac false offered = half r fgMode convExtern offered := rfl

theorem clock_ena : r.clock fgMode convExtern trigDac true offered =
    r.advance convExtern trigDac (half r fgMode convExtern offered) := rfl

theorem next_same (same : Same r r') : l.next r r' = l := by
  rw [Seen.next, same.nCs, same.spiClk]
  cases r.nCs with
  | false =>
    cases r.spiClk with
    | false => rfl
    | true => rfl
  | true => rfl

variable {count : ℕ}

theorem Phase.same (phase : Phase r count) (same : Same r r') : Phase r' count := by
  cases phase with
  | idle sm nCs => exact .idle (same.spiSm.trans sm) (same.nCs.trans nCs)
  | selOn sm nCs nLd spiClk bitCnt =>
    exact .selOn (same.spiSm.trans sm) (same.nCs.trans nCs) (same.nLd.trans nLd)
      (same.spiClk.trans spiClk) (same.bitCnt.trans bitCnt)
  | clkLo sm nCs nLd spiClk bitCnt inside =>
    exact .clkLo (same.spiSm.trans sm) (same.nCs.trans nCs) (same.nLd.trans nLd)
      (same.spiClk.trans spiClk) (same.bitCnt.trans bitCnt) inside
  | clkHi sm nCs nLd spiClk bitCnt inside =>
    exact .clkHi (same.spiSm.trans sm) (same.nCs.trans nCs) (same.nLd.trans nLd)
      (same.spiClk.trans spiClk) (same.bitCnt.trans bitCnt) inside
  | behind sm nCs nLd all =>
    refine .behind ?_ (same.nCs.trans nCs) (same.nLd.trans nLd) all
    rw [same.spiSm]
    exact sm
  | loadEnd sm nCs nLd => exact .loadEnd (same.spiSm.trans sm) (same.nCs.trans nCs) (same.nLd.trans nLd)

theorem phase_reset (count : ℕ) : Phase Spi.reset count := .idle rfl rfl

theorem bits_high (before : r.nCs = true) (behind : r'.nCs = true) : (l.next r r').bits = l.bits := by
  rw [Seen.next, before, behind]
  rfl

theorem bits_start (before : r.nCs = true) (behind : r'.nCs = false) : (l.next r r').bits = [] := by
  rw [Seen.next, before, behind]
  rfl

theorem bits_fall (low : r.nCs = false) (before : r.spiClk = true) : (l.next r r').bits = l.bits := by
  rw [Seen.next, low, before]
  rfl

theorem bits_rise (low : r.nCs = false) (before : r.spiClk = false) (behind : r'.spiClk = true) :
    (l.next r r').bits = l.bits ++ [r.shiftReg.msb] := by
  rw [Seen.next, low, before, behind]
  rfl

theorem frames_high (before : r.nCs = true) : (l.next r r').frames = l.frames := by
  rw [Seen.next, before]
  rfl

theorem frames_low (behind : r'.nCs = false) : (l.next r r').frames = l.frames := by
  rw [Seen.next, behind, Bool.and_false]
  rfl

theorem frames_end (before : r.nCs = false) (behind : r'.nCs = true) : (l.next r r').frames = l.frames ++ [l.bits] := by
  rw [Seen.next, before, behind]
  rfl

theorem Phase.high (before : r.nCs = true) (behind : r'.nCs = true) (phase : Phase r' l.bits.length) :
    Phase r' (l.next r r').bits.length := by
  rw [bits_high before behind]
  exact phase

theorem Phase.fall (low : r.nCs = false) (before : r.spiClk = true) (phase : Phase r' l.bits.length) :
    Phase r' (l.next r r').bits.length := by
  rw [bits_fall low before]
  exact phase

theorem Phase.clock (phase : Phase r l.bits.length) :
    Phase (r.clock fgMode convExtern trigDac ena offered)
      (l.next r (r.clock fgMode convExtern trigDac ena offered)).bits.length := by
  have same := half_same r fgMode convExtern offered
  cases ena with
  | false =>
    rw [clock_rest, next_same same]
    exact phase.same same
  | true =>
    rw [clock_ena]
    generalize half r fgMode convExtern offered = q at same
    cases phase with
    | idle sm nCs =>
      rw [Spi.advance, sm]
      cases r.spiTrm with
      | false => exact .idle rfl rfl
      | true => exact .selOn rfl rfl rfl rfl rfl
    | selOn sm nCs nLd spiClk bitCnt =>
      rw [Spi.advance, sm]
      dsimp only
      rw [bits_start nCs rfl]
      exact .clkLo rfl rfl (same.nLd.trans nLd) (same.spiClk.trans spiClk) (same.bitCnt.trans bitCnt) (Nat.zero_le _)
    | clkLo sm nCs nLd spiClk bitCnt inside =>
      rw [Spi.advance, sm]
      apply Phase.fall nCs spiClk
      dsimp only
      by_cases more : r.bitCnt ≤ 15
      · rw [if_pos more]
        exact .clkHi rfl (same.nCs.trans nCs) (same.nLd.trans nLd) rfl (same.bitCnt.trans bitCnt) (by omega)
      · rw [if_neg more]
        exact .behind (Or.inl rfl) rfl (same.nLd.trans nLd) (by omega)
    | clkHi sm nCs nLd spiClk bitCnt inside =>
      rw [Spi.advance, sm]
      dsimp only
      rw [bits_rise nCs spiClk rfl, List.length_append, List.length_singleton]
      refine .clkLo rfl (same.nCs.trans nCs) (same.nLd.trans nLd) rfl ?_ inside
      rw [bitCnt]
      exact Nat.mod_eq_of_lt (by omega)
    | behind sm nCs nLd all =>
      rcases sm with sm | sm | sm
      · rw [Spi.advance, sm]
        exact Phase.high nCs (same.nCs.trans nCs)
          (.behind (Or.inr (Or.inl rfl)) (same.nCs.trans nCs) (same.nLd.trans nLd) all)
      · rw [Spi.advance, sm]
        dsimp only
        split_ifs
        · exact Phase.high nCs (same.nCs.trans nCs) (.loadEnd rfl (same.nCs.trans nCs) rfl)
        · exact Phase.high nCs (same.nCs.trans nCs) (.loadEnd rfl (same.nCs.trans nCs) rfl)
        · exact Phase.high nCs (same.nCs.trans nCs)
            (.behind (Or.inr (Or.inr rfl)) (same.nCs.trans nCs) (same.nLd.trans nLd) all)
      · rw [Spi.advance, sm]
        refine Phase.high nCs (same.nCs.trans nCs) ?_
        cases r.spiTrm with
        | false => exact .behind (Or.inr (Or.inl rfl)) (same.nCs.trans nCs) (same.nLd.trans nLd) all
        | true => exact .idle rfl (same.nCs.trans nCs)
    | loadEnd sm nCs nLd =>
      rw [Spi.advance, sm]
      exact .idle rfl (same.nCs.trans nCs)

theorem Phase.nCs_eq (phase : Phase r count) : r.nCs = !(r.spiSm == .clkLo || r.spiSm == .clkHi) := by
  cases phase with
  | idle sm nCs => rw [nCs, sm]; rfl
  | selOn sm nCs => rw [nCs, sm]; rfl
  | clkLo sm nCs => rw [nCs, sm]; rfl
  | clkHi sm nCs => rw [nCs, sm]; rfl
  | behind sm nCs =>
    rw [nCs]
    rcases sm with sm | sm | sm
    all_goals rw [sm]; rfl
  | loadEnd sm nCs => rw [nCs, sm]; rfl

theorem Phase.at_selOn (phase : Phase r count) (sm : r.spiSm = .selOn) : r.bitCnt = 0 := by
  cases phase with
  | selOn _ _ _ _ bitCnt => exact bitCnt
  | idle other | clkLo other | clkHi other | loadEnd other => exact absurd (sm.symm.trans other) SpiSm.noConfusion
  | behind other =>
    rw [sm] at other
    exact absurd other (by decide)

theorem Phase.at_clkLo (phase : Phase r count) (sm : r.spiSm = .clkLo) : r.spiClk = true ∧ r.bitCnt ≤ 16 := by
  cases phase with
  | clkLo _ _ _ spiClk bitCnt inside => exact ⟨spiClk, bitCnt.trans_le inside⟩
  | idle other | selOn other | clkHi other | loadEnd other => exact absurd (sm.symm.trans other) SpiSm.noConfusion
  | behind other =>
    rw [sm] at other
    exact absurd other (by decide)

theorem Phase.at_clkHi (phase : Phase r count) (sm : r.spiSm = .clkHi) : r.spiClk = false ∧ r.bitCnt < 16 := by
  cases phase with
  | clkHi _ _ _ spiClk bitCnt inside => exact ⟨spiClk, bitCnt.trans_lt inside⟩
  | idle other | selOn other | clkLo other | loadEnd other => exact absurd (sm.symm.trans other) SpiSm.noConfusion
  | behind other =>
    rw [sm] at other
    exact absurd other (by decide)

theorem Phase.at_load (phase : Phase r count) (sm : r.spiSm = .load) : r.nCs = true ∧ r.nLd = true ∧ count = 16 := by
  cases phase with
  | behind _ nCs nLd all => exact ⟨nCs, nLd, all⟩
  | idle other | selOn other | clkLo other | clkHi other | loadEnd other =>
      exact absurd (sm.symm.trans other) SpiSm.noConfusion

theorem loads_load (sm : r.spiSm = .load) (nLd : r.nLd = true) :
    loads r (r.clock fgMode convExtern trigDac true offered) = (!convExtern || trigDac) := by
  have same := half_same r fgMode convExtern offered
  rw [clock_ena, loads, Spi.advance, sm, nLd]
  cases convExtern with
  | false => rfl
  | true =>
    cases trigDac with
    | false =>
      change (!(half r fgMode true offered).nLd) = false
      rw [same.nLd, nLd]
      rfl
    | true => rfl

theorem loads_only (phase : Phase r count) (load : loads r (r.clock fgMode convExtern trigDac ena offered) = true) :
    r.spiSm = .load ∧ ena = true := by
  have same := half_same r fgMode convExtern offered
  rw [loads, Bool.and_eq_true, Bool.not_eq_true'] at load
  obtain ⟨before, falls⟩ := load
  have kept : (half r fgMode convExtern offered).nLd = true := same.nLd.trans before
  cases ena with
  | false =>
    rw [clock_rest, kept] at falls
    exact absurd falls.symm Bool.false_ne_true
  | true =>
    refine ⟨?_, rfl⟩
    rw [clock_ena] at falls
    generalize half r fgMode convExtern offered = q at kept falls
    cases phase with
    | idle sm nCs =>
      rw [Spi.advance, sm] at falls
      exact absurd falls.symm Bool.false_ne_true
    | selOn sm nCs nLd spiClk bitCnt =>
      rw [Spi.advance, sm] at falls
      exact absurd (kept.symm.trans falls).symm Bool.false_ne_true
    | clkLo sm nCs nLd spiClk bitCnt inside =>
      rw [Spi.advance, sm] at falls
      dsimp only at falls
      split_ifs at falls
      · exact absurd (kept.symm.trans falls).symm Bool.false_ne_true
      · exact absurd (kept.symm.trans falls).symm Bool.false_ne_true
      · exact absurd (kept.symm.trans falls).symm Bool.false_ne_true
    | clkHi sm nCs nLd spiClk bitCnt inside =>
      rw [Spi.advance, sm] at falls
      exact absurd (kept.symm.trans falls).symm Bool.false_ne_true
    | behind sm nCs nLd all =>
      rcases sm with sm | sm | sm
      · rw [Spi.advance, sm] at falls
        exact absurd (kept.symm.trans falls).symm Bool.false_ne_true
      · exact sm
      · rw [Spi.advance, sm] at falls
        exact absurd (kept.symm.trans falls).symm Bool.false_ne_true
    | loadEnd sm nCs nLd => exact absurd (nLd.symm.trans before) Bool.false_ne_true

end BelProject.Dac.Line
