import BelProject.Adc.Ad7606
import BelProject.Library.Runs

/-! The read over the two serial lines. The serial clock runs all the time, and its pin follows it
one clock late. The first bit is on a line from the falling edge of CS on, and each rising edge of
the pin brings the next one. A bit is taken before every second edge of the serial clock. -/

namespace BelProject.Adc.Serial
open BelProject.Library Ad7606 Runs

/-- The converter: CS and the clock pin in the clock before, the bits of the read, and how many
edges came. -/
structure Converter where
  cs : Bool
  sclk : Bool
  dataA : BitVec 64
  dataB : BitVec 64
  shifted : ℕ

structure World where
  regs : Registers
  converter : Converter

/-- With the bits of a read that begins, and the lines where no bit is. -/
structure Ports where
  nrst : Bool
  syncRst : Bool
  transferMode : BitVec 2
  busy : Bool
  dataA : BitVec 64
  dataB : BitVec 64
  noise : BitVec 16
  deriving DecidableEq

def Converter.follow (c : Converter) (nCs nRd : Bool) (dataA dataB : BitVec 64) : Converter :=
  if nCs then { c with cs := true, sclk := nRd }
  else if c.cs then ⟨false, nRd, dataA, dataB, 0⟩
  else { c with sclk := nRd, shifted := if !c.sclk && nRd then c.shifted + 1 else c.shifted }

def Converter.line (c : Converter) (data : BitVec 64) (noise : Bool) : Bool :=
  if c.cs = false ∧ c.shifted < 64 then data.getLsbD (63 - c.shifted) else noise

def Converter.bus (c : Converter) (noise : BitVec 16) : BitVec 16 :=
  noise.extractLsb' 9 7 ++
    (BitVec.ofBool (c.line c.dataB (noise.getLsbD 8)) ++ BitVec.ofBool (c.line c.dataA (noise.getLsbD 7)) : BitVec 2) ++
    noise.extractLsb' 0 7

def step (g : Generics) (w : World) (i : Ports) : World :=
  let cycle := (settle w.regs i.nrst i.syncRst).cycle
  let converter := w.converter.follow cycle.nCs cycle.nRd i.dataA i.dataB
  { regs := clock g.constants w.regs ⟨i.nrst, i.syncRst, i.transferMode, i.busy, converter.bus i.noise⟩
    converter := converter }

def Completes (w : World) (i : Ports) : Prop :=
  (settle w.regs i.nrst i.syncRst).cycle.convState = .readSer ∧
    (settle w.regs i.nrst i.syncRst).shift.bitCount = serLength

/-- The registers hold the bits of both lines. -/
structure Stored (w : World) : Prop where
  lineA : w.regs.shift.shadowRegs 0 ++ w.regs.shift.shadowRegs 1 ++ w.regs.shift.shadowRegs 2 ++
    w.regs.shift.shadowRegs 3 =
    w.converter.dataA
  lineB : w.regs.shift.shadowRegs 4 ++ w.regs.shift.shadowRegs 5 ++ w.regs.shift.shadowRegs 6 ++
    w.regs.shift.shadowRegs 7 =
    w.converter.dataB

/-- In its first clock, with CS still high, a read finds the serial clock away from its edge and no
bits counted. -/
def Ready (w : World) (i : Ports) : Prop :=
  (settle w.regs i.nrst i.syncRst).cycle.convState = .readSer → (settle w.regs i.nrst i.syncRst).cycle.nCs = true →
    (settle w.regs i.nrst i.syncRst).serial.sclkEn = false ∧ (settle w.regs i.nrst i.syncRst).shift.bitCount = 0

instance (w : World) (i : Ports) : Decidable (Ready w i) := inferInstanceAs (Decidable (_ → _ → _ ∧ _))

def level (first : Bool) (n : ℕ) : Bool := if n % 2 = 0 then first else !first

def rises (first : Bool) (n : ℕ) : ℕ := if first then n / 2 else (n + 1) / 2

theorem level_succ (first : Bool) (n : ℕ) : level first (n + 1) = !level first n := by
  rw [level, level]
  rcases Nat.mod_two_eq_zero_or_one n with even | odd
  · rw [if_neg (by omega), if_pos even]
  · rw [if_pos (by omega), if_neg (by omega), Bool.not_not]

theorem rises_succ (first : Bool) (n : ℕ) :
    rises first (n + 1) = if !level first n && level first (n + 1) then rises first n + 1 else rises first n := by
  rw [level_succ, Bool.and_self, level]
  cases first <;> rcases Nat.mod_two_eq_zero_or_one n with even | odd <;> simp [rises, *] <;> omega

theorem rises_even (first : Bool) {n : ℕ} (even : n % 2 = 0) : rises first n = n / 2 := by
  cases first
  · exact show (n + 1) / 2 = n / 2 by omega
  · rfl

variable {older lag : ℕ}

theorem rises_next (first : Bool) (before : older ≤ lag) (near : lag ≤ older + 1) :
    (if !level first older && level first lag then rises first older + 1 else rises first older) = rises first lag := by
  rcases before.eq_or_lt with rfl | edge
  · rw [Bool.not_and_self, if_neg Bool.false_ne_true]
  · obtain rfl : lag = older + 1 := by omega
    exact (rises_succ first older).symm

def Taken (n : ℕ) (register data : BitVec 64) : Prop := ∀ j < n, register.getLsbD j = data.getLsbD (64 - n + j)

theorem Taken.next {n : ℕ} {register data : BitVec 64} (taken : Taken n register data) (few : n < 64) {bit : Bool}
    (comes : bit = data.getLsbD (63 - n)) : Taken (n + 1) ((register.setWidth 63).concat bit) data := by
  intro j inside
  rw [BitVec.getLsbD_concat]
  cases j with
  | zero =>
    have place : 64 - (n + 1) + 0 = 63 - n := by omega
    rw [if_pos rfl, comes, place]
  | succ j =>
    have before := taken j (Nat.lt_of_succ_lt_succ inside)
    have place : 64 - (n + 1) + (j + 1) = 64 - n + j := by omega
    rw [if_neg (Nat.succ_ne_zero j), Nat.add_sub_cancel, BitVec.getLsbD_setWidth, before, place,
      decide_eq_true (by omega), Bool.true_and]

theorem Taken.all {register data : BitVec 64} (taken : Taken 64 register data) : register = data := by
  apply BitVec.eq_of_getLsbD_eq
  intro j inside
  rw [taken j inside, Nat.sub_self, Nat.zero_add]

theorem bus_lines (c : Converter) (noise : BitVec 16) :
    (c.bus noise).getLsbD 7 = c.line c.dataA (noise.getLsbD 7) ∧ (c.bus noise).getLsbD 8 =
      c.line c.dataB (noise.getLsbD 8) := by
  have parts {k : ℕ} (pair : BitVec 2) (inside : 7 ≤ k ∧ k < 9) :
      (noise.extractLsb' 9 7 ++ pair ++ noise.extractLsb' 0 7).getLsbD k = pair.getLsbD (k - 7) := by
    rw [BitVec.getLsbD_append, if_neg (by omega), BitVec.getLsbD_append, if_pos (by omega)]
  have pair (b a : Bool) : (BitVec.ofBool b ++ BitVec.ofBool a : BitVec 2).getLsbD 0 = a ∧
      (BitVec.ofBool b ++ BitVec.ofBool a : BitVec 2).getLsbD 1 = b := by
    revert b a
    decide
  exact ⟨(parts _ (by decide)).trans (pair _ _).1, (parts _ (by decide)).trans (pair _ _).2⟩

theorem dbIn_lines (c : Cycle) (bus : BitVec 16) :
    (dbIn c bus).getLsbD 7 = bus.getLsbD 7 ∧ (dbIn c bus).getLsbD 8 = bus.getLsbD 8 := by
  have low {k : ℕ} (inside : k < 14) (driven : BitVec 2) :
    (driven ++ bus.extractLsb' 0 14).getLsbD k = bus.getLsbD k := by
    rw [BitVec.getLsbD_append, if_pos inside, BitVec.getLsbD_extractLsb', decide_eq_true inside,
      Bool.true_and, Nat.zero_add]
  rw [dbIn]
  split_ifs
  · exact ⟨low (by decide) _, low (by decide) _⟩
  · exact ⟨rfl, rfl⟩

theorem quarters (data : BitVec 64) :
    data.extractLsb' 48 16 ++ data.extractLsb' 32 16 ++ data.extractLsb' 16 16 ++ data.extractLsb' 0 16 = data := by
  rw [BitVec.extractLsb'_append_extractLsb'_eq_extractLsb' (by decide),
    BitVec.extractLsb'_append_extractLsb'_eq_extractLsb' (by decide),
    BitVec.extractLsb'_append_extractLsb'_eq_extractLsb' (by decide)]
  exact BitVec.extractLsb'_eq_self

/-- The edge of the serial clock comes when its counter has wrapped. -/
def Ticks (s : Ad7606.Serial) : Prop := s.sclkEn = true → s.sclkCnt = 0

/-- A read from its third clock on: the edges seen by the registers, by the pin and by the
converter. -/
structure Shifting (w : World) (first : Bool) (older lag : ℕ) : Prop where
  state : w.regs.cycle.convState = .readSer
  low : w.regs.cycle.nCs = false ∧ w.converter.cs = false
  near : older ≤ lag ∧ lag ≤ w.regs.shift.bitCount ∧ w.regs.shift.bitCount ≤ older + 1
  settled : w.regs.serial.sclkEn = true → lag = w.regs.shift.bitCount
  sclk : w.regs.serial.sclk = level first w.regs.shift.bitCount
  pin : w.regs.cycle.nRd = level first lag
  heard : w.converter.sclk = level first older ∧ w.converter.shifted = rises first older
  few : w.regs.shift.bitCount ≤ serLength
  takenA : Taken ((w.regs.shift.bitCount + 1) / 2) w.regs.shift.shiftRegA w.converter.dataA
  takenB : Taken ((w.regs.shift.bitCount + 1) / 2) w.regs.shift.shiftRegB w.converter.dataB

inductive Phase (w : World) : Prop
  | elsewhere (other : w.regs.cycle.convState ≠ .readSer)
  | first (state : w.regs.cycle.convState = .readSer) (high : w.regs.cycle.nCs = true)
  | selected (state : w.regs.cycle.convState = .readSer) (low : w.regs.cycle.nCs = false) (cs : w.converter.cs = true)
      (none : w.regs.shift.bitCount = 0) (pin : w.regs.cycle.nRd = w.regs.serial.sclk)
  | shifting (first : Bool) (older lag : ℕ) (shifting : Shifting w first older lag)

section
variable {g : Generics} {w : World} {i : Ports}

def Ports.Free (i : Ports) : Prop := i.nrst = true ∧ i.syncRst = false

/-- The registers of the next clock, from those of this one. -/
structure Clocked (g : Generics) (w : World) (i : Ports) : Prop where
  cycle : (step g w i).regs.cycle =
    convCycle g.constants w.regs.cycle w.regs.serial.sclk w.regs.shift.bitCount w.regs.syncBusy2 i.transferMode
  serial : (step g w i).regs.serial = w.regs.serial.clock g.constants
  shift : (step g w i).regs.shift =
    w.regs.shift.clock w.regs.cycle w.regs.serial.sclkEn (dbIn w.regs.cycle ((step g w i).converter.bus i.noise))
  converter : (step g w i).converter = w.converter.follow w.regs.cycle.nCs w.regs.cycle.nRd i.dataA i.dataB

theorem step_free (free : i.Free) : Clocked g w i := by
  refine ⟨?_, ?_, ?_, ?_⟩ <;> rw [step, settle_free free, clock_free] <;> exact free

theorem step_reset (asserted : ¬i.Free) : (step g w i).regs.cycle = w.regs.cycle.cleared := clock_reset asserted

theorem serial_next (high : i.nrst = true) : (step g w i).regs.serial = w.regs.serial.clock g.constants := by
  simp only [step, clock, settle, high]
  cases i.syncRst <;> rfl

theorem step_ticks : Ticks (step g w i).regs.serial := by
  cases high : i.nrst with
  | false =>
    intro _
    simp only [step, clock, settle, high]
    rfl
  | true =>
    rw [serial_next high]
    exact fun last => if_pos last

theorem Ticks.apart (fast : 1 < g.constants.sclkCnt) (ticks : Ticks w.regs.serial) (high : i.nrst = true)
    (next : (step g w i).regs.serial.sclkEn = true) : w.regs.serial.sclkEn = false := by
  rw [serial_next high] at next
  have last := (beq_iff_eq.mp next).trans (toUnsigned_of_le (Nat.sub_le _ _))
  rw [Bool.eq_false_iff]
  intro edge
  rw [ticks edge] at last
  omega

theorem shift_next {s : Shift} {c : Cycle} {sclkEn : Bool} {db : BitVec 16} {dataA dataB : BitVec 64}
    (state : c.convState = .readSer)
    (more : s.bitCount < serLength) (takenA : Taken ((s.bitCount + 1) / 2) s.shiftRegA dataA)
    (takenB : Taken ((s.bitCount + 1) / 2) s.shiftRegB dataB)
    (bits : sclkEn = true → s.bitCount % 2 = 0 →
      db.getLsbD 7 = dataA.getLsbD (63 - s.bitCount / 2) ∧ db.getLsbD 8 = dataB.getLsbD (63 - s.bitCount / 2)) :
    (s.clock c sclkEn db).bitCount = s.bitCount + sclkEn.toNat ∧
      Taken (((s.clock c sclkEn db).bitCount + 1) / 2) (s.clock c sclkEn db).shiftRegA dataA ∧
      Taken (((s.clock c sclkEn db).bitCount + 1) / 2) (s.clock c sclkEn db).shiftRegB dataB := by
  have limit : s.bitCount < 128 := more
  cases sclkEn with
  | false =>
    have same : s.clock c false db = s := by
      rw [Shift.clock, if_pos state, Bool.false_and, if_neg Bool.false_ne_true, if_neg more.ne]
    rw [same]
    exact ⟨rfl, takenA, takenB⟩
  | true =>
    rw [Shift.clock, if_pos state, Bool.true_and, if_pos (decide_eq_true more)]
    split_ifs with even
    · obtain ⟨bitA, bitB⟩ := bits rfl even
      have half : (s.bitCount + 1) / 2 = s.bitCount / 2 := by omega
      have next : (s.bitCount + 1 + 1) / 2 = s.bitCount / 2 + 1 := by omega
      rw [half] at takenA takenB
      simp only [next]
      exact ⟨rfl, takenA.next (by omega) bitA, takenB.next (by omega) bitB⟩
    · have same : (s.bitCount + 1 + 1) / 2 = (s.bitCount + 1) / 2 := by omega
      simp only [same]
      exact ⟨rfl, takenA, takenB⟩

theorem read_next (free : i.Free) (state : w.regs.cycle.convState = .readSer) :
    (step g w i).regs.cycle.convState = (if w.regs.shift.bitCount = serLength then .idle else .readSer) ∧
      (step g w i).regs.cycle.nCs = false ∧ (step g w i).regs.cycle.nRd = w.regs.serial.sclk := by
  rw [(step_free (g := g) free).cycle]
  simp only [convCycle, state]
  exact ⟨trivial, trivial, trivial⟩

theorem sclk_next {first : Bool} (free : i.Free) {n : ℕ} (sclk : w.regs.serial.sclk = level first n) :
    (step g w i).regs.serial.sclk = level first (n + w.regs.serial.sclkEn.toNat) := by
  rw [serial_next free.1]
  change (if w.regs.serial.sclkEn then !w.regs.serial.sclk else w.regs.serial.sclk) = _
  rw [sclk]
  cases w.regs.serial.sclkEn with
  | false => rfl
  | true => exact (level_succ first n).symm

theorem line_of_low {c : Converter} {data : BitVec 64} {noise : Bool} {n : ℕ} (cs : c.cs = false)
    (shifted : c.shifted = n) (few : n < 64) :
    c.line data noise = data.getLsbD (63 - n) := by
  rw [Converter.line, shifted, if_pos ⟨cs, few⟩]

theorem reading_next (first : Bool) (lag : ℕ) (fast : 1 < g.constants.sclkCnt)
    (ticks : Ticks w.regs.serial) (free : i.Free)
    (state : w.regs.cycle.convState = .readSer) (more : w.regs.shift.bitCount < serLength)
    (near : lag ≤ w.regs.shift.bitCount ∧ w.regs.shift.bitCount ≤ lag + 1)
    (settled : w.regs.serial.sclkEn = true → lag = w.regs.shift.bitCount)
    (sclk : w.regs.serial.sclk = level first w.regs.shift.bitCount)
    (converter : (step g w i).converter.cs = false ∧ (step g w i).converter.sclk = level first lag ∧
      (step g w i).converter.shifted = rises first lag)
    (takenA : Taken ((w.regs.shift.bitCount + 1) / 2) w.regs.shift.shiftRegA (step g w i).converter.dataA)
    (takenB : Taken ((w.regs.shift.bitCount + 1) / 2) w.regs.shift.shiftRegB (step g w i).converter.dataB) :
    Shifting (step g w i) first lag w.regs.shift.bitCount := by
  have clocked := step_free (g := g) (w := w) free
  obtain ⟨cs, heard, shifted⟩ := converter
  obtain ⟨nextState, nextCs, nextRd⟩ := read_next (g := g) free state
  have bits (edge : w.regs.serial.sclkEn = true) (even : w.regs.shift.bitCount % 2 = 0) :
      (dbIn w.regs.cycle ((step g w i).converter.bus i.noise)).getLsbD 7 =
          (step g w i).converter.dataA.getLsbD (63 - w.regs.shift.bitCount / 2) ∧
        (dbIn w.regs.cycle ((step g w i).converter.bus i.noise)).getLsbD 8 =
          (step g w i).converter.dataB.getLsbD (63 - w.regs.shift.bitCount / 2) := by
    have limit : w.regs.shift.bitCount < 128 := more
    rw [settled edge, rises_even first even] at shifted
    rw [(dbIn_lines _ _).1, (dbIn_lines _ _).2, (bus_lines _ _).1, (bus_lines _ _).2, line_of_low cs shifted (by omega),
      line_of_low cs shifted (by omega)]
    exact ⟨rfl, rfl⟩
  obtain ⟨count, nextA, nextB⟩ := shift_next state more takenA takenB bits
  rw [← clocked.shift] at count nextA nextB
  have edge : w.regs.serial.sclkEn.toNat ≤ 1 := Bool.toNat_le _
  exact
    { state := by rw [nextState, if_neg more.ne]
      low := ⟨nextCs, cs⟩
      near := by
        refine ⟨near.1, by omega, ?_⟩
        cases en : w.regs.serial.sclkEn with
        | false =>
          rw [en, Bool.toNat_false] at count
          omega
        | true =>
          have same := settled en
          omega
      settled := fun next => by rw [count, ticks.apart fast free.1 next, Bool.toNat_false, Nat.add_zero]
      sclk := by rw [count, sclk_next free sclk]
      pin := by rw [nextRd, sclk]
      heard := ⟨heard, shifted⟩
      few := by
        rw [count]
        omega
      takenA := nextA
      takenB := nextB }

theorem selected_next (fast : 1 < g.constants.sclkCnt) (ticks : Ticks w.regs.serial) (free : i.Free)
    (state : w.regs.cycle.convState = .readSer) (low : w.regs.cycle.nCs = false) (cs : w.converter.cs = true)
    (none : w.regs.shift.bitCount = 0) (pin : w.regs.cycle.nRd = w.regs.serial.sclk) :
    Shifting (step g w i) w.regs.serial.sclk 0 0 := by
  have clocked := step_free (g := g) (w := w) free
  have converter : (step g w i).converter = ⟨false, w.regs.cycle.nRd, i.dataA, i.dataB, 0⟩ := by
    rw [clocked.converter, Converter.follow, low, if_neg Bool.false_ne_true, cs, if_pos rfl]
  have empty (register data : BitVec 64) : Taken ((w.regs.shift.bitCount + 1) / 2) register data := by
    rw [none]
    exact fun j never => absurd never (Nat.not_lt_zero j)
  have next := reading_next w.regs.serial.sclk 0 fast ticks free state (by rw [none]; decide)
    ⟨Nat.zero_le _, by omega⟩ (fun _ => none.symm) (by rw [none]; rfl)
    (by rw [converter]; exact ⟨rfl, pin, by cases w.regs.serial.sclk <;> rfl⟩) (empty _ _) (empty _ _)
  rwa [none] at next

theorem Shifting.next {first : Bool} (fast : 1 < g.constants.sclkCnt) (ticks : Ticks w.regs.serial) (free : i.Free)
    (shifting : Shifting w first older lag) (more : w.regs.shift.bitCount < serLength) :
    Shifting (step g w i) first lag w.regs.shift.bitCount := by
  have clocked := step_free (g := g) (w := w) free
  obtain ⟨before, behind, close⟩ := shifting.near
  have converter : (step g w i).converter = ⟨false, level first lag, w.converter.dataA,
    w.converter.dataB, rises first lag⟩ := by
    rw [clocked.converter, Converter.follow, shifting.low.1, if_neg Bool.false_ne_true, shifting.low.2,
      if_neg Bool.false_ne_true,
      shifting.pin, shifting.heard.1, shifting.heard.2, rises_next first before (by omega)]
  exact reading_next first lag fast ticks free shifting.state more ⟨behind, by omega⟩ shifting.settled shifting.sclk
    (by rw [converter]; exact ⟨rfl, rfl, rfl⟩) (by rw [converter]; exact shifting.takenA)
    (by rw [converter]; exact shifting.takenB)

theorem Shifting.stored {first : Bool} (free : i.Free) (shifting : Shifting w first older lag)
    (all : w.regs.shift.bitCount = serLength) : Stored (step g w i) := by
  have clocked := step_free (g := g) (w := w) free
  have converter : (step g w i).converter.dataA = w.converter.dataA ∧ (step g w i).converter.dataB =
    w.converter.dataB := by
    rw [clocked.converter, Converter.follow, shifting.low.1, if_neg Bool.false_ne_true, shifting.low.2,
      if_neg Bool.false_ne_true]
    exact ⟨rfl, rfl⟩
  have takenA := shifting.takenA
  have takenB := shifting.takenB
  rw [all] at takenA takenB
  have shadow (n : ℕ) (inside : n < 8) : (step g w i).regs.shift.shadowRegs n =
    unpack w.converter.dataA w.converter.dataB n := by
    have full : ¬(w.regs.serial.sclkEn && decide (w.regs.shift.bitCount < serLength)) = true := by
      rw [all, decide_eq_false (lt_irrefl serLength), Bool.and_false]
      exact Bool.false_ne_true
    rw [clocked.shift, Shift.clock, if_pos shifting.state, if_neg full, if_pos all, ← Taken.all takenA,
      ← Taken.all takenB]
    exact if_pos inside
  refine ⟨?_, ?_⟩
  · rw [shadow 0 (by decide), shadow 1 (by decide), shadow 2 (by decide), shadow 3 (by decide), converter.1]
    exact quarters _
  · rw [shadow 4 (by decide), shadow 5 (by decide), shadow 6 (by decide), shadow 7 (by decide), converter.2]
    exact quarters _

theorem next_elsewhere {k : Constants} {c : Cycle} {sclk syncBusy2 : Bool} {bitCount : ℕ} {transferMode : BitVec 2}
    (other : c.convState ≠ .readSer) (reads : (convCycle k c sclk bitCount syncBusy2
      transferMode).convState = .readSer) :
    (convCycle k c sclk bitCount syncBusy2 transferMode).nCs = true := by
  cases place : c.convState <;> simp only [convCycle, place] at reads ⊢
  case readSer => exact absurd place other
  case waitRdLow => split_ifs at reads
  case dataReady => split_ifs at reads ⊢

theorem Phase.next (fast : 1 < g.constants.sclkCnt) (ticks : Ticks w.regs.serial) (phase : Phase w)
    (ready : Ready w i) :
    Phase (step g w i) := by
  by_cases free : i.Free
  · have clocked := step_free (g := g) (w := w) free
    cases phase with
    | elsewhere other =>
      by_cases reads : (step g w i).regs.cycle.convState = .readSer
      · rw [clocked.cycle] at reads
        exact .first (by rw [clocked.cycle, reads]) (by rw [clocked.cycle, next_elsewhere other reads])
      · exact .elsewhere reads
    | first state high =>
      rw [Ready, settle_free free] at ready
      obtain ⟨away, none⟩ := ready state high
      obtain ⟨nextState, nextCs, nextRd⟩ := read_next (g := g) free state
      refine .selected ?_ nextCs ?_ ?_ ?_
      · rw [nextState, none]
        rfl
      · rw [clocked.converter, Converter.follow, high]
        rfl
      · rw [clocked.shift, Shift.clock, if_pos state, away, none]
        exact none
      · rw [nextRd, clocked.serial, Ad7606.Serial.clock, away]
        rfl
    | selected state low cs none pin => exact .shifting _ 0 0 (selected_next fast ticks free state low cs none pin)
    | shifting first older lag shifting =>
      rcases shifting.few.lt_or_eq with more | all
      · exact .shifting first lag _ (shifting.next fast ticks free more)
      · have ends := (read_next (g := g) free shifting.state).1
        exact .elsewhere (by rw [ends, if_pos all]; decide)
  · exact .elsewhere (by rw [step_reset free]; exact fun reads => State.noConfusion reads)

theorem Phase.stored (phase : Phase w) (ready : Ready w i) (completes : Completes w i) : Stored (step g w i) := by
  obtain ⟨state, all⟩ := completes
  by_cases free : i.Free
  · rw [settle_free free] at state all
    cases phase with
    | elsewhere other => exact absurd state other
    | first _ high =>
      rw [Ready, settle_free free] at ready
      have none := (ready state high).2
      exact absurd (none.symm.trans all) (by decide)
    | selected _ _ _ none _ => exact absurd (none.symm.trans all) (by decide)
    | shifting first older lag shifting => exact shifting.stored free all
  · rw [settle_reset free] at state
    exact State.noConfusion state

end

theorem sclkCnt_of_fast {g : Generics} (fast : 2 * g.sclkInHz < g.clkInHz) : 1 < g.constants.sclkCnt := by
  have slow : (0 : ℚ) < g.sclkInHz := by exact_mod_cast g.clocks.2
  have twice : (2 : ℚ) * g.sclkInHz < g.clkInHz := by exact_mod_cast fast
  have half : (1 : ℚ) < g.clkInHz / g.sclkInHz / 2 := by
    rw [lt_div_iff₀ two_pos, one_mul, lt_div_iff₀ slow]
    exact twice
  exact Nat.lt_ceil.mpr (by exact_mod_cast half)

def start (r : Registers) (c : Converter) : World := ⟨settle r false false, c⟩

/-- In a run whose reads all begin away from an edge of the serial clock and with no bits counted,
each read that is completed has stored the 64 bits of both lines in their order. -/
theorem serial_readOut (g : Generics) (fast : 2 * g.sclkInHz < g.clkInHz) (r : Registers)
    (c : Converter) (inputs : List Ports)
    (ready : Along (step g) Ready (start r c) inputs) :
    Along (step g) (fun w i => Completes w i → Stored (step g w i)) (start r c) inputs := by
  have apart := sclkCnt_of_fast fast
  apply ready.derive fun w => Ticks w.regs.serial ∧ Phase w
  · exact ⟨fun _ => rfl, .elsewhere fun reads => State.noConfusion reads⟩
  · exact fun holds ready => ⟨step_ticks, holds.2.next apart holds.1 ready⟩
  · exact fun holds ready => holds.2.stored ready

def quiet : Converter := ⟨true, true, 0, 0, 0⟩

def port (busy : Bool) : Ports := ⟨true, false, 1, busy, 0x0123456789ABCDEF, 0xFEDCBA9876543210, 0xFFFF⟩

def conversion (clocks : ℕ) : List Ports :=
  List.replicate 310 (port false) ++ List.replicate clocks (port true) ++ List.replicate 260 (port false)

/-- A read with the default generics. -/
theorem ten_stored :
    Completes (((conversion 10).take 579).foldl (step .defaults) (start .zero quiet)) (port false) ∧
      Along (step .defaults) (fun w i => Completes w i → Stored (step .defaults w i))
        (start .zero quiet) (conversion 10) :=
  ⟨⟨by decide +kernel, by decide +kernel⟩, serial_readOut .defaults (by decide) .zero quiet
    (conversion 10) (by decide +kernel)⟩

/-- After a conversion of nine clocks an edge of the serial clock is there before CS has fallen, and
the first bit is lost. -/
theorem nine_lost :
    ¬ Along (step .defaults) (fun w i => Completes w i → Stored (step .defaults w i))
      (start .zero quiet) (conversion 9) := by
  intro along
  have stored := along_iff.mp along ((conversion 9).take 577) (port false) [port false] (by decide +kernel)
    ⟨by decide +kernel, by decide +kernel⟩
  exact absurd stored.lineA (by decide +kernel)

/-- A read that a synchronous reset cuts off, and the next one, away from the edges of the serial
clock. -/
def cut : List Ports := (conversion 10).take 420 ++ { port false with syncRst := true } :: conversion 9

-- the bits of the first read are still counted, and the second is over too early
example :
    ((cut.take 903).foldl (step .defaults) (start .zero quiet)).regs.shift.bitCount = serLength ∧
      ((cut.take 904).foldl (step .defaults) (start .zero quiet)).regs.shift.shadowRegs 1 ≠ 0x4567 := by decide +kernel

end BelProject.Adc.Serial
