import BelProject.Library.Traces
import BelProject.Library.Window
import BelProject.ScuBus.Master

/-! The service requests of `wb_scu_bus`: `P_Reset`, `p_intr` and `irq_deglitch` beside the master,
which has the register that enables them. -/

namespace BelProject.ScuBus.Deglitch
open Library.Traces Library.Window Master

/-- The variables `cnt(i)` and `shiftreg(i)` of `irq_deglitch`, and what it drives. -/
structure Filter where
  cnt : Int
  shiftreg : BitVec 5
  srqActive : Bool
  deriving DecidableEq, Repr

section
variable (f : Filter) (sample : Bool)

/-- `shiftreg(3 downto 0) & S_SRQ_active`. -/
def Filter.shifted : BitVec 5 := (f.shiftreg.extractLsb' 0 4).concat sample

/-- The counter between the two statements that change it. -/
def Filter.counted : Int := if (f.shifted sample).getLsbD 0 then f.cnt + 1 else f.cnt

def Filter.cntNext : Int := if (f.shifted sample).getLsbD 4 then f.counted sample - 1 else f.counted sample

def Filter.activeNext : Bool :=
  if f.cntNext sample = 3 then true
  else if f.cntNext sample < 3 then false
  else f.srqActive

def Filter.clock : Filter := { cnt := f.cntNext sample, shiftreg := f.shifted sample, srqActive := f.activeNext sample }

/-- The reset leaves the output as it is. -/
def Filter.clear : Filter := { f with cnt := 0, shiftreg := 0 }

end

structure Inputs where
  nrst : Bool
  /-- what p_intr makes of the requests is not taken from here -/
  wb : Master.Inputs
  nSrqSlaves : BitVec 12

structure World where
  -- `P_Reset`
  firstSyncReset : Bool
  sReset : Bool
  -- `p_wb_ctrl`, `int_regs`, `P_SCUB_SM` and the others with the same reset
  master : Registers
  -- `p_intr`
  srqSync : BitVec 12
  srqActive : BitVec 12
  oneOrMoreSRQs : Bool
  intr : Bool
  -- `irq_deglitch`
  filters : Fin 12 → Filter

variable (g : Generics)

/-- `s_reset = '0'` in the processes of the master. -/
def resetMaster (r : Registers) : Registers :=
  { r with
    wbState := .idle, stall := false, ack := false, err := false, startRd := false, startWr := false, multiWr := false
    rdErr := false, wrErr := false, invalidIntern := false, intAck := false, multiSel := 0, srqEna :=
      0, internEcho1 := 0
    globalIntrEna := 0, sm := .idle, rdnwr := true, ds := false, scubSel := 0, selExtDrv := false, slaveSel := 0
    timeOutCnt := cntStart g.timeOut, multicastCnt := cntStart g.dlyMulticastDt }

/-- The asynchronous resets. The filters have none. -/
def asyncReset (w : World) : World :=
  { w with master := resetMaster g w.master, srqSync := 0, srqActive := 0, oneOrMoreSRQs := false, intr := false }

def masterIn (w : World) (i : Inputs) : Master.Inputs :=
  { i.wb with srqSync := w.srqSync, srqActive := w.srqActive, oneOrMoreSRQs := w.oneOrMoreSRQs }

/-- `Intr`. Nothing sets the flags for the timing cycle and the slave number. -/
def intrNext (w : World) : Bool :=
  (w.master.wrErr && w.master.globalIntrEna.getLsbD 0) || (w.master.rdErr && w.master.globalIntrEna.getLsbD 1) ||
    (w.master.invalidIntern && w.master.globalIntrEna.getLsbD 3) ||
    (w.oneOrMoreSRQs && w.master.globalIntrEna.getLsbD 5)

def clocked (w : World) (i : Inputs) : World :=
  { firstSyncReset := i.nrst
    sReset := w.firstSyncReset
    master := Master.clock g w.master (masterIn w i)
    srqSync := ~~~i.nSrqSlaves
    srqActive := w.master.srqEna &&& w.srqSync
    oneOrMoreSRQs := w.srqActive != 0
    intr := intrNext w
    filters := fun j => (w.filters j).clock (w.srqActive.getLsbD j) }

def held (w : World) (i : Inputs) : World :=
  { w with firstSyncReset := i.nrst, sReset := w.firstSyncReset, filters := fun j => (w.filters j).clear }

def step (w : World) (i : Inputs) : World :=
  let next := if w.sReset then clocked g w i else held w i
  if next.sReset then next else asyncReset g next

def reset (w : World) : World := asyncReset g { w with sReset := false }

section
variable (j : Fin 12)

def sample (w : World) : Bool := w.srqActive.getLsbD j

/-- The samples since the last reset, the last one first. The earlier ones count as 0. -/
def samples (s : ℕ → World) : ℕ → ℕ → Bool
  | 0 => fun _ => false
  | t + 1 => if (s t).sReset then push (sample j (s t)) (samples s t) else fun _ => false

def ones (s : ℕ → World) (t : ℕ) : ℕ := among (fun b => b = true) 4 (samples j s t)

/-- The output of `irq_deglitch`. -/
def passed (w : World) : Bool := (w.filters j).srqActive

/-- In a settled request only the sample of clock t may be another one, and there is no reset up to
clock last. -/
structure Blip (s : ℕ → World) (level : Bool) (t last : ℕ) : Prop where
  settled : ∀ k < 3, samples j s t k = level
  clocks : ∀ u, t ≤ u → u ≤ last → (s u).sReset = true
  back : ∀ u, t < u → u ≤ last → sample j (s u) = level

/-- What `irq_deglitch` does for a request in each clock outside the reset. -/
structure Deglitched (s : ℕ → World) : Prop where
  counts : ∀ t, (s t).sReset = true → ((s (t + 1)).filters j).cnt = ones j s (t + 1)
  /-- between the two statements that change the counter, and behind them -/
  range : ∀ t, (s t).sReset = true →
    (0 ≤ ((s t).filters j).counted (sample j (s t)) ∧ ((s t).filters j).counted (sample j (s t)) ≤ 5) ∧
      0 ≤ ((s (t + 1)).filters j).cnt ∧ ((s (t + 1)).filters j).cnt ≤ 5
  passes : ∀ t, (s t).sReset = true → (passed j (s (t + 1)) = true ↔ 3 ≤ ones j s (t + 1))
  quiet : ∀ level t last, Blip j s level t last → ∀ u, t ≤ u → u ≤ last → passed j (s (u + 1)) = level

end

/-- The shift register has the last five samples, the counter the ones of the last four. -/
structure Filter.Inv (f : Filter) (past : ℕ → Bool) : Prop where
  shift : ∀ k < 5, f.shiftreg.getLsbD k = past k
  count : f.cnt = among (fun b => b = true) 4 past
  high : 3 ≤ f.cnt → f.srqActive = true

namespace Filter
variable {f : Filter} {past : ℕ → Bool}

theorem clear_inv (f : Filter) : Inv f.clear (fun _ => false) where
  shift := by
    intro k _
    exact BitVec.getLsbD_zero
  count := rfl
  high := fun three => absurd (show (3 : Int) ≤ 0 from three) (by decide)

theorem getLsbD_shifted_zero (f : Filter) (sample : Bool) : (f.shifted sample).getLsbD 0 = sample := by
  rw [shifted, BitVec.getLsbD_concat_zero]

theorem getLsbD_shifted_succ (f : Filter) (sample : Bool) {k : ℕ} (low : k < 4) :
    (f.shifted sample).getLsbD (k + 1) = f.shiftreg.getLsbD k := by
  rw [shifted, BitVec.getLsbD_concat_succ, BitVec.getLsbD_extractLsb', Nat.zero_add, decide_eq_true low, Bool.true_and]

theorem Inv.counted (inv : Inv f past) (sample : Bool) :
    f.counted sample = among (fun b => b = true) 5 (push sample past) := by
  rw [Filter.counted, getLsbD_shifted_zero, inv.count, among_push_succ]
  cases sample with
  | false => simp
  | true => simp

theorem Inv.cntNext (inv : Inv f past) (sample : Bool) :
    f.cntNext sample = among (fun b => b = true) 4 (push sample past) := by
  have five := inv.counted sample
  rw [among_succ, push_succ] at five
  rw [Filter.cntNext, getLsbD_shifted_succ f sample (by decide : 3 < 4), inv.shift 3 (by decide), five]
  cases past 3 with
  | false => simp
  | true => simp

theorem Inv.activeNext (inv : Inv f past) (sample : Bool) :
    f.activeNext sample = true ↔ 3 ≤ among (fun b => b = true) 4 (push sample past) := by
  have next := inv.cntNext sample
  have slide : among (fun b => b = true) 4 (push sample past) + _ = among (fun b => b = true) 4 past + _ :=
    among_push (fun b => b = true) 3 sample past
  have bound := among_le (fun b => b = true) 4 (push sample past)
  have before := inv.count
  rw [Filter.activeNext]
  split_ifs with three low
  · constructor
    · intro _
      omega
    · exact fun _ => rfl
  · constructor
    · exact False.elim
    · intro many
      omega
  · have held : f.srqActive = true := by
      apply inv.high
      split_ifs at slide <;> omega
    constructor
    · intro _
      omega
    · exact fun _ => held

theorem Inv.clock (inv : Inv f past) (sample : Bool) : Inv (f.clock sample) (push sample past) where
  shift := by
    intro k low
    cases k with
    | zero => exact getLsbD_shifted_zero f sample
    | succ k =>
      rw [Filter.clock, getLsbD_shifted_succ f sample (by omega), push_succ]
      exact inv.shift k (by omega)
  count := inv.cntNext sample
  high := by
    intro three
    have next : (f.clock sample).cnt = _ := inv.cntNext sample
    apply (inv.activeNext sample).mpr
    omega

end Filter

variable {g} {j : Fin 12} {w : World} {inputs : ℕ → Inputs}

theorem filters_step (w : World) (i : Inputs) :
    (step g w i).filters j = if w.sReset then (w.filters j).clock (sample j w) else (w.filters j).clear := by
  rw [step, apply_ite (fun next : World => next.filters j), asyncReset, ite_self]
  cases w.sReset with
  | false => rfl
  | true => rfl

theorem trace_inv (t : ℕ) :
    Filter.Inv ((trace (step g) (reset g w) inputs (t + 1)).filters j)
      (samples j (trace (step g) (reset g w) inputs) (t + 1)) := by
  induction t with
  | zero =>
    rw [trace_succ, filters_step, samples]
    exact Filter.clear_inv _
  | succ t ih =>
    rw [trace_succ, filters_step, samples]
    cases (trace (step g) (reset g w) inputs (t + 1)).sReset with
    | false => exact Filter.clear_inv _
    | true => exact ih.clock _

theorem trace_inv_of_on {t : ℕ} (on : (trace (step g) (reset g w) inputs t).sReset = true) :
    Filter.Inv ((trace (step g) (reset g w) inputs t).filters j) (samples j (trace (step g) (reset g w) inputs) t) := by
  cases t with
  | zero => cases on
  | succ t => exact trace_inv t

variable {s : ℕ → World}

theorem samples_on {t : ℕ} (on : (s t).sReset = true) :
    samples j s (t + 1) = push (sample j (s t)) (samples j s t) := by
  rw [samples, if_pos on]

theorem Blip.others {level : Bool} {t last : ℕ} (blip : Blip j s level t last) (n : ℕ) (inTime : t + n ≤ last) :
    ∀ k < 4, k ≠ n → samples j s (t + n + 1) k = level := by
  induction n with
  | zero =>
    intro k low other
    rw [samples_on (blip.clocks _ (Nat.le_add_right t 0) inTime)]
    obtain ⟨k, rfl⟩ := Nat.exists_eq_succ_of_ne_zero other
    exact blip.settled k (Nat.lt_of_succ_lt_succ low)
  | succ n ih =>
    intro k low other
    rw [samples_on (blip.clocks _ (Nat.le_add_right t _) inTime)]
    cases k with
    | zero => exact blip.back _ (Nat.lt_add_of_pos_right n.succ_pos) inTime
    | succ k => exact ih (Nat.le_of_succ_le inTime) k (Nat.lt_of_succ_lt low) (fun same => other (congrArg Nat.succ same))

theorem Blip.ones {level : Bool} {t last : ℕ} (blip : Blip j s level t last) (n : ℕ) (inTime : t + n ≤ last) :
    3 ≤ ones j s (t + n + 1) ↔ level = true := by
  have others := blip.others n inTime
  cases level with
  | false =>
    have few : Deglitch.ones j s (t + n + 1) ≤ 1 :=
      among_le_one fun k low other => by rw [others k low other]; exact Bool.false_ne_true
    constructor
    · intro many
      omega
    · exact fun no => absurd no Bool.false_ne_true
  | true =>
    have many : 4 ≤ Deglitch.ones j s (t + n + 1) + 1 := le_among_succ others
    constructor
    · exact fun _ => rfl
    · intro _
      omega

/-- For each sequence of requests, accesses and resets that starts with a reset. -/
theorem run_deglitched (g : Generics) (w : World) (inputs : ℕ → Inputs) (j : Fin 12) :
    Deglitched j (trace (step g) (reset g w) inputs) := by
  have passes : ∀ t, (trace (step g) (reset g w) inputs t).sReset = true →
      (passed j (trace (step g) (reset g w) inputs (t + 1)) = true ↔
        3 ≤ ones j (trace (step g) (reset g w) inputs) (t + 1)) := by
    intro t on
    have before : Filter.Inv ((trace (step g) (reset g w) inputs t).filters j) _ := trace_inv_of_on on
    rw [passed, ones, trace_succ, filters_step, if_pos on, samples_on on]
    exact before.activeNext _
  constructor
  · intro t _
    exact (trace_inv t).count
  · intro t on
    have before : Filter.Inv ((trace (step g) (reset g w) inputs t).filters j) _ := trace_inv_of_on on
    have five := among_le (fun b => b = true) 5 (push (sample j (trace (step g) (reset g w) inputs t))
      (samples j (trace (step g) (reset g w) inputs) t))
    have four := among_le (fun b => b = true) 4 (samples j (trace (step g) (reset g w) inputs) (t + 1))
    rw [before.counted, (trace_inv t).count]
    omega
  · exact passes
  · intro level t last blip u from_ upTo
    obtain ⟨n, rfl⟩ := Nat.exists_eq_add_of_le from_
    rw [Bool.eq_iff_iff, passes _ (blip.clocks _ from_ upTo)]
    exact blip.ones n upTo

end BelProject.ScuBus.Deglitch
