import BelProject.Fg.DirectSet
import BelProject.Fg.Ramp
import Mathlib.Algebra.BigOperators.Group.List.Basic
import Mathlib.Tactic.Linarith

/-! The intervals of a ramp: from a start on, at the k-th data point the accumulator has gone up by
the first k step values, each as often as SW4 selects. Beside the generator stand the step values
that were written and taken over, the additions that were made and what was there at the data
points. -/

namespace BelProject.Fg.Intervals
open SlaveFg StepValue Ramp Library.Runs
open DirectSet (fresh quiet)

def additions (r : Registers) : ℕ := 2 ^ (15 - (addSel r).toNat)

/-- The edges of the function generator clock that an addition takes. -/
def edgesPerAddition (r : Registers) : ℕ := 2 ^ (9 - (freqSel r).toNat)

def number (r : Registers) (raw : BitVec 16) : Int := factor (sw3MulBy32 r) * value (twosComp r) raw

def total (r : Registers) (steps : List (BitVec 16)) : Int := (steps.map (number r)).sum

structure Point where
  adds : ℕ
  accuReg : BitVec 32
  sw3 : BitVec 16

structure World where
  regs : Registers
  /-- the step value that was written last -/
  sw3 : BitVec 16
  /-- the step values of the intervals -/
  steps : List (BitVec 16)
  /-- the additions in this interval -/
  adds : ℕ
  points : List Point
  edges : ℕ
  /-- the clocks since the last edge -/
  since : ℕ

def reaches (r : Registers) : Bool := r.fgSm == .run && dataPointReached r

section
variable (g : Generics) (w : World) (i : Inputs)

def step : World where
  regs := clock g w.regs i
  sw3 := if accepts w.regs .sw3 then i.data else w.sw3
  steps := if w.regs.nextStepValueEn then w.steps ++ [w.sw3] else w.steps
  adds := (if reaches w.regs then 0 else w.adds) + if adds w.regs then 1 else 0
  points := if reaches w.regs then w.points ++ [⟨w.adds, w.regs.accuReg, w.sw3⟩] else w.points
  edges := w.edges + if w.regs.fgClkEdgeDetect then 1 else 0
  since := if w.regs.fgClkEdgeDetect then 1 else w.since + 1

/-- The ramp is left alone, the next step value comes before the data point, and the edges are four
clocks apart. -/
structure Steady : Prop where
  free : resets w.regs i = false
  kept : directSet w.regs = false
  sw4 : accepts w.regs .sw4 = false
  sw5 : accepts w.regs .sw5 = false
  written : reaches w.regs = true → w.regs.dreq = false
  spaced : w.regs.fgClkEdgeDetect = true → 4 ≤ w.since

end

def begin (r : Registers) : World :=
  { regs := r, sw3 := r.sw3Reg, steps := [], adds := 0, points := [], edges := 0, since := 4 }

/-! ### The points so far -/

/-- What the points are to be. -/
structure Recorded (start : Registers) (steps : List (BitVec 16)) (points : List Point) : Prop where
  point : ∀ k p, points[k]? = some p → k < steps.length ∧ p.adds = additions start ∧
    p.accuReg = start.accuReg + BitVec.ofInt 32 (additions start * total start (steps.take (k + 1)))
  next : ∀ k p raw, points[k]? = some p → steps[k + 1]? = some raw → raw = p.sw3

variable {start : Registers} {steps past : List (BitVec 16)} {points : List Point} {raw : BitVec 16}

theorem Recorded.load (recorded : Recorded start steps points) (all : points.length = steps.length)
    (last : ∀ p, points.getLast? = some p → p.sw3 = raw) : Recorded start (steps ++ [raw]) points where
  point := by
    intro k p at_k
    obtain ⟨inside, adds, accu⟩ := recorded.point k p at_k
    rw [List.length_append, List.take_append_of_le_length inside]
    exact ⟨by omega, adds, accu⟩
  next := by
    intro k p other at_k follows
    have inside := (recorded.point k p at_k).1
    rcases Nat.lt_or_eq_of_le inside with more | at_end
    · rw [List.getElem?_append_left more] at follows
      exact recorded.next k p other at_k follows
    · have newest : points.getLast? = some p := by
        rw [List.getLast?_eq_getElem?, all, ← at_end]
        exact at_k
      have ends : k + 1 = steps.length := at_end
      rw [ends, List.getElem?_concat_length] at follows
      rw [last p newest]
      exact (Option.some.inj follows).symm

theorem Recorded.reach {p : Point} (recorded : Recorded start (past ++ [raw]) points)
    (all : points.length = past.length)
    (adds : p.adds = additions start)
    (accu : p.accuReg = start.accuReg + BitVec.ofInt 32 (additions start * total start (past ++ [raw]))) :
    Recorded start (past ++ [raw]) (points ++ [p]) where
  point := by
    intro k q at_k
    rcases Nat.lt_or_ge k points.length with before | behind
    · rw [List.getElem?_append_left before] at at_k
      exact recorded.point k q at_k
    · rw [List.getElem?_append_right behind, List.getElem?_singleton] at at_k
      split_ifs at at_k with here
      cases at_k
      have last : k + 1 = (past ++ [raw]).length := by
        rw [List.length_append, List.length_singleton]
        omega
      rw [last, List.take_length]
      exact ⟨by omega, adds, accu⟩
  next := by
    intro k q other at_k follows
    rcases Nat.lt_or_ge k points.length with before | behind
    · rw [List.getElem?_append_left before] at at_k
      exact recorded.next k q other at_k follows
    · have outside : (past ++ [raw]).length ≤ k + 1 := by
        rw [List.length_append, List.length_singleton]
        omega
      rw [List.getElem?_eq_none outside] at follows
      cases follows

theorem total_append (start : Registers) (past : List (BitVec 16)) (raw : BitVec 16) :
    total start (past ++ [raw]) = total start past + number start raw := by
  rw [total, List.map_append, List.sum_append, List.map_singleton, List.sum_singleton]
  rfl

/-! ### The counter of the additions -/

theorem additions_bounds (r : Registers) : 2 ^ 8 ≤ additions r ∧ additions r ≤ 2 ^ 15 := by
  have table : ∀ sel : BitVec 3, 2 ^ 8 ≤ 2 ^ (15 - sel.toNat) ∧ 2 ^ (15 - sel.toNat) ≤ 2 ^ 15 := by decide
  exact table (addSel r)

theorem cAddCnt_eq (r : Registers) : cAddCnt (addSel r) = BitVec.ofInt 16 (additions r - 1) := by
  have table : ∀ sel : BitVec 3, cAddCnt sel = BitVec.ofInt 16 ((2 ^ (15 - sel.toNat) : ℕ) - 1) := by decide
  exact table (addSel r)

theorem addCnt_msb {a : ℕ} (fewer : a ≤ additions start) :
    (BitVec.ofInt 16 (additions start - 1 - a)).msb = true ↔ a = additions start := by
  have most := (additions_bounds start).2
  have number : (BitVec.ofInt 16 (additions start - 1 - a)).toInt = additions start - 1 - a := by
    rw [BitVec.toInt_ofInt]
    apply Int.bmod_eq_of_le <;> omega
  rw [BitVec.msb_eq_toInt, number, decide_eq_true_iff]
  omega

theorem addCnt_pred (n : Int) : BitVec.ofInt 16 n - 1 = BitVec.ofInt 16 (n - 1) := by
  have minus : -1 = BitVec.ofInt 16 (-1) := by decide
  rw [BitVec.sub_eq_add_neg, minus, ← BitVec.ofInt_add, sub_eq_add_neg]

/-! ### The divider -/

variable {r : Registers}

theorem freqCnt_step {i : Inputs} (ramp : r.rampModus = true) (low : -1 ≤ r.freqCnt.toInt) :
    -1 ≤ (freqCntNext r).toInt ∧
      (if r.fgClkEdgeDetect then 1 else 0 : ℕ) + (freqCntNext r).toInt =
        r.freqCnt.toInt + (edgesPerAddition r : ℕ) * (if (advance r i).freqEn then 1 else 0 : ℕ) := by
  have reload : (cFreqCnt (freqSel r)).toInt = edgesPerAddition r - 2 := by
    have table : ∀ sel : BitVec 3, (cFreqCnt sel).toInt = (2 ^ (9 - sel.toNat) : ℕ) - 2 := by decide
    exact table (freqSel r)
  have several : 2 ≤ edgesPerAddition r := by
    have table : ∀ sel : BitVec 3, 2 ≤ 2 ^ (9 - sel.toNat) := by decide
    exact table (freqSel r)
  have pulse : (advance r i).freqEn = (r.fgClkEdgeDetect && r.freqCnt.msb) := rfl
  rw [pulse, freqCntNext, ramp, Bool.not_true, Bool.or_false]
  have sign := BitVec.msb_eq_toInt (x := r.freqCnt)
  cases edge : r.fgClkEdgeDetect with
  | false => simpa using low
  | true =>
    cases under : r.freqCnt.msb with
    | true =>
      have below : r.freqCnt.toInt < 0 := of_decide_eq_true (sign.symm.trans under)
      simp only [Bool.and_self, if_true, reload]
      omega
    | false =>
      have above : ¬r.freqCnt.toInt < 0 := of_decide_eq_false (sign.symm.trans under)
      have less : (r.freqCnt - 1).toInt = r.freqCnt.toInt - 1 := by
        have high : r.freqCnt.toInt < 2 ^ 9 := BitVec.toInt_lt
        rw [BitVec.toInt_sub]
        apply Int.bmod_eq_of_le <;> simp <;> omega
      simp only [Bool.true_and, Bool.false_eq_true, if_true, if_false, less]
      omega

/-! ### The phases of an interval -/

/-- Before the first addition. -/
structure Between (start : Registers) (w : World) : Prop where
  adds : w.adds = 0
  count : w.regs.addCnt = cAddCnt (addSel start)
  all : w.points.length = w.steps.length
  accu : w.regs.accuReg = start.accuReg + BitVec.ofInt 32 (additions start * total start w.steps)

/-- Behind the start or a data point. -/
structure Requesting (start : Registers) (w : World) : Prop extends Between start w where
  state : w.regs.fgSm = .drq
  taken : w.regs.nextStepValueEn = false
  last : ∀ p, w.points.getLast? = some p → w.since = 3 ∧ p.sw3 = w.sw3

/-- The step value is taken over. -/
structure Loading (start : Registers) (w : World) : Prop extends Between start w where
  state : w.regs.fgSm = .run
  ramp : w.regs.rampModus = true
  load : w.regs.nextStepValueEn = true
  last : ∀ p, w.points.getLast? = some p → p.sw3 = w.sw3

/-- The additions, behind the intervals of the step values past. -/
structure Adding (start : Registers) (past : List (BitVec 16)) (w : World) : Prop where
  state : w.regs.fgSm = .run
  ramp : w.regs.rampModus = true
  taken : w.regs.nextStepValueEn = false
  steps : w.steps = past ++ [w.regs.rawStepValue]
  all : w.points.length = past.length
  fewer : w.adds ≤ additions start
  count : w.regs.addCnt = BitVec.ofInt 16 (additions start - 1 - w.adds)
  accu : w.regs.accuReg =
    start.accuReg + BitVec.ofInt 32 (additions start * total start past + w.adds * number start w.regs.rawStepValue)
  addition : w.regs.freqEn = true → w.since = 1
  point : dataPointReached w.regs = true → w.since = 2

inductive Phase (start : Registers) (w : World) : Prop
  | requesting (requesting : Requesting start w)
  | loading (loading : Loading start w)
  | adding (past : List (BitVec 16)) (adding : Adding start past w)

/-- The edges are used up by the additions. -/
structure Paced (start : Registers) (w : World) : Prop where
  low : -1 ≤ w.regs.freqCnt.toInt
  spent : w.edges + w.regs.freqCnt.toInt ≤
    (edgesPerAddition start * (additions start * w.points.length + w.adds + if w.regs.freqEn then 1 else 0) + 513 : ℕ)

structure Ramping (start : Registers) (w : World) : Prop where
  inv : Inv w.regs
  free : w.regs.resSysClkSync = false
  sw3 : w.regs.sw3Reg = w.sw3
  status1 : w.regs.status1 = start.status1
  status2 : w.regs.status2 = start.status2
  recorded : Recorded start w.steps w.points
  phase : Phase start w
  paced : w.regs.rampModus = true → Paced start w
  early : w.regs.rampModus = false → w.regs.fgSm = .drq ∧ w.edges ≤ 1

variable {g : Generics} {w : World} {i : Inputs}

theorem sync_free (free : r.resSysClkSync = false) (calm : resets r i = false) : resSysClkSyncNext r i = false := by
  rw [resSysClkSyncNext, calm, free]
  cases r.sysClkResetCnt.msb <;> rfl

theorem step_regs (free : w.regs.resSysClkSync = false) (steady : Steady w i) :
    (step g w i).regs = control g w.regs i (advance w.regs i) := by
  apply clock_free free
  exact sync_free free steady.free

theorem taken_next (other : r.fgSm ≠ .drq) : (advance r i).nextStepValueEn = false := beq_eq_false_iff_ne.mpr other

theorem accuReg_kept (kept : directSet r = false) :
    accuRegNext r i = if adds r then r.accuReg + increment (sw3MulBy32 r) (twosComp r) r.rawStepValue
      else r.accuReg := by
  obtain ⟨sw1, sw2⟩ := Bool.or_eq_false_iff.mp kept
  rw [accuRegNext, sw1, sw2]
  rfl

theorem step_quiet (reached : reaches w.regs = false) (pause : w.regs.freqEn = false) : (step g w i).adds = w.adds := by
  change (if reaches w.regs then 0 else w.adds) + (if adds w.regs then 1 else 0) = w.adds
  rw [reached, adds, pause, Bool.and_false]
  rfl

theorem step_points (reached : reaches w.regs = false) : (step g w i).points = w.points :=
  if_neg (ne_true_of_eq_false reached)

theorem step_taken (taken : w.regs.nextStepValueEn = false) : (step g w i).steps = w.steps :=
  if_neg (ne_true_of_eq_false taken)

theorem step_sw3 (steady : Steady w i) (soon : w.since < 4) : (step g w i).sw3 = w.sw3 := by
  apply if_neg
  intro accepted
  have := steady.spaced (accepts_edge accepted).2
  omega

theorem Requesting.quiet (requesting : Requesting start w) : reaches w.regs = false := by
  rw [reaches, requesting.state]
  rfl

theorem Between.open (between : Between start w) : dataPointReached w.regs = false := by
  rw [dataPointReached, between.count]
  exact msb_cAddCnt _

theorem Ramping.addSel (ramping : Ramping start w) : addSel w.regs = addSel start := by
  rw [SlaveFg.addSel, ramping.status1, SlaveFg.addSel]

theorem Between.step (between : Between start w) (ramping : Ramping start w) (steady : Steady w i)
    (quiet : reaches w.regs = false) (pause : w.regs.freqEn = false) :
    (step g w i).adds = 0 ∧ (step g w i).regs.addCnt = cAddCnt (addSel start) ∧ (step g w i).points = w.points ∧
      (step g w i).regs.accuReg = start.accuReg + BitVec.ofInt 32 (additions start * total start w.steps) := by
  rw [step_quiet quiet pause, between.adds, step_points quiet, step_regs ramping.free steady]
  have count : addCntNext w.regs = cAddCnt (SlaveFg.addSel start) := by
    rw [addCntNext, between.open, pause, ramping.addSel, between.count]
    cases w.regs.rampModus <;> rfl
  have accu : accuRegNext w.regs i = w.regs.accuReg := by
    rw [accuReg_kept steady.kept, SlaveFg.adds, pause, Bool.and_false]
    rfl
  exact ⟨rfl, count, rfl, accu.trans between.accu⟩

theorem Requesting.step (requesting : Requesting start w) (ramping : Ramping start w) (steady : Steady w i) :
    Loading start (step g w i) := by
  have pause := (ramping.inv.drq requesting.state).1
  obtain ⟨adds, count, points, accu⟩ := requesting.toBetween.step (g := g) ramping steady requesting.quiet pause
  have regs := step_regs (g := g) ramping.free steady
  have steps := step_taken (g := g) (i := i) requesting.taken
  exact
    { adds := adds
      count := count
      all := by rw [points, steps, requesting.all]
      accu := by rw [steps, accu]
      state := by
        rw [regs]
        change fgSmNext w.regs i = .run
        rw [fgSmNext, requesting.state]
      ramp := by
        rw [regs]
        exact (ramp_next (i := i)).mpr (Or.inl requesting.state)
      load := by
        rw [regs]
        exact beq_iff_eq.mpr requesting.state
      last := by
        intro p newest
        rw [points] at newest
        obtain ⟨since, same⟩ := requesting.last p newest
        rw [step_sw3 steady (by omega)]
        exact same }

theorem fgSm_stays (state : r.fgSm = .run) (reached : dataPointReached r = false) (kept : directSet r = false) :
    fgSmNext r i = .run := by
  rw [fgSmNext, state, reached, kept]
  rfl

theorem freqEn_edge (ramping : Ramping start w) (steady : Steady w i) (on : (step g w i).regs.freqEn = true) :
    w.regs.fgClkEdgeDetect = true := by
  rw [step_regs ramping.free steady] at on
  exact (Bool.and_eq_true_iff.mp on).1

theorem since_edge (edge : w.regs.fgClkEdgeDetect = true) : (step g w i).since = 1 := if_pos edge

theorem since_between (edge : w.regs.fgClkEdgeDetect = false) : (step g w i).since = w.since + 1 :=
  if_neg (ne_true_of_eq_false edge)

theorem Loading.step (loading : Loading start w) (ramping : Ramping start w) (steady : Steady w i) :
    Adding start w.steps (step g w i) := by
  have pause := ramping.inv.load loading.state loading.load
  have quiet : reaches w.regs = false := by rw [reaches, loading.open, Bool.and_false]
  obtain ⟨adds, count, points, accu⟩ := loading.toBetween.step (g := g) ramping steady quiet pause
  have regs := step_regs (g := g) ramping.free steady
  have raw : (Intervals.step g w i).regs.rawStepValue = w.sw3 := by
    rw [regs]
    change (if w.regs.nextStepValueEn then w.regs.sw3Reg else w.regs.rawStepValue) = w.sw3
    rw [loading.load, if_pos rfl, ramping.sw3]
  exact
    { state := by
        rw [regs]
        exact fgSm_stays loading.state loading.open steady.kept
      ramp := by
        rw [regs]
        exact (ramp_next (i := i)).mpr (Or.inr loading.state)
      taken := by
        rw [regs]
        exact taken_next (i := i) (by rw [loading.state]; exact FgSm.noConfusion)
      steps := by
        rw [raw]
        exact if_pos loading.load
      all := by rw [points, loading.all]
      fewer := by rw [adds]; exact Nat.zero_le _
      count := by rw [count, adds, cAddCnt_eq, Nat.cast_zero, sub_zero]
      accu := by rw [accu, adds, Nat.cast_zero, zero_mul, add_zero]
      addition := fun on => since_edge (freqEn_edge ramping steady on)
      point := by
        intro reached
        rw [regs] at reached
        exact absurd ((addCnt_underflows loading.open reached).2.symm.trans pause) Bool.noConfusion }

theorem Adding.reach {past : List (BitVec 16)} (adding : Adding start past w)
    (ramping : Ramping start w) (steady : Steady w i)
    (reached : dataPointReached w.regs = true) :
    w.adds = additions start ∧ Requesting start (step g w i) ∧
      Recorded start (step g w i).steps (step g w i).points := by
  have here : reaches w.regs = true := by rw [reaches, reached, adding.state]; rfl
  have pause := (ramping.inv.point adding.state reached).1
  have regs := step_regs (g := g) ramping.free steady
  have steps := step_taken (g := g) (i := i) adding.taken
  have since := adding.point reached
  have edge : w.regs.fgClkEdgeDetect = false := by
    by_contra edge
    have := steady.spaced (Bool.eq_true_of_not_eq_false edge)
    omega
  have full : w.adds = additions start := by
    rw [dataPointReached, adding.count] at reached
    exact (addCnt_msb adding.fewer).mp reached
  have points : (step g w i).points = w.points ++ [⟨w.adds, w.regs.accuReg, w.sw3⟩] := if_pos here
  have accu : w.regs.accuReg = start.accuReg + BitVec.ofInt 32
    (additions start * total start (past ++ [w.regs.rawStepValue])) := by
    rw [adding.accu, full, total_append, mul_add]
  have recorded := ramping.recorded
  rw [adding.steps] at recorded
  refine ⟨full, ?_, ?_⟩
  · exact
      { adds := by
          change (if reaches w.regs then 0 else w.adds) + (if SlaveFg.adds w.regs then 1 else 0) = 0
          rw [here, SlaveFg.adds, pause, Bool.and_false]
          rfl
        count := by
          rw [regs, ← ramping.addSel]
          change addCntNext w.regs = _
          rw [addCntNext, reached]
          rfl
        all := by rw [points, steps, adding.steps, List.length_append, List.length_append, adding.all]; rfl
        accu := by
          rw [regs, steps, adding.steps, ← accu]
          change accuRegNext w.regs i = w.regs.accuReg
          rw [accuReg_kept steady.kept, SlaveFg.adds, pause, Bool.and_false]
          rfl
        state := by
          rw [regs]
          change fgSmNext w.regs i = .drq
          rw [fgSmNext, adding.state, reached, steady.written here]
          rfl
        taken := by
          rw [regs]
          exact taken_next (i := i) (by rw [adding.state]; exact FgSm.noConfusion)
        last := by
          intro p newest
          rw [points, List.getLast?_concat] at newest
          cases newest
          rw [since_between edge, since, step_sw3 steady (by omega)]
          exact ⟨rfl, rfl⟩ }
  · rw [steps, points, adding.steps]
    exact recorded.reach adding.all full accu

theorem Adding.step {past : List (BitVec 16)} (adding : Adding start past w) (ramping : Ramping start w)
    (steady : Steady w i)
    (opened : dataPointReached w.regs = false) : Adding start past (step g w i) := by
  have quiet : reaches w.regs = false := by rw [reaches, opened, Bool.and_false]
  have regs := step_regs (g := g) ramping.free steady
  have raw : (Intervals.step g w i).regs.rawStepValue = w.regs.rawStepValue := by
    rw [regs]
    exact if_neg (ne_true_of_eq_false adding.taken)
  have more : (Intervals.step g w i).adds = w.adds + if w.regs.freqEn then 1 else 0 := by
    change (if reaches w.regs then 0 else w.adds) + (if SlaveFg.adds w.regs then 1 else 0) = _
    rw [quiet, SlaveFg.adds, adding.ramp, Bool.true_and]
    rfl
  have fewer : w.adds < additions start := by
    apply lt_of_le_of_ne adding.fewer
    intro full
    rw [dataPointReached, adding.count, (addCnt_msb adding.fewer).mpr full] at opened
    cases opened
  have format : increment (sw3MulBy32 w.regs) (twosComp w.regs) w.regs.rawStepValue =
    BitVec.ofInt 32 (number start w.regs.rawStepValue) := by
    rw [increment_eq, number, sw3MulBy32, twosComp, ramping.status2, sw3MulBy32, twosComp]
  exact
    { state := by
        rw [regs]
        exact fgSm_stays adding.state opened steady.kept
      ramp := by
        rw [regs]
        exact (ramp_next (i := i)).mpr (Or.inr adding.state)
      taken := by
        rw [regs]
        exact taken_next (i := i) (by rw [adding.state]; exact FgSm.noConfusion)
      steps := by rw [raw, step_taken adding.taken, adding.steps]
      all := by rw [step_points quiet, adding.all]
      fewer := by
        rw [more]
        split_ifs <;> omega
      count := by
        rw [more, regs]
        change addCntNext w.regs = _
        rw [addCntNext, opened, adding.ramp, adding.count]
        cases w.regs.freqEn with
        | false => rfl
        | true =>
          change BitVec.ofInt 16 _ - 1 = BitVec.ofInt 16 (_ - (w.adds + 1 : ℕ))
          rw [addCnt_pred, Nat.cast_add, Nat.cast_one, sub_sub _ (w.adds : Int)]
      accu := by
        rw [more, raw, regs]
        change accuRegNext w.regs i = _
        rw [accuReg_kept steady.kept, SlaveFg.adds, adding.ramp, Bool.true_and, format, adding.accu]
        cases w.regs.freqEn with
        | false => rfl
        | true =>
          change _ + _ = start.accuReg + BitVec.ofInt 32 (_ + (w.adds + 1 : ℕ) * _)
          rw [add_assoc, ← BitVec.ofInt_add, Nat.cast_add, Nat.cast_one, add_mul, one_mul, add_assoc]
      addition := fun on => since_edge (freqEn_edge ramping steady on)
      point := by
        intro reached
        rw [regs] at reached
        have pulse := (addCnt_underflows opened reached).2
        rw [since_between (ramping.inv.addition adding.state pulse).1, adding.addition pulse] }

theorem Ramping.phase_step (ramping : Ramping start w) (steady : Steady w i) :
    Phase start (step g w i) ∧ Recorded start (step g w i).steps (step g w i).points ∧
      (reaches w.regs = true → w.adds = additions start) := by
  rcases ramping.phase with requesting | loading | ⟨past, adding⟩
  · refine ⟨.loading (requesting.step ramping steady), ?_, fun here =>
      absurd (here.symm.trans requesting.quiet) Bool.noConfusion⟩
    rw [step_taken requesting.taken, step_points requesting.quiet]
    exact ramping.recorded
  · have quiet : reaches w.regs = false := by rw [reaches, loading.open, Bool.and_false]
    refine ⟨.adding w.steps (loading.step ramping steady), ?_, fun here =>
      absurd (here.symm.trans quiet) Bool.noConfusion⟩
    have steps : (step g w i).steps = w.steps ++ [w.sw3] := if_pos loading.load
    rw [steps, step_points quiet]
    exact ramping.recorded.load loading.all loading.last
  · cases reached : dataPointReached w.regs with
    | true =>
      obtain ⟨full, requesting, recorded⟩ := adding.reach (g := g) ramping steady reached
      exact ⟨.requesting requesting, recorded, fun _ => full⟩
    | false =>
      have quiet : reaches w.regs = false := by rw [reaches, reached, Bool.and_false]
      refine ⟨.adding past (adding.step ramping steady reached), ?_, fun here =>
        absurd (here.symm.trans quiet) Bool.noConfusion⟩
      rw [step_taken adding.taken, step_points quiet]
      exact ramping.recorded

theorem Phase.state (phase : Phase start w) : w.regs.fgSm = .drq ∨ w.regs.fgSm = .run := by
  rcases phase with requesting | loading | ⟨past, adding⟩
  · exact Or.inl requesting.state
  · exact Or.inr loading.state
  · exact Or.inr adding.state

theorem Ramping.due (ramping : Ramping start w) : w.adds + (if w.regs.freqEn then 1 else 0) ≤ additions start := by
  rcases ramping.phase with requesting | loading | ⟨past, adding⟩
  · rw [requesting.adds, (ramping.inv.drq requesting.state).1]
    exact Nat.zero_le _
  · rw [loading.adds, ramping.inv.load loading.state loading.load]
    exact Nat.zero_le _
  · have fewer := adding.fewer
    cases pulse : w.regs.freqEn with
    | false => exact fewer
    | true =>
      have less : w.adds ≠ additions start := by
        intro full
        have reached : dataPointReached w.regs = true := by
          rw [dataPointReached, adding.count]
          exact (addCnt_msb fewer).mpr full
        exact absurd (pulse.symm.trans (ramping.inv.point adding.state reached).1) Bool.noConfusion
      have : w.adds + 1 ≤ additions start := by omega
      exact this

theorem adds_made (ramp : w.regs.rampModus = true) (full : reaches w.regs = true → w.adds = additions start) :
    additions start * (step g w i).points.length + (step g w i).adds =
      additions start * w.points.length + w.adds + if w.regs.freqEn then 1 else 0 := by
  change _ * (if reaches w.regs then w.points ++ [_] else w.points).length +
    ((if reaches w.regs then 0 else w.adds) + if (w.regs.rampModus && w.regs.freqEn) = true then 1 else 0) = _
  rw [ramp, Bool.true_and]
  cases here : reaches w.regs with
  | false =>
    simp only [Bool.false_eq_true, if_false]
    omega
  | true =>
    simp only [if_true, List.length_append, List.length_singleton]
    rw [mul_add, mul_one, zero_add, full here]

theorem Paced.step (paced : Paced start w) (ramping : Ramping start w) (steady : Steady w i)
    (ramp : w.regs.rampModus = true)
    (full : reaches w.regs = true → w.adds = additions start) : Paced start (step g w i) := by
  obtain ⟨low, moved⟩ := freqCnt_step (i := i) ramp paced.low
  have same : edgesPerAddition w.regs = edgesPerAddition start := by
    rw [edgesPerAddition, freqSel, ramping.status1, edgesPerAddition, freqSel]
  have regs := step_regs (g := g) ramping.free steady
  have made := adds_made (g := g) (i := i) ramp full
  have spent := paced.spent
  constructor
  · rw [regs]
    exact low
  · rw [same] at moved
    rw [made, regs]
    change ((w.edges + if w.regs.fgClkEdgeDetect then 1 else 0 : ℕ) : Int) + (freqCntNext w.regs).toInt ≤
      (_ * (_ + if (advance w.regs i).freqEn then 1 else 0) + 513 : ℕ)
    rw [mul_add _ _ (if (advance w.regs i).freqEn then 1 else 0)]
    push_cast at *
    linarith

theorem Ramping.paced_first (ramping : Ramping start w) (steady : Steady w i) (off : w.regs.rampModus = false) :
    Paced start (step g w i) := by
  obtain ⟨state, few⟩ := ramping.early off
  have above := (ramping.inv.drq state).2.1.off off
  have regs := step_regs (g := g) ramping.free steady
  have number : (freqCntNext w.regs).toInt = (freqCntNext w.regs).toNat := BitVec.toInt_eq_toNat_of_msb above.msb
  have small := above.positive
  constructor
  · rw [regs]
    change -1 ≤ (freqCntNext w.regs).toInt
    omega
  · rw [regs]
    change ((w.edges + if w.regs.fgClkEdgeDetect then 1 else 0 : ℕ) : Int) + (freqCntNext w.regs).toInt ≤ (_ + 513 : ℕ)
    split_ifs <;> omega

theorem Ramping.step (ramping : Ramping start w) (steady : Steady w i) : Ramping start (step g w i) := by
  obtain ⟨phase, recorded, full⟩ := ramping.phase_step (g := g) steady
  have regs := step_regs (g := g) ramping.free steady
  exact
    { inv := ramping.inv.clock
      free := by
        rw [regs]
        exact sync_free ramping.free steady.free
      sw3 := by
        rw [regs]
        change (if accepts w.regs .sw3 then i.data else w.regs.sw3Reg) = if accepts w.regs .sw3 then i.data else w.sw3
        rw [ramping.sw3]
      status1 := by
        rw [regs, ← ramping.status1]
        exact if_neg (ne_true_of_eq_false steady.sw4)
      status2 := by
        rw [regs, ← ramping.status2]
        change status2Next w.regs i = w.regs.status2
        rw [status2Next, steady.sw5, steady.kept]
        rfl
      recorded := recorded
      phase := phase
      paced := by
        intro _
        cases ramp : w.regs.rampModus with
        | true => exact (ramping.paced ramp).step ramping steady ramp full
        | false => exact ramping.paced_first steady ramp
      early := by
        intro off
        rw [regs] at off
        exact absurd ((ramp_next (i := i)).mpr ramping.phase.state) (ne_true_of_eq_false off) }

/-! ### The start -/

theorem ramping_start (inv : Inv r) (idle : r.fgSm = .idle) (start : starts r i = true) (steady : Steady (begin r) i) :
    Ramping r (step g (begin r) i) := by
  have enabled : broadcastEn r = true := (Bool.and_eq_true_iff.mp start).1
  obtain ⟨off, taken, above⟩ := inv.idle idle enabled
  have free : r.resSysClkSync = false := by
    by_contra reset
    have none : broadcastEn r = (0 : BitVec 16).getLsbD 2 := by
      rw [broadcastEn, ← inv.settled (Bool.eq_true_of_not_eq_false reset)]
      rfl
    rw [enabled] at none
    exact absurd none (by decide)
  have regs := step_regs (g := g) (w := begin r) free steady
  have quiet : reaches r = false := by rw [reaches, idle]; rfl
  have silent : SlaveFg.adds r = false := by rw [SlaveFg.adds, off]; rfl
  have points : (step g (begin r) i).points = [] := step_points quiet
  have steps : (step g (begin r) i).steps = [] := step_taken taken
  have adds : (step g (begin r) i).adds = 0 := by
    change (if reaches r then 0 else 0) + (if SlaveFg.adds r then 1 else 0) = 0
    rw [quiet, silent]
    rfl
  exact
    { inv := inv.clock
      free := by
        rw [regs]
        exact sync_free free steady.free
      sw3 := by
        rw [regs]
        rfl
      status1 := by
        rw [regs]
        exact if_neg (ne_true_of_eq_false steady.sw4)
      status2 := by
        rw [regs]
        change status2Next r i = r.status2
        have sw5 : accepts r .sw5 = false := steady.sw5
        have kept : directSet r = false := steady.kept
        rw [status2Next, sw5, kept]
        rfl
      recorded := by
        rw [points, steps]
        constructor
        · intro k p at_k
          cases at_k
        · intro k p raw at_k
          cases at_k
      phase := by
        apply Phase.requesting
        exact
          { adds := adds
            count := by
              rw [regs]
              change addCntNext r = _
              rw [addCntNext, off, Bool.not_false, Bool.or_true]
              rfl
            all := by rw [points, steps]; rfl
            accu := by
              have none : total r [] = 0 := rfl
              have zero : BitVec.ofInt 32 0 = 0 := rfl
              rw [regs, steps, none, mul_zero, zero, add_zero]
              change accuRegNext r i = r.accuReg
              have kept : directSet r = false := steady.kept
              rw [accuReg_kept kept, silent]
              rfl
            state := by
              rw [regs]
              change fgSmNext r i = .drq
              rw [fgSmNext, idle, start]
              rfl
            taken := by
              rw [regs]
              exact taken_next (i := i) (by change r.fgSm ≠ .drq; rw [idle]; exact FgSm.noConfusion)
            last := by
              intro p newest
              rw [points] at newest
              cases newest }
      paced := by
        intro ramp
        rw [regs] at ramp
        exact absurd ramp (ne_true_of_eq_false (ramp_off (i := i) (Or.inl idle)))
      early := by
        intro _
        constructor
        · rw [regs]
          change fgSmNext r i = .drq
          rw [fgSmNext, idle, start]
          rfl
        · change 0 + (if r.fgClkEdgeDetect then 1 else 0) ≤ 1
          split_ifs <;> omega }

/-- From a start on, at the k-th data point there were as many additions in the interval as SW4
selects, and the accumulator has gone up by the first k step values, each as often. The next step
value is the one written last before the data point, and as the edges go on, so do the data points. -/
theorem ramp_points (g : Generics) (junk : Registers) (first : Inputs) (before : List Inputs)
    (r : Registers) (i : Inputs) (inputs : List Inputs)
    (reached : r = run g (powerup g junk first) before) (idle : r.fgSm = .idle) (start : starts r i = true)
    (steady : Along (step g) Steady (begin r) (i :: inputs)) :
    (∀ k p, ((i :: inputs).foldl (step g) (begin r)).points[k]? = some p →
      k < ((i :: inputs).foldl (step g) (begin r)).steps.length ∧ p.adds = additions r ∧
        p.accuReg = r.accuReg + BitVec.ofInt 32
          (additions r * ((((i :: inputs).foldl (step g) (begin r)).steps.take (k + 1)).map fun raw =>
            factor (sw3MulBy32 r) * value (twosComp r) raw).sum) ∧
        ∀ raw, ((i :: inputs).foldl (step g) (begin r)).steps[k + 1]? = some raw → raw = p.sw3) ∧
      ((i :: inputs).foldl (step g) (begin r)).edges ≤
        edgesPerAddition r * (additions r * (((i :: inputs).foldl (step g) (begin r)).points.length + 1)) + 514 := by
  have inv : Inv r := by
    rw [reached]
    exact (powerup_inv g junk first).run
  have ramping : Ramping r ((i :: inputs).foldl (step g) (begin r)) :=
    steady.2.invariant (Ramping r) (ramping_start inv idle start steady.1) fun ramping here => ramping.step here
  constructor
  · intro k p at_k
    obtain ⟨inside, adds, accu⟩ := ramping.recorded.point k p at_k
    exact ⟨inside, adds, accu, fun raw follows => ramping.recorded.next k p raw at_k follows⟩
  · cases ramp : ((i :: inputs).foldl (step g) (begin r)).regs.rampModus with
    | false =>
      have few := (ramping.early ramp).2
      omega
    | true =>
      have paced := ramping.paced ramp
      have due := Nat.mul_le_mul_left (edgesPerAddition r)
        (Nat.add_le_add_left ramping.due (additions r * ((i :: inputs).foldl (step g) (begin r)).points.length))
      have low := paced.low
      have spent := paced.spent
      rw [mul_add (additions r), mul_one]
      rw [← add_assoc] at due
      omega

instance : Decidable (Steady w i) :=
  decidable_of_iff (resets w.regs i = false ∧ directSet w.regs = false ∧ accepts w.regs .sw4 = false ∧
    accepts w.regs .sw5 = false ∧
      (reaches w.regs = true → w.regs.dreq = false) ∧ (w.regs.fgClkEdgeDetect = true → 4 ≤ w.since))
    ⟨fun ⟨free, kept, sw4, sw5, written, spaced⟩ => ⟨free, kept, sw4, sw5, written, spaced⟩,
      fun steady => ⟨steady.free, steady.kept, steady.sw4, steady.sw5, steady.written, steady.spaced⟩⟩

/-- Four clocks with an edge, and a write in them. -/
def period (adr data : BitVec 16) : List Inputs :=
  [DirectSet.write true adr data, DirectSet.write true adr data, DirectSet.write false adr data,
    DirectSet.write false adr data]

structure Writing (start : Registers) (w : World) : Prop where
  ramping : Ramping start w
  wr : w.regs.wr = some .sw3
  asked : w.regs.dreq = true → w.regs.fgSm = .run → w.adds = 0 ∧ w.regs.freqEn = false

structure Beat (sync0 sync1 sync2 edge : Bool) (since : ℕ) (w : World) : Prop where
  sync0 : w.regs.sync0 = sync0
  sync1 : w.regs.sync1 = sync1
  sync2 : w.regs.sync2 = sync2
  edge : w.regs.fgClkEdgeDetect = edge
  since : w.since = since

theorem Ramping.reaches_adds (ramping : Ramping start w) (here : reaches w.regs = true) : w.adds = additions start := by
  rcases ramping.phase with requesting | loading | ⟨past, adding⟩
  · exact absurd (here.symm.trans requesting.quiet) Bool.noConfusion
  · rw [reaches, loading.open, Bool.and_false] at here
    exact absurd here Bool.false_ne_true
  · have reached := (Bool.and_eq_true_iff.mp here).2
    rw [dataPointReached, adding.count] at reached
    exact (addCnt_msb adding.fewer).mp reached

theorem Writing.steady (writing : Writing start w) (powered : i.nPowerupRes = true)
    (spaced : w.regs.fgClkEdgeDetect = true → 4 ≤ w.since) : Steady w i := by
  have other : ∀ reg ≠ WrReg.sw3, accepts w.regs reg = false := by
    intro reg apart
    rw [accepts, writing.wr, Bool.and_eq_false_iff]
    exact Or.inl (beq_eq_false_iff_ne.mpr fun same => apart (Option.some.inj same).symm)
  refine ⟨?_, ?_, other .sw4 WrReg.noConfusion, other .sw5 WrReg.noConfusion, ?_, spaced⟩
  · rw [resets, resetWrites, writing.wr, powered]
    rfl
  · rw [directSet, other .sw1 WrReg.noConfusion, other .sw2 WrReg.noConfusion]
    rfl
  · intro here
    by_contra asked
    have state := beq_iff_eq.mp (Bool.and_eq_true_iff.mp here).1
    have none := (writing.asked (Bool.eq_true_of_not_eq_false asked) state).1
    have full := writing.ramping.reaches_adds here
    have several := (additions_bounds start).1
    omega

theorem Writing.step (writing : Writing start w) (steady : Steady w i) (write : decodeWr g i = some .sw3) :
    Writing start (Intervals.step g w i) := by
  have ramping := writing.ramping
  have regs := step_regs (g := g) ramping.free steady
  refine ⟨ramping.step steady, ?_, ?_⟩
  · rw [regs]
    exact write
  · rw [regs]
    intro asked next
    change dreqNext w.regs = true at asked
    change _ ∧ (w.regs.fgClkEdgeDetect && w.regs.freqCnt.msb) = false
    rcases ramping.phase.state with state | state
    · -- the request is made
      obtain ⟨pause, above, _⟩ := ramping.inv.drq state
      have quiet : reaches w.regs = false := by rw [reaches, state]; rfl
      rw [step_quiet quiet pause, above.msb, Bool.and_false]
      refine ⟨?_, rfl⟩
      rcases ramping.phase with requesting | loading | ⟨past, adding⟩
      · exact requesting.adds
      · exact loading.adds
      · cases state.symm.trans adding.state
    · -- and without an edge it stays
      rw [dreqNext, state, accepts, writing.wr, beq_self_eq_true, Bool.true_and] at asked
      obtain ⟨before, edge⟩ := Bool.and_eq_true_iff.mp asked
      obtain ⟨none, pause⟩ := writing.asked before state
      have quiet : reaches w.regs = false := by
        by_contra here
        exact absurd (before.symm.trans (steady.written (Bool.eq_true_of_not_eq_false here))) Bool.noConfusion
      rw [Bool.not_eq_true'] at edge
      rw [step_quiet quiet pause, edge]
      exact ⟨none, rfl⟩

theorem Beat.step {a b c edge : Bool} {since : ℕ} (beat : Beat a b c edge since w) (ramping : Ramping start w)
    (steady : Steady w i) : Beat i.fgClk a b (!c && b) (if edge then 1 else since + 1) (Intervals.step g w i) := by
  have regs := step_regs (g := g) ramping.free steady
  constructor
  · rw [regs]
    rfl
  · rw [regs]
    exact beat.sync0
  · rw [regs]
    exact beat.sync1
  · rw [regs, ← beat.sync1, ← beat.sync2]
    rfl
  · rw [← beat.edge, ← beat.since]
    rfl

/-- A period with a write of SW3 has one edge, four clocks behind the one before. -/
theorem Writing.period (writing : Writing start w) (beat : Beat false false true false 1 w) {adr data : BitVec 16}
    (write : ∀ clk, decodeWr g (DirectSet.write clk adr data) = some .sw3) :
    Along (Intervals.step g) Steady w (Intervals.period adr data) ∧
      Writing start ((Intervals.period adr data).foldl (Intervals.step g) w) ∧
      Beat false false true false 1 ((Intervals.period adr data).foldl (Intervals.step g) w) ∧
        ((Intervals.period adr data).foldl (Intervals.step g) w).edges = w.edges + 1 := by
  have early : ∀ {a b c : Bool} {since : ℕ} {w : World} (clk : Bool), Writing start w → Beat a b c false since w →
      Steady w (DirectSet.write clk adr data) := fun clk writing beat =>
    writing.steady rfl fun edge => absurd (beat.edge.symm.trans edge) Bool.false_ne_true
  have steady₁ := early true writing beat
  have writing₁ := writing.step steady₁ (write true)
  have beat₁ : Beat true false false false 2 _ := beat.step (g := g) writing.ramping steady₁
  have steady₂ := early true writing₁ beat₁
  have writing₂ := writing₁.step steady₂ (write true)
  have beat₂ : Beat true true false false 3 _ := beat₁.step (g := g) writing₁.ramping steady₂
  have steady₃ := early false writing₂ beat₂
  have writing₃ := writing₂.step steady₃ (write false)
  have beat₃ : Beat false true true true 4 _ := beat₂.step (g := g) writing₂.ramping steady₃
  have steady₄ : Steady _ (DirectSet.write false adr data) := writing₃.steady rfl fun _ => beat₃.since.ge
  refine ⟨⟨steady₁, steady₂, steady₃, steady₄, trivial⟩, writing₃.step steady₄ (write false),
    beat₃.step writing₃.ramping steady₄, ?_⟩
  change w.edges + (if w.regs.fgClkEdgeDetect then 1 else 0) + _ + _ + _ = w.edges + 1
  rw [beat.edge, beat₁.edge, beat₂.edge, beat₃.edge]
  rfl

theorem Writing.periods (n : ℕ) (adr data : BitVec 16) (writing : Writing start w)
    (beat : Beat false false true false 1 w)
    (write : ∀ clk, decodeWr g (DirectSet.write clk adr data) = some .sw3) :
    Along (Intervals.step g) Steady w (List.replicate n (Intervals.period adr data)).flatten ∧
      ((List.replicate n (Intervals.period adr data)).flatten.foldl (Intervals.step g) w).edges = w.edges + n := by
  induction n generalizing w with
  | zero => exact ⟨trivial, rfl⟩
  | succ n ih =>
    obtain ⟨along, writing', beat', edges⟩ := writing.period beat write
    obtain ⟨rest, more⟩ := ih writing' beat'
    rw [List.replicate_succ, List.flatten_cons, List.foldl_append, more, edges]
    exact ⟨along_append.mpr ⟨along, rest⟩, by omega⟩

def prepared : List Inputs :=
  [quiet, quiet] ++ period 0x105 4 ++ period 0x104 0x3f ++ period 0x103 0xfffe ++ (period 0x1030 0).take 3

def ready : Registers := run ⟨0x1030, 0x0100⟩ (powerup ⟨0x1030, 0x0100⟩ fresh quiet) prepared

def continued (n : ℕ) : List Inputs := period 0x103 5 ++ (List.replicate n (period 0x103 5)).flatten

theorem ready_starts : ready.fgSm = .idle ∧ starts ready quiet = true ∧ additions ready = 256 ∧
    edgesPerAddition ready = 4 := by
  decide +kernel

theorem ready_writing (n : ℕ) : Along (step ⟨0x1030, 0x0100⟩) Steady (begin ready) (quiet :: continued n) ∧
    n ≤ ((quiet :: continued n).foldl (step ⟨0x1030, 0x0100⟩) (begin ready)).edges := by
  have along : Along (step ⟨0x1030, 0x0100⟩) Steady (begin ready) (quiet :: period 0x103 5) := by decide +kernel
  have inv : Inv ready := by
    rw [ready]
    exact (powerup_inv ⟨0x1030, 0x0100⟩ fresh quiet).run
  have first := ramping_start (g := ⟨0x1030, 0x0100⟩) inv ready_starts.1 ready_starts.2.1 along.1
  have ramping : Ramping ready ((quiet :: period 0x103 5).foldl (step ⟨0x1030, 0x0100⟩) (begin ready)) := by
    rw [List.foldl_cons]
    exact along.2.invariant (Ramping ready) first fun ramping here => ramping.step here
  obtain ⟨rest, edges⟩ :=
    Writing.periods (g := ⟨0x1030, 0x0100⟩) n 0x103 5 ⟨ramping, by decide +kernel, by decide +kernel⟩
    ⟨by decide +kernel, by decide +kernel, by decide +kernel, by decide +kernel, by decide +kernel⟩ (by decide)
  rw [continued, ← List.cons_append, along_append, List.foldl_append, edges]
  exact ⟨⟨along, rest⟩, Nat.le_add_left _ _⟩

theorem ramp_points_ready :
    ∃ p, ((quiet :: continued 1540).foldl (step ⟨0x1030, 0x0100⟩) (begin ready)).points[0]? = some p ∧ p.adds = 256 ∧
      p.accuReg = ready.accuReg + BitVec.ofInt 32 (256 *
        ((((quiet :: continued 1540).foldl (step ⟨0x1030, 0x0100⟩) (begin ready)).steps.take 1).map fun raw =>
          factor (sw3MulBy32 ready) * value (twosComp ready) raw).sum) := by
  obtain ⟨idle, start, additions, perAddition⟩ := ready_starts
  obtain ⟨steady, edges⟩ := ready_writing 1540
  obtain ⟨points, pace⟩ := ramp_points ⟨0x1030, 0x0100⟩ fresh quiet prepared ready quiet (continued 1540) rfl
    idle start steady
  rw [additions, perAddition] at pace
  generalize (quiet :: continued 1540).foldl (step ⟨0x1030, 0x0100⟩) (begin ready) = w at points pace edges
  have reached : 0 < w.points.length := by
    by_contra none
    rw [Nat.eq_zero_of_not_pos none] at pace
    omega
  have first := List.getElem?_eq_getElem reached
  obtain ⟨_, adds, accuReg, _⟩ := points 0 _ first
  rw [additions] at adds accuReg
  exact ⟨_, first, adds, accuReg⟩

end BelProject.Fg.Intervals
