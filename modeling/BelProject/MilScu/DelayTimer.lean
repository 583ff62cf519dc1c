import BelProject.AuxFunctions.DivN
import Mathlib.Data.Nat.Nth

/-! The delay timer of `wb_mil_scu`. The load is carried out in each clock in which its flag is up:
in three of them, or in one when the access comes right behind another one of the kind. It is
decided on the old contents whether the timer runs, and the count of a microsecond goes before the
load. -/

namespace BelProject.MilScu.DelayTimer
open Library.Traces AuxFunctions

structure Wishbone where
  cyc : Bool
  stb : Bool
  we : Bool
  adr : BitVec 32
  dat : BitVec 32
  sel : BitVec 4
  deriving DecidableEq

structure Inputs where
  wb : Wishbone
  /-- `ex_stall` as an access to another register leaves it -/
  others : Bool

structure Registers where
  -- `p_regs_acc`
  exStall : Bool
  ldDlyTimer : Bool
  -- `p_delay_timer`, with its variable
  stallDlyTimer : Bool
  dlyTimer : BitVec 25
  dlyTimerStart : Bool
  dlyIntr : Bool
  -- `p_every_us`
  divN : Int

/-- `rd_wr_dly_timer_a`. -/
def isDlyTimer (wb : Wishbone) : Bool := wb.adr.extractLsb' 2 13 == 0x07

section
variable (hz : Nat) (r : Registers) (i : Inputs)

/-- `clk_in_hz / (1_000_000_000 / 1000)`. -/
def clocksPerUs : Nat := hz / 1000000

/-- The counter of `div_n`, which is always enabled. -/
def divNext (cnt : Int) : Int := DivN.count (clocksPerUs hz - 2) true cnt

/-- `ena_every_us`. -/
def everyUs : Bool := decide (r.divN < 0)

def accepts : Bool := i.wb.cyc && i.wb.stb && r.exStall

def loading (wb : Wishbone) : Bool := isDlyTimer wb && wb.sel == 15 && wb.we

def loadValue (wb : Wishbone) : BitVec 25 := wb.dat.extractLsb' 0 25

def exStallNext : Bool :=
  if accepts r i then (if isDlyTimer i.wb then loading i.wb && r.stallDlyTimer else i.others) else true

/-- `dly_timer_start` behind the load. -/
def started : Bool := if r.ldDlyTimer then !r.dlyTimer.msb else r.dlyTimerStart

def dlyTimerNext : BitVec 25 :=
  if started r && everyUs r && !r.dlyTimer.msb then r.dlyTimer - 1
  else if r.ldDlyTimer then loadValue i.wb
  else r.dlyTimer

def dlyIntrNext : Bool := if started r && everyUs r && r.dlyTimer.msb then true else r.dlyIntr && !r.ldDlyTimer

def clock : Registers :=
  { exStall := exStallNext r i
    ldDlyTimer := accepts r i && loading i.wb
    stallDlyTimer := !r.ldDlyTimer
    dlyTimer := dlyTimerNext r i
    dlyTimerStart := started r
    dlyIntr := dlyIntrNext r
    divN := divNext hz r.divN }

end

/-- What a reset leaves; `stall_dly_timer` and the counter of `div_n` have no reset. -/
def start (stallDlyTimer : Bool) (divN : Int) : Registers :=
  { exStall := true, ldDlyTimer := false, stallDlyTimer := stallDlyTimer, dlyTimer := BitVec.allOnes 25,
    dlyTimerStart := false
    dlyIntr := false, divN := divN }

/-! ### What a load is for -/

structure Begins (r : Registers) (wb : Wishbone) : Prop where
  strobe : (wb.cyc && wb.stb) = true
  stalled : r.exStall = true
  loading : loading wb = true
  first : r.ldDlyTimer = false

/-- The host keeps a request as long as it is stalled. -/
def Held (s : ℕ → Registers) (inputs : ℕ → Inputs) : Prop :=
  ∀ n, ((inputs n).wb.cyc && (inputs n).wb.stb) = true → (s n).exStall = true → (inputs (n + 1)).wb = (inputs n).wb

def lastClock (r : Registers) : ℕ := if r.stallDlyTimer then 3 else 1

def ticks (s : ℕ → Registers) (n : ℕ) : ℕ := Nat.count (fun k => everyUs (s k) = true) n

/-- The interrupt comes with tick v + 2 behind the load, unless there is another load. A tick during
the load is counted or is not. -/
def Expires (s : ℕ → Registers) (during : Prop) (v : ℕ) : Prop :=
  ∃ counted, (counted = 0 ∨ counted = 1 ∧ during) ∧
    ∀ n, (∀ k < n, (s k).ldDlyTimer = false) → ((s n).dlyIntr = true ↔ v + 2 ≤ counted + ticks s n)

/-- There is no interrupt as long as no load starts the timer. -/
def Stopped (s : ℕ → Registers) (inputs : ℕ → Inputs) : Prop :=
  ∀ n, (∀ k < n, (s k).ldDlyTimer = true → (loadValue (inputs k).wb).msb = true) → (s n).dlyIntr = false

/-- Whatever the host does behind the load, the timer does what it was loaded for. -/
def Works (hz : Nat) (r : Registers) (wb : Wishbone) : Prop :=
  ∀ inputs : ℕ → Inputs, (inputs 0).wb = wb → Held (trace (clock hz) r inputs) inputs →
    let s := fun n => trace (clock hz) r inputs (lastClock r + 1 + n)
    if (loadValue wb).msb then Stopped s fun n => inputs (lastClock r + 1 + n)
    else Expires s (∃ k ≤ lastClock r, everyUs (trace (clock hz) r inputs k) = true) (loadValue wb).toNat

def tickIn (hz : Nat) (r : Registers) (k : ℕ) : Bool := decide ((divNext hz)^[k] r.divN < 0)

def contents (r : Registers) : BitVec 25 :=
  if r.dlyTimerStart && everyUs r && !r.dlyTimer.msb then r.dlyTimer - 1 else r.dlyTimer

/-- A load that is carried out three times does what it is for, unless it is one of zero and a
microsecond begins with the second time. One that is carried out once depends on what the timer
held. -/
def Fits (hz : Nat) (r : Registers) (wb : Wishbone) : Prop :=
  if r.stallDlyTimer then (loadValue wb).msb = true ∨ loadValue wb ≠ 0 ∨ tickIn hz r 2 = false
  else if (loadValue wb).msb then (contents r).msb = true
  else (contents r).msb = false ∧
    (tickIn hz r 1 = true → (contents r).toNat = (loadValue wb).toNat ∨ (contents r).toNat = (loadValue wb).toNat + 1)

variable {hz : Nat} {r : Registers} {i : Inputs} {inputs : ℕ → Inputs} {wb : Wishbone}

/-! ### The microseconds -/

theorem divN_trace (k : ℕ) : (trace (clock hz) r inputs k).divN = (divNext hz)^[k] r.divN := by
  induction k with
  | zero => rfl
  | succ k ih =>
    rw [Function.iterate_succ_apply', ← ih]
    rfl

theorem everyUs_trace (k : ℕ) : everyUs (trace (clock hz) r inputs k) = tickIn hz r k := by
  rw [everyUs, divN_trace]
  rfl

theorem no_tick_behind (fast : 20000000 ≤ hz) {k : ℕ} (tick : tickIn hz r k = true) :
    tickIn hz r (k + 1) = false ∧ tickIn hz r (k + 2) = false := by
  have below : (divNext hz)^[k] r.divN < 0 := of_decide_eq_true tick
  have count : 20 ≤ clocksPerUs hz := by unfold clocksPerUs; omega
  have reload : (divNext hz)^[k + 1] r.divN = clocksPerUs hz - 2 := by
    rw [Function.iterate_succ_apply', divNext, DivN.count, if_pos below]
  have next : (divNext hz)^[k + 2] r.divN = clocksPerUs hz - 3 := by
    rw [Function.iterate_succ_apply', reload, divNext, DivN.count, if_neg (by omega), if_pos rfl]
    omega
  exact ⟨decide_eq_false (by omega), decide_eq_false (by omega)⟩

theorem tick_after (hz : Nat) {k : ℕ} : ∃ n ≥ k, tickIn hz r n = true := by
  obtain ⟨left, counted⟩ : ∃ left : ℕ, (divNext hz)^[k] r.divN < left := ⟨((divNext hz)^[k] r.divN).toNat + 1, by omega⟩
  induction left generalizing k with
  | zero => exact ⟨k, le_refl k, decide_eq_true (by exact_mod_cast counted)⟩
  | succ left ih =>
    by_cases now : (divNext hz)^[k] r.divN < 0
    · exact ⟨k, le_refl k, decide_eq_true now⟩
    · have next : (divNext hz)^[k + 1] r.divN < left := by
        rw [Function.iterate_succ_apply', divNext, DivN.count, if_neg now, if_pos rfl]
        push_cast at counted
        omega
      obtain ⟨n, later, tick⟩ := ih next
      exact ⟨n, by omega, tick⟩

theorem ticks_reach (hz : Nat) (r : Registers) (inputs : ℕ → Inputs) (k : ℕ) :
    ∃ n, ticks (trace (clock hz) r inputs) n = k := by
  have often : Set.Infinite {n | everyUs (trace (clock hz) r inputs n) = true} := by
    apply Set.infinite_of_forall_exists_gt
    intro n
    obtain ⟨m, later, tick⟩ := tick_after hz (r := r) (k := n + 1)
    exact ⟨m, (everyUs_trace m).trans tick, by omega⟩
  exact Nat.surjective_count_of_infinite_setOfPred often k

/-! ### The timer between two loads -/

def left (timer : BitVec 25) : ℕ := if timer.msb then 1 else timer.toNat + 2

theorem left_pos (timer : BitVec 25) : 1 ≤ left timer := by
  unfold left
  split_ifs
  · exact le_refl 1
  · omega

theorem msb_iff (timer : BitVec 25) : timer.msb = true ↔ 2 ^ 24 ≤ timer.toNat := by
  rw [BitVec.msb_eq_decide]
  exact decide_eq_true_iff

theorem toNat_pred (timer : BitVec 25) : (timer - 1).toNat = if timer.toNat = 0 then 2 ^ 25 - 1
    else timer.toNat - 1 := by
  have bound := timer.isLt
  rw [BitVec.toNat_sub]
  split_ifs with zero
  · rw [zero]
    rfl
  · have one : (1 : BitVec 25).toNat = 1 := rfl
    rw [one]
    omega

theorem msb_pred {timer : BitVec 25} (counts : timer.msb = false) : (timer - 1).msb = true ↔ timer.toNat = 0 := by
  have small : ¬2 ^ 24 ≤ timer.toNat := fun big => absurd (counts.symm.trans ((msb_iff timer).mpr big)) Bool.noConfusion
  rw [msb_iff, toNat_pred]
  split_ifs with zero
  · exact iff_of_true (by decide) zero
  · exact iff_of_false (by omega) zero

theorem left_pred {timer : BitVec 25} (counts : timer.msb = false) : left (timer - 1) + 1 = left timer := by
  rw [left, left, counts]
  by_cases zero : timer.toNat = 0
  · rw [if_pos ((msb_pred counts).mpr zero), zero]
    rfl
  · rw [if_neg fun negative => zero ((msb_pred counts).mp negative), toNat_pred, if_neg zero]
    simp only [Bool.false_eq_true, if_false]
    omega

/-- The timer runs for the k-th tick of its `total` ones. -/
structure Counting (total k : ℕ) (r : Registers) : Prop where
  started : r.dlyTimerStart = true
  before : k < total → r.dlyIntr = false ∧ left r.dlyTimer + k = total
  after : total ≤ k → r.dlyIntr = true ∧ r.dlyTimer.msb = true

structure Halted (r : Registers) : Prop where
  started : r.dlyTimerStart = false
  dlyTimer : r.dlyTimer.msb = true
  dlyIntr : r.dlyIntr = false

theorem Counting.clock (hz : Nat) {total k : ℕ} (counting : Counting total k r) (none : r.ldDlyTimer = false) :
    Counting total (k + if everyUs r = true then 1 else 0) (clock hz r i) := by
  have runs : DelayTimer.started r = true := by
    rw [DelayTimer.started, none]
    exact counting.started
  have timer : (DelayTimer.clock hz r i).dlyTimer = if everyUs r && !r.dlyTimer.msb then r.dlyTimer - 1
    else r.dlyTimer := by
    change dlyTimerNext r i = _
    rw [dlyTimerNext, runs, none]
    rfl
  have intr : (DelayTimer.clock hz r i).dlyIntr = (everyUs r && r.dlyTimer.msb || r.dlyIntr) := by
    change dlyIntrNext r = _
    rw [dlyIntrNext, runs, none]
    cases everyUs r <;> cases r.dlyTimer.msb <;> cases r.dlyIntr <;> rfl
  cases tick : everyUs r with
  | false =>
    rw [tick] at timer intr
    rw [if_neg Bool.false_ne_true]
    constructor
    · exact runs
    · rw [intr, timer]
      exact counting.before
    · rw [intr, timer]
      exact counting.after
  | true =>
    rw [tick] at timer intr
    rw [if_pos rfl]
    constructor
    · exact runs
    · intro less
      obtain ⟨off, rest⟩ := counting.before (by omega)
      cases negative : r.dlyTimer.msb with
      | true =>
        rw [left, negative] at rest
        simp only [if_true] at rest
        omega
      | false =>
        have pred := left_pred negative
        rw [intr, timer, negative, off]
        exact ⟨rfl, by simp only [Bool.not_false, Bool.and_self, if_true]; omega⟩
    · intro enough
      by_cases done : total ≤ k
      · obtain ⟨on, negative⟩ := counting.after done
        rw [intr, timer, negative, on]
        exact ⟨rfl, negative⟩
      · obtain ⟨off, rest⟩ := counting.before (by omega)
        cases negative : r.dlyTimer.msb with
        | true =>
          rw [intr, timer, negative]
          exact ⟨rfl, negative⟩
        | false =>
          rw [left, negative] at rest
          simp only [Bool.false_eq_true, if_false] at rest
          omega

theorem Counting.run (started : r.dlyTimerStart = true) (clear : r.dlyIntr = false) {n : ℕ}
    (none : ∀ k < n, (trace (DelayTimer.clock hz) r inputs k).ldDlyTimer = false) :
    Counting (left r.dlyTimer) (ticks (trace (DelayTimer.clock hz) r inputs) n)
      (trace (DelayTimer.clock hz) r inputs n) := by
  induction n with
  | zero =>
    have some := left_pos r.dlyTimer
    refine ⟨started, fun _ => ⟨clear, rfl⟩, fun elapsed => ?_⟩
    rw [ticks, Nat.count_zero] at elapsed
    omega
  | succ n ih =>
    have counting := ih fun k before => none k (by omega)
    have next := counting.clock hz (i := inputs n) (none n (Nat.lt_succ_self n))
    rw [ticks, Nat.count_succ]
    exact next

theorem Halted.clock (halted : Halted r) (stops : r.ldDlyTimer = true → (loadValue i.wb).msb = true) :
    Halted (clock hz r i) := by
  have runs : DelayTimer.started r = false := by
    rw [DelayTimer.started, halted.started, halted.dlyTimer]
    exact ite_self _
  constructor
  · exact runs
  · change (dlyTimerNext r i).msb = true
    rw [dlyTimerNext, runs]
    cases load : r.ldDlyTimer with
    | true => exact stops load
    | false => exact halted.dlyTimer
  · change dlyIntrNext r = false
    rw [dlyIntrNext, runs, halted.dlyIntr]
    rfl

theorem Halted.run (halted : Halted r) : Stopped (trace (DelayTimer.clock hz) r inputs) inputs := by
  intro n stops
  have still : Halted (trace (DelayTimer.clock hz) r inputs n) := by
    induction n with
    | zero => exact halted
    | succ n ih => exact (ih fun k before => stops k (by omega)).clock (stops n (Nat.lt_succ_self n))
  exact still.dlyIntr

theorem idle_run (off : r.dlyTimerStart = false) {n : ℕ}
    (none : ∀ k < n, (trace (clock hz) r inputs k).ldDlyTimer = false) :
    (trace (clock hz) r inputs n).dlyTimerStart = false ∧ (trace (clock hz) r inputs n).dlyIntr = r.dlyIntr := by
  induction n with
  | zero => exact ⟨off, rfl⟩
  | succ n ih =>
    obtain ⟨started, same⟩ := ih fun k before => none k (by omega)
    have here := none n (Nat.lt_succ_self n)
    have runs : DelayTimer.started (trace (clock hz) r inputs n) = false := by
      rw [DelayTimer.started, here]
      exact started
    refine ⟨runs, ?_⟩
    change dlyIntrNext (trace (clock hz) r inputs n) = _
    rw [dlyIntrNext, runs, here, same]
    exact Bool.and_true _

theorem Counting.intr_iff {total k : ℕ} (counting : Counting total k r) : r.dlyIntr = true ↔ total ≤ k := by
  constructor
  · intro on
    by_contra less
    exact absurd (on.symm.trans (counting.before (by omega)).1) Bool.noConfusion
  · exact fun enough => (counting.after enough).1

theorem expires_started {during : Prop} {v counted : ℕ} (started : r.dlyTimerStart = true) (clear : r.dlyIntr = false)
    (counts : counted = 0 ∨ counted = 1 ∧ during) (same : left r.dlyTimer + counted = v + 2) :
    Expires (trace (clock hz) r inputs) during v := by
  refine ⟨counted, counts, fun n none => ?_⟩
  rw [(Counting.run started clear none).intr_iff]
  omega

section
variable (silent : ∀ k, (trace (clock hz) r inputs k).ldDlyTimer = false)
include silent

theorem left_of_expires {during : Prop} {v : ℕ} (started : r.dlyTimerStart = true) (clear : r.dlyIntr = false)
    (expires : Expires (trace (clock hz) r inputs) during v) :
    ∃ counted, (counted = 0 ∨ counted = 1 ∧ during) ∧ left r.dlyTimer + counted = v + 2 := by
  obtain ⟨counted, counts, comes⟩ := expires
  have intr : ∀ n, left r.dlyTimer ≤ ticks (trace (clock hz) r inputs) n ↔
    v + 2 ≤ counted + ticks (trace (clock hz) r inputs) n := by
    intro n
    rw [← comes n fun k _ => silent k, (Counting.run started clear fun k _ => silent k).intr_iff]
  have few : counted ≤ 1 := by
    rcases counts with none | ⟨one, _⟩
    · omega
    · omega
  obtain ⟨n, all⟩ := ticks_reach hz r inputs (left r.dlyTimer)
  obtain ⟨m, due⟩ := ticks_reach hz r inputs (v + 2 - counted)
  have upper := (intr n).mp all.ge
  have lower := (intr m).mpr (by omega)
  exact ⟨counted, counts, by omega⟩

theorem not_expires {during : Prop} {v : ℕ} (off : r.dlyTimerStart = false) (clear : r.dlyIntr = false) :
    ¬Expires (trace (clock hz) r inputs) during v := by
  rintro ⟨counted, _, comes⟩
  obtain ⟨n, due⟩ := ticks_reach hz r inputs (v + 2)
  have on := (comes n fun k _ => silent k).mpr (by omega)
  have still : (trace (clock hz) r inputs n).dlyIntr = r.dlyIntr := (idle_run off fun k _ => silent k).2
  exact absurd (on.symm.trans (still.trans clear)) Bool.noConfusion

theorem not_stopped {later : ℕ → Inputs} (started : r.dlyTimerStart = true) (clear : r.dlyIntr = false) :
    ¬Stopped (trace (clock hz) r inputs) later := by
  intro stopped
  obtain ⟨n, all⟩ := ticks_reach hz r inputs (left r.dlyTimer)
  have counting := Counting.run started clear fun (k : ℕ) (_ : k < n) => silent k
  have on := counting.intr_iff.mpr all.ge
  have off := stopped n fun k _ load => absurd (load.symm.trans (silent k)) Bool.noConfusion
  exact absurd (on.symm.trans off) Bool.noConfusion

end

/-! ### The clocks of a load -/

/-- The request is there until the host is not stalled any more. -/
def Access (r : Registers) (wb : Wishbone) (inputs : ℕ → Inputs) : Prop := ∀ k ≤ lastClock r, (inputs k).wb = wb

theorem taken (hz : Nat) (strobe : (wb.cyc && wb.stb) = true) (allowed : loading wb = true)
    (same : i.wb = wb) (stalled : r.exStall = true) :
    (clock hz r i).ldDlyTimer = true ∧ (clock hz r i).exStall = r.stallDlyTimer := by
  have accepted : accepts r i = true := by rw [accepts, same, strobe, stalled]; rfl
  have timer : isDlyTimer wb = true := by
    rw [loading, Bool.and_eq_true, Bool.and_eq_true] at allowed
    exact allowed.1.1
  constructor
  · change (accepts r i && loading i.wb) = true
    rw [accepted, same, allowed]
    rfl
  · change exStallNext r i = _
    rw [exStallNext, accepted, same, timer, allowed]
    rfl

theorem untaken (released : r.exStall = false) : (clock hz r i).ldDlyTimer = false := by
  change (accepts r i && loading i.wb) = false
  rw [accepts, released, Bool.and_false]
  rfl

theorem access_stalled (hz : Nat) (begins : Begins r wb) (k : ℕ) (before : k < lastClock r)
    (same : ∀ j < k, (inputs j).wb = wb) :
    (trace (clock hz) r inputs k).exStall = true := by
  cases long : r.stallDlyTimer with
  | false =>
    have last : lastClock r = 1 := by rw [lastClock, long]; rfl
    obtain rfl : k = 0 := by omega
    exact begins.stalled
  | true =>
    have last : lastClock r = 3 := by rw [lastClock, long]; rfl
    rw [last] at before
    have first : 0 < k → (trace (clock hz) r inputs 1).exStall = true := by
      intro some
      exact (taken hz begins.strobe begins.loading (same 0 some) begins.stalled).2.trans long
    have stall : (trace (clock hz) r inputs 1).stallDlyTimer = true := by
      change (!r.ldDlyTimer) = true
      rw [begins.first]
      rfl
    match k, before with
    | 0, _ => exact begins.stalled
    | 1, _ => exact first Nat.one_pos
    | 2, _ => exact (taken hz begins.strobe begins.loading (same 1 (by omega)) (first Nat.two_pos)).2.trans stall

theorem access_states (hz : Nat) (begins : Begins r wb) (same : Access r wb inputs) :
    (∀ k, 1 ≤ k → k ≤ lastClock r → (trace (clock hz) r inputs k).ldDlyTimer = true) ∧
      (∀ k < lastClock r, (trace (clock hz) r inputs k).exStall = true) ∧
      (trace (clock hz) r inputs (lastClock r)).exStall = false := by
  have stalled : ∀ k < lastClock r, (trace (clock hz) r inputs k).exStall = true := by
    intro k before
    exact access_stalled hz begins k before fun j earlier => same j (by omega)
  have takes : ∀ k < lastClock r, (trace (clock hz) r inputs (k + 1)).ldDlyTimer = true ∧
      (trace (clock hz) r inputs (k + 1)).exStall = (trace (clock hz) r inputs k).stallDlyTimer := by
    intro k before
    exact taken hz begins.strobe begins.loading (same k before.le) (stalled k before)
  refine ⟨fun k some upto => ?_, stalled, ?_⟩
  · obtain ⟨k, rfl⟩ := Nat.exists_eq_add_of_le' some
    exact (takes k upto).1
  · cases long : r.stallDlyTimer with
    | false =>
      have last : lastClock r = 1 := by rw [lastClock, long]; rfl
      rw [last] at takes ⊢
      exact (takes 0 Nat.one_pos).2.trans long
    | true =>
      have last : lastClock r = 3 := by rw [lastClock, long]; rfl
      rw [last] at takes ⊢
      have stall : (trace (clock hz) r inputs 2).stallDlyTimer = false := by
        change (!(trace (clock hz) r inputs 1).ldDlyTimer) = false
        rw [(takes 0 (by omega)).1]
        rfl
      exact (takes 2 (by omega)).2.trans stall

theorem held_access (begins : Begins r wb) (first : (inputs 0).wb = wb)
    (held : Held (trace (clock hz) r inputs) inputs) :
    Access r wb inputs := by
  intro k
  induction k using Nat.strong_induction_on with
  | _ k ih =>
    intro upto
    cases k with
    | zero => exact first
    | succ k =>
      have same := ih k (Nat.lt_succ_self k) (by omega)
      have stalled := access_stalled hz begins k upto fun j before => ih j (by omega) (by omega)
      exact (held k (by rw [same]; exact begins.strobe) stalled).trans same

theorem load_clock (hz : Nat) (load : r.ldDlyTimer = true) :
    (clock hz r i).dlyTimerStart = !r.dlyTimer.msb ∧ (clock hz r i).dlyIntr = false ∧
      (clock hz r i).dlyTimer = if !r.dlyTimer.msb && everyUs r then r.dlyTimer - 1 else loadValue i.wb := by
  have starts : started r = !r.dlyTimer.msb := by rw [started, load]; rfl
  refine ⟨starts, ?_, ?_⟩
  · change dlyIntrNext r = false
    rw [dlyIntrNext, starts, load]
    cases r.dlyTimer.msb <;> cases everyUs r <;> cases r.dlyIntr <;> rfl
  · change dlyTimerNext r i = _
    rw [dlyTimerNext, starts, load]
    cases r.dlyTimer.msb <;> cases everyUs r <;> rfl

theorem contents_clock (first : r.ldDlyTimer = false) : (clock hz r i).dlyTimer = contents r := by
  change dlyTimerNext r i = _
  rw [dlyTimerNext, started, first]
  rfl

theorem short_load (begins : Begins r wb) (short : r.stallDlyTimer = false) (same : Access r wb inputs) :
    (trace (clock hz) r inputs 2).dlyTimerStart = !(contents r).msb ∧ (trace (clock hz) r inputs 2).dlyIntr = false ∧
      (trace (clock hz) r inputs 2).dlyTimer = if !(contents r).msb && tickIn hz r 1 then contents r - 1
        else loadValue wb := by
  have last : lastClock r = 1 := by rw [lastClock, short]; rfl
  have load := (access_states hz begins same).1 1 (le_refl 1) last.ge
  have before : (trace (clock hz) r inputs 1).dlyTimer = contents r := contents_clock begins.first
  have once := load_clock hz (i := inputs 1) load
  rw [before, everyUs_trace, same 1 last.ge] at once
  exact once

theorem long_load (fast : 20000000 ≤ hz) (begins : Begins r wb) (long : r.stallDlyTimer = true)
    (same : Access r wb inputs) :
    (trace (clock hz) r inputs 4).dlyTimerStart = (!(loadValue wb).msb && !(tickIn hz r 2 && loadValue wb == 0)) ∧
      (trace (clock hz) r inputs 4).dlyIntr = false ∧
      (trace (clock hz) r inputs 4).dlyTimer = if !(loadValue wb).msb &&
        tickIn hz r 3 then loadValue wb - 1 else loadValue wb := by
  have last : lastClock r = 3 := by rw [lastClock, long]; rfl
  have load := (access_states hz begins same).1
  rw [last] at load
  rw [Access, last] at same
  have once := load_clock hz (i := inputs 1) (load 1 (by omega) (by omega))
  have twice := load_clock hz (i := inputs 2) (load 2 (by omega) (by omega))
  have thrice := load_clock hz (i := inputs 3) (load 3 (by omega) (by omega))
  rw [everyUs_trace, same 1 (by omega)] at once
  rw [everyUs_trace, same 2 (by omega)] at twice
  rw [everyUs_trace, same 3 (by omega)] at thrice
  cases tick : tickIn hz r 2 with
  | false =>
    -- The second time brings the value, whatever the first one did.
    have second : (trace (clock hz) r inputs 3).dlyTimer = loadValue wb := by
      refine twice.2.2.trans (if_neg ?_)
      rw [tick, Bool.and_false]
      exact Bool.false_ne_true
    rw [second] at thrice
    exact ⟨by rw [Bool.false_and, Bool.not_false, Bool.and_true]; exact thrice.1, thrice.2⟩
  | true =>
    have one : tickIn hz r 1 = false := by
      by_contra earlier
      exact absurd (tick.symm.trans (no_tick_behind fast (Bool.eq_true_of_not_eq_false earlier)).1) Bool.noConfusion
    have three : tickIn hz r 3 = false := (no_tick_behind fast tick).1
    have first : (trace (clock hz) r inputs 2).dlyTimer = loadValue wb := by
      refine once.2.2.trans (if_neg ?_)
      rw [one, Bool.and_false]
      exact Bool.false_ne_true
    have second : (trace (clock hz) r inputs 3).dlyTimer = if !(loadValue wb).msb then loadValue wb - 1
      else loadValue wb := by
      have counts := twice.2.2
      rw [first, tick, Bool.and_true] at counts
      exact counts
    have third : (trace (clock hz) r inputs 4).dlyTimer = loadValue wb := by
      refine thrice.2.2.trans (if_neg ?_)
      rw [three, Bool.and_false]
      exact Bool.false_ne_true
    refine ⟨thrice.1.trans ?_, thrice.2.1, ?_⟩
    · rw [second]
      cases stop : (loadValue wb).msb with
      | true =>
        rw [Bool.not_true, if_neg Bool.false_ne_true, stop]
        rfl
      | false =>
        rw [Bool.not_false, if_pos rfl, Bool.true_and, Bool.true_and]
        apply congrArg Bool.not
        rw [Bool.eq_iff_iff, msb_pred stop, beq_iff_eq]
        exact ⟨fun zero => BitVec.eq_of_toNat_eq zero, fun zero => congrArg BitVec.toNat zero⟩
    · rw [three, Bool.and_false]
      exact third

/-! ### When a load works -/

/-- The start and the contents behind a load. -/
def behind (hz : Nat) (r : Registers) (wb : Wishbone) : Bool × BitVec 25 :=
  if r.stallDlyTimer then
    (!(loadValue wb).msb && !(tickIn hz r 2 && loadValue wb == 0),
      if !(loadValue wb).msb && tickIn hz r 3 then loadValue wb - 1 else loadValue wb)
  else (!(contents r).msb, if !(contents r).msb && tickIn hz r 1 then contents r - 1 else loadValue wb)

theorem behind_load (fast : 20000000 ≤ hz) (begins : Begins r wb) (same : Access r wb inputs) :
    (trace (clock hz) r inputs (lastClock r + 1)).dlyTimerStart = (behind hz r wb).1 ∧
      (trace (clock hz) r inputs (lastClock r + 1)).dlyIntr = false ∧
      (trace (clock hz) r inputs (lastClock r + 1)).dlyTimer = (behind hz r wb).2 := by
  cases long : r.stallDlyTimer with
  | false =>
    rw [behind, lastClock, long]
    exact short_load begins long same
  | true =>
    rw [behind, lastClock, long]
    exact long_load fast begins long same

theorem behind_stopped (stop : (loadValue wb).msb = true) (off : (behind hz r wb).1 = false) :
    (behind hz r wb).2.msb = true := by
  cases long : r.stallDlyTimer with
  | false =>
    rw [behind, long] at off ⊢
    simp only [Bool.false_eq_true, if_false] at off ⊢
    rw [off, Bool.false_and, if_neg Bool.false_ne_true]
    exact stop
  | true =>
    rw [behind, long]
    simp only [if_true]
    rw [stop, Bool.not_true, Bool.false_and, if_neg Bool.false_ne_true]
    exact stop

def only (r : Registers) (wb : Wishbone) (k : ℕ) : Inputs :=
  { wb := if k ≤ lastClock r then wb else ⟨false, false, false, 0, 0, 0⟩, others := false }

theorem only_access : Access r wb (only r wb) := fun _ upto => if_pos upto

theorem only_held (begins : Begins r wb) : Held (trace (clock hz) r (only r wb)) (only r wb) := by
  intro n strobe stalled
  by_cases upto : n ≤ lastClock r
  · by_cases last : n = lastClock r
    · rw [last] at stalled
      exact absurd (stalled.symm.trans (access_states hz begins only_access).2.2) Bool.noConfusion
    · have next : (only r wb (n + 1)).wb = wb := if_pos (by omega)
      exact next.trans (if_pos upto).symm
  · rw [only, if_neg upto] at strobe
    cases strobe

theorem only_silent (hz : Nat) (begins : Begins r wb) (k : ℕ) :
    (trace (clock hz) r (only r wb) (lastClock r + 1 + k)).ldDlyTimer = false := by
  cases k with
  | zero => exact untaken (access_states hz begins only_access).2.2
  | succ k =>
    change (accepts _ (only r wb (lastClock r + 1 + k)) && _) = false
    rw [accepts, only, if_neg (by omega)]
    rfl

theorem trace_behind (n : ℕ) : (fun k => trace (clock hz) r inputs (n + k)) =
    trace (clock hz) (trace (clock hz) r inputs n) fun k => inputs (n + k) := by
  funext k
  exact trace_add n k

theorem works_iff_behind (hz : Nat) (fast : 20000000 ≤ hz) (begins : Begins r wb) :
    Works hz r wb ↔ if (loadValue wb).msb then (behind hz r wb).1 = false
      else (behind hz r wb).1 = true ∧ ∃ counted,
        (counted = 0 ∨ counted = 1 ∧ ∃ k ≤ lastClock r, tickIn hz r k = true) ∧
        left (behind hz r wb).2 + counted = (loadValue wb).toNat + 2 := by
  constructor
  · intro works
    have result := works (only r wb) (only_access 0 (Nat.zero_le _)) (only_held begins)
    dsimp only at result
    obtain ⟨started, clear, timer⟩ := behind_load fast begins only_access
    rw [← started, ← timer]
    have silent := only_silent hz begins
    rw [trace_behind] at result
    cases stop : (loadValue wb).msb with
    | true =>
      rw [stop, if_pos rfl] at result
      rw [if_pos rfl]
      by_contra on
      exact not_stopped (fun k => (congrFun (trace_behind _) k).symm ▸ silent k)
        (Bool.eq_true_of_not_eq_false on) clear result
    | false =>
      rw [stop, if_neg Bool.false_ne_true] at result
      rw [if_neg Bool.false_ne_true]
      simp only [everyUs_trace] at result
      cases on : (trace (clock hz) r (only r wb) (lastClock r + 1)).dlyTimerStart with
      | false => exact absurd result (not_expires (fun k => (congrFun (trace_behind _) k).symm ▸ silent k) on clear)
      | true => exact ⟨rfl, left_of_expires (fun k => (congrFun (trace_behind _) k).symm ▸ silent k) on clear result⟩
  · intro condition inputs first held
    have same := held_access begins first held
    obtain ⟨started, clear, timer⟩ := behind_load fast begins same
    dsimp only
    rw [trace_behind]
    cases stop : (loadValue wb).msb with
    | true =>
      rw [stop, if_pos rfl] at condition
      rw [if_pos rfl]
      have halted : Halted (trace (clock hz) r inputs (lastClock r + 1)) :=
        ⟨started.trans condition, by rw [timer]; exact behind_stopped stop condition, clear⟩
      exact halted.run
    | false =>
      rw [stop, if_neg Bool.false_ne_true] at condition
      rw [if_neg Bool.false_ne_true]
      obtain ⟨on, counted, counts, total⟩ := condition
      simp only [everyUs_trace]
      exact expires_started (started.trans on) clear counts (by rw [timer]; exact total)

theorem toNat_of_start {value : BitVec 25} (start : value.msb = false) : left value = value.toNat + 2 := by
  rw [left, start]
  rfl

/-- A load with the bits of a Wishbone write works if and only if it fits. -/
theorem works_iff (hz : Nat) (fast : 20000000 ≤ hz) (r : Registers) (wb : Wishbone) (begins : Begins r wb) :
    Works hz r wb ↔ Fits hz r wb := by
  rw [works_iff_behind hz fast begins]
  cases long : r.stallDlyTimer with
  | true =>
    have last : lastClock r = 3 := by rw [lastClock, long]; rfl
    rw [behind, Fits, long, last]
    simp only [if_true]
    cases stop : (loadValue wb).msb with
    | true => simp
    | false =>
      simp only [Bool.false_eq_true, if_false, Bool.not_false, Bool.true_and, false_or]
      constructor
      · rintro ⟨on, _⟩
        cases tick : tickIn hz r 2 with
        | false => exact Or.inr rfl
        | true =>
          rw [tick, Bool.true_and, Bool.not_eq_true', beq_eq_false_iff_ne] at on
          exact Or.inl on
      · intro fits
        refine ⟨?_, ?_⟩
        · rw [Bool.not_eq_true', Bool.and_eq_false_iff, beq_eq_false_iff_ne]
          exact fits.symm
        · cases tick : tickIn hz r 3 with
          | false => exact ⟨0, Or.inl rfl, toNat_of_start stop⟩
          | true => exact ⟨1, Or.inr ⟨rfl, 3, le_refl 3, tick⟩, (left_pred stop).trans (toNat_of_start stop)⟩
  | false =>
    have last : lastClock r = 1 := by rw [lastClock, long]; rfl
    rw [behind, Fits, long, last]
    simp only [Bool.false_eq_true, if_false]
    cases stop : (loadValue wb).msb with
    | true => simp
    | false =>
      simp only [Bool.false_eq_true, if_false, Bool.not_eq_true']
      cases before : (contents r).msb with
      | true => simp
      | false =>
        simp only [Bool.not_false, Bool.true_and, true_and]
        have here := toNat_of_start before
        cases tick : tickIn hz r 1 with
        | false =>
          simp only [Bool.false_eq_true, if_false, false_implies, iff_true]
          exact ⟨0, Or.inl rfl, toNat_of_start stop⟩
        | true =>
          have counts := left_pred before
          simp only [if_true, true_implies]
          constructor
          · rintro ⟨counted, few, total⟩
            rcases few with none | ⟨one, _⟩
            · omega
            · omega
          · rintro (same | above)
            · exact ⟨1, Or.inr ⟨rfl, 1, le_refl 1, tick⟩, by omega⟩
            · exact ⟨0, Or.inl rfl, by omega⟩

def write (dat : BitVec 32) : Wishbone := { cyc := true, stb := true, we := true, adr := 0x1c, dat := dat, sel := 15 }

theorem works_iff_five : Works 20000000 (start true 7) (write 5) ↔ Fits 20000000 (start true 7) (write 5) :=
  works_iff 20000000 (by decide) (start true 7) (write 5) ⟨rfl, rfl, by decide, rfl⟩

def restarting : Registers := (List.replicate 4 ⟨write 0x1000000, false⟩).foldl (clock 20000000) (start true 7)

/-- The second load is carried out once, on the stop bit of the first one. -/
theorem load_does_not_start : ¬∀ (past : List Inputs) (wb : Wishbone), Begins
    (past.foldl (clock 20000000) (start true 7)) wb →
    Works 20000000 (past.foldl (clock 20000000) (start true 7)) wb := by
  intro all
  have begins : Begins restarting (write 5) := ⟨by decide, by decide, by decide, by decide⟩
  have works := (works_iff_behind 20000000 (by decide) begins).mp
    (all (List.replicate 4 ⟨write 0x1000000, false⟩) (write 5) begins)
  have starts : (loadValue (write 5)).msb = false := by decide
  rw [starts, if_neg Bool.false_ne_true] at works
  exact absurd works.1 (by decide)

end BelProject.MilScu.DelayTimer
