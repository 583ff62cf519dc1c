import BelProject.Tmr.TmrScuBus
import BelProject.Library.Countdown
import BelProject.Library.Traces
import Mathlib.Data.List.Count

/-! The period of the timer. The counter is loaded from the value registers when it runs over, and
when the timer is reset, with what they hold then. What is written behind the reset is taken only
after the first interrupt. -/

namespace BelProject.Tmr.Period
open TmrScuBus Library.Runs Library.Traces Library

/-- A timer in use: after any accesses it is reset, its values are written, it is enabled, and it is
not written any more. -/
structure Session (baseAddr : BitVec 16) where
  past : List Inputs
  reset : Inputs
  setup : List Inputs
  later : ℕ → Inputs
  resets : (past.foldl (watched baseAddr) start).2.wrote .cntrl = true ∧ reset.nrst = true ∧ reset.data.getLsbD 0 = true
  disabled : Along (watched baseAddr) (fun x i => i.nrst = true ∧
    (x.2.wrote .cntrl = true → i.data.getLsbD 0 = false ∧ i.data.getLsbD 1 = false))
    (watched baseAddr (past.foldl (watched baseAddr) start) reset) setup
  enables : (setup.foldl (watched baseAddr) (watched baseAddr
    (past.foldl (watched baseAddr) start) reset)).2.wrote .cntrl = true ∧
    (later 0).data.getLsbD 0 = false ∧ (later 0).data.getLsbD 1 = true
  running : ∀ n, (later n).nrst = true ∧ ∀ r, addressed baseAddr (later n) r = true → (later n).extWrActive = false

namespace Session
variable {baseAddr : BitVec 16} (c : Session baseAddr)

def before : Registers × Written := c.past.foldl (watched baseAddr) start

def cleared : Registers × Written := watched baseAddr c.before c.reset

/-- In the clock in which the write of the enable bit is acknowledged, and the clocks behind. -/
def state (n : ℕ) : Registers × Written :=
  trace (watched baseAddr) (c.setup.foldl (watched baseAddr) c.cleared) c.later n

def value : ℕ := ((c.state 0).2.valueh ++ (c.state 0).2.valuel).toNat

def old : ℕ := (c.before.2.valueh ++ c.before.2.valuel).toNat

def irq (n : ℕ) : Bool := tmrIrq (c.state n).1

/-- Beyond the value, a period has the clock in which the counter is loaded and the one of the
interrupt. -/
def offset : ℕ := 2

/-- From the enable to the first interrupt and from each one to the next it takes the same time, and
the interrupts since the reset are counted. -/
structure Regular : Prop where
  silent : Along (watched baseAddr) (fun x _ => tmrIrq x.1 = false) c.cleared c.setup
  periodic : ∀ n, c.irq n = true ↔ ∃ m, n = (m + 1) * (c.value + offset)
  counted : ∀ n, (c.state n).1.timer.tmrIrqCnt = BitVec.ofNat 16 ((List.range n).countP c.irq)

end Session

variable {baseAddr : BitVec 16} {s : Registers} {w : Written} {i : Inputs} {c : Session baseAddr}

/-- The counter by the clocks that are left to its interrupt. -/
def counter (clocks : ℕ) : BitVec 33 := BitVec.ofNat 33 clocks - 1

theorem counter_msb {clocks : ℕ} (small : clocks ≤ 2 ^ 32) : (counter clocks).msb = decide (clocks = 0) := by
  rcases Nat.eq_zero_or_pos clocks with rfl | positive
  · rfl
  · have value : (counter clocks).toNat = clocks - 1 := by
      rw [counter, BitVec.toNat_sub, BitVec.toNat_ofNat]
      change (2 ^ 33 - 1 + clocks % 2 ^ 33) % 2 ^ 33 = _
      omega
    rw [decide_eq_false (Nat.ne_of_gt positive), BitVec.msb_eq_false_iff_two_mul_lt, value]
    omega

theorem counter_pred {clocks : ℕ} (positive : 0 < clocks) : counter clocks - 1 = counter (clocks - 1) := by
  obtain ⟨clocks, rfl⟩ := Nat.exists_eq_succ_of_ne_zero (Nat.ne_of_gt positive)
  rw [Nat.succ_sub_one, counter, counter, Nat.succ_eq_add_one, BitVec.ofNat_add]
  congr 1
  exact BitVec.add_sub_cancel _ _

theorem value_counter (valueh valuel : BitVec 16) :
    (0#1 ++ (valueh ++ valuel) : BitVec 33) = counter ((valueh ++ valuel).toNat + 1) := by
  have small : (valueh ++ valuel).toNat < 2 ^ 32 := BitVec.isLt _
  apply BitVec.eq_of_toNat_eq
  rw [counter, BitVec.ofNat_add, show BitVec.ofNat 33 1 = 1 from rfl, BitVec.add_sub_cancel, BitVec.toNat_ofNat,
    Nat.mod_eq_of_lt (Nat.lt_trans small (by decide)), BitVec.toNat_append]
  exact Nat.zero_or _

/-- Disabled, with the clocks that the first interrupt will take. -/
structure Held (x : Registers × Written) (clocks : ℕ) : Prop where
  follows : Follows x.1 x.2
  off : x.1.cntrl.tmrCntrlReg.getLsbD 1 = false
  timer : x.1.timer = ⟨counter clocks, 0⟩

theorem value_written (follows : Follows s w) : s.cntrl.value = counter ((w.valueh ++ w.valuel).toNat + 1) := by
  rw [Cntrl.value, follows.valuel, follows.valueh]
  exact value_counter _ _

variable (c : Session baseAddr)

theorem held_cleared : Held c.cleared (c.old + 1) := by
  obtain ⟨wrote, high, set⟩ := c.resets
  have follows : Follows c.before.1 c.before.2 := run_follows baseAddr c.past
  have next : clock baseAddr c.before.1 c.reset = _ := follows.reset_next high wrote set
  refine ⟨follows.next baseAddr c.reset, ?_, ?_⟩
  · change (clock baseAddr _ c.reset).cntrl.tmrCntrlReg.getLsbD 1 = false
    rw [next]
    exact BitVec.getLsbD_zero
  · change (clock baseAddr _ c.reset).timer = _
    rw [next, value_written follows]
    rfl

variable {x : Registers × Written} {clocks value : ℕ}

theorem Held.edge (held : Held x clocks) (some : 0 < clocks) (small : clocks ≤ 2 ^ 32) :
    x.1.timer.edge x.1.cntrl = x.1.timer := by
  rw [Timer.edge, held.timer, counter_msb small, decide_eq_false (Nat.ne_of_gt some), held.off]
  rfl

theorem Held.next (held : Held x clocks) (some : 0 < clocks) (small : clocks ≤ 2 ^ 32) (high : i.nrst = true)
    (clear : x.2.wrote .cntrl = true → i.data.getLsbD 0 = false ∧ i.data.getLsbD 1 = false) :
    Held (watched baseAddr x i) clocks := by
  have next : clock baseAddr x.1 i = _ := held.follows.plain_next high fun wrote => (clear wrote).1
  refine ⟨held.follows.next baseAddr i, ?_, ?_⟩
  · change (clock baseAddr x.1 i).cntrl.tmrCntrlReg.getLsbD 1 = false
    rw [next]
    dsimp only
    split_ifs with wrote
    · exact (clear wrote).2
    · exact held.off
  · change (clock baseAddr x.1 i).timer = _
    rw [next]
    exact (held.edge some small).trans held.timer

theorem Held.quiet (held : Held x clocks) (some : 0 < clocks) (small : clocks ≤ 2 ^ 32) : tmrIrq x.1 = false := by
  rw [tmrIrq, held.timer, counter_msb small]
  exact decide_eq_false (Nat.ne_of_gt some)

theorem old_small : c.old + 1 ≤ 2 ^ 32 := BitVec.isLt (c.before.2.valueh ++ c.before.2.valuel)

theorem value_small : c.value + 1 ≤ 2 ^ 32 := BitVec.isLt ((c.state 0).2.valueh ++ (c.state 0).2.valuel)

theorem held_enable : Held (c.state 0) (c.old + 1) :=
  c.disabled.invariant (fun x => Held x (c.old + 1)) (held_cleared c)
    fun held clear => held.next (Nat.succ_pos _) (old_small c) clear.1 clear.2

theorem silent : Along (watched baseAddr) (fun x _ => tmrIrq x.1 = false) c.cleared c.setup :=
  c.disabled.derive (fun x => Held x (c.old + 1)) (held_cleared c)
    (fun held clear => held.next (Nat.succ_pos _) (old_small c) clear.1 clear.2)
    fun held _ => held.quiet (Nat.succ_pos _) (old_small c)

/-- Enabled, with the value it is loaded with and the clocks that are left. -/
structure Enabled (x : Registers × Written) (value clocks : ℕ) : Prop where
  follows : Follows x.1 x.2
  on : x.1.cntrl.tmrCntrlReg.getLsbD 1 = true
  none : ∀ r, x.2.wrote r = false
  loads : x.1.cntrl.value = counter (value + 1)
  irqcnt : x.1.timer.irqcnt = counter clocks

theorem none_next (high : i.nrst = true) (none : ∀ r, addressed baseAddr i r = true → i.extWrActive = false) (r : Reg) :
    (w.next baseAddr i).wrote r = false := by
  rw [Written.next, if_pos high]
  cases here : addressed baseAddr i r with
  | false => exact congrArg (· && i.extWrActive) here
  | true =>
    change (addressed baseAddr i r && i.extWrActive) = false
    rw [none r here, Bool.and_false]

theorem enabled_first : Enabled (c.state 1) c.value (c.old + 1) ∧ (c.state 1).1.timer.tmrIrqCnt = 0 := by
  obtain ⟨wrote, clear, set⟩ := c.enables
  obtain ⟨high, none⟩ := c.running 0
  have held := held_enable c
  have next : clock baseAddr (c.state 0).1 (c.later 0) = _ := held.follows.plain_next high fun _ => clear
  have apart {r : Reg} (other : Reg.cntrl ≠ r) : (c.state 0).2.wrote r = false :=
    Bool.eq_false_iff.mpr fun two => other (held.follows.single wrote two)
  rw [held.edge (Nat.succ_pos _) (old_small c), show (c.state 0).2.wrote .cntrl = true from wrote,
    apart (show Reg.cntrl ≠ .valuel by decide), apart (show Reg.cntrl ≠ .valueh by decide)] at next
  have follows := held.follows.next baseAddr (c.later 0)
  refine ⟨⟨follows, ?_, none_next high none, ?_, ?_⟩, ?_⟩
  · change (clock baseAddr (c.state 0).1 (c.later 0)).cntrl.tmrCntrlReg.getLsbD 1 = true
    rw [next]
    exact set
  · change (clock baseAddr (c.state 0).1 (c.later 0)).cntrl.value = _
    rw [next]
    change (c.state 0).1.cntrl.value = _
    exact value_written held.follows
  · change (clock baseAddr (c.state 0).1 (c.later 0)).timer.irqcnt = _
    rw [next, held.timer]
  · change (clock baseAddr (c.state 0).1 (c.later 0)).timer.tmrIrqCnt = _
    rw [next, held.timer]

theorem Enabled.next (enabled : Enabled x value clocks) (small : clocks ≤ 2 ^ 32) (high : i.nrst = true)
    (none : ∀ r, addressed baseAddr i r = true → i.extWrActive = false) :
    Enabled (watched baseAddr x i) value (if clocks = 0 then value + 1 else clocks - 1) ∧
      (watched baseAddr x i).1.timer.tmrIrqCnt = x.1.timer.tmrIrqCnt + if clocks = 0 then 1 else 0 := by
  have next : clock baseAddr x.1 i = _ := enabled.follows.plain_next high
    fun wrote => absurd ((enabled.none .cntrl).symm.trans wrote) Bool.false_ne_true
  rw [enabled.none, enabled.none, enabled.none, Timer.edge, enabled.irqcnt, counter_msb small, enabled.on] at next
  have kept := enabled.follows.next baseAddr i
  have same : (watched baseAddr x i).1.cntrl = x.1.cntrl := by
    change (clock baseAddr x.1 i).cntrl = _
    rw [next]
    rfl
  by_cases ended : clocks = 0
  · rw [if_pos ended, if_pos ended]
    rw [decide_eq_true ended, if_pos rfl] at next
    refine ⟨⟨kept, same ▸ enabled.on, none_next high none, same ▸ enabled.loads, ?_⟩, ?_⟩
    · change (clock baseAddr x.1 i).timer.irqcnt = _
      rw [next]
      exact enabled.loads
    · change (clock baseAddr x.1 i).timer.tmrIrqCnt = _
      rw [next]
  · rw [if_neg ended, if_neg ended]
    rw [decide_eq_false ended, if_neg Bool.false_ne_true, if_pos rfl] at next
    refine ⟨⟨kept, same ▸ enabled.on, none_next high none, same ▸ enabled.loads, ?_⟩, ?_⟩
    · change (clock baseAddr x.1 i).timer.irqcnt = _
      rw [next]
      exact counter_pred (Nat.pos_of_ne_zero ended)
    · change (clock baseAddr x.1 i).timer.tmrIrqCnt = _
      rw [next]
      exact (BitVec.add_zero _).symm

theorem left_small (n : ℕ) : Countdown.left (c.old + 1) (c.value + 1) n ≤ 2 ^ 32 :=
  Nat.le_trans (Countdown.left_le n) (Nat.max_le.mpr ⟨old_small c, value_small c⟩)

theorem enabled_state (n : ℕ) : Enabled (c.state (n + 1)) c.value (Countdown.left (c.old + 1) (c.value + 1) n) := by
  induction n with
  | zero => exact (enabled_first c).1
  | succ n ih => exact (ih.next (left_small c n) (c.running _).1 (c.running _).2).1

theorem irq_left (n : ℕ) : c.irq (n + 1) = decide (Countdown.left (c.old + 1) (c.value + 1) n = 0) := by
  rw [Session.irq, tmrIrq, (enabled_state c n).irqcnt, counter_msb (left_small c n)]

theorem irq_zero : c.irq 0 = false := (held_enable c).quiet (Nat.succ_pos _) (old_small c)

theorem irq_iff (n : ℕ) : c.irq n = true ↔ ∃ m, n = c.old + 2 + m * (c.value + 2) := by
  cases n with
  | zero =>
    rw [irq_zero]
    constructor
    · exact fun never => absurd never Bool.false_ne_true
    · rintro ⟨m, turns⟩
      omega
  | succ n =>
    rw [irq_left, decide_eq_true_iff, Countdown.left_zero_iff]
    constructor
    · rintro ⟨m, turns⟩
      exact ⟨m, by rw [turns, Nat.add_right_comm]⟩
    · rintro ⟨m, turns⟩
      exact ⟨m, show n = c.old + 1 + m * (c.value + 2) by omega⟩

theorem counted (n : ℕ) : (c.state n).1.timer.tmrIrqCnt = BitVec.ofNat 16 ((List.range n).countP c.irq) := by
  induction n with
  | zero =>
    rw [(held_enable c).timer]
    rfl
  | succ n ih =>
    rw [List.range_succ, List.countP_append, List.countP_singleton, BitVec.ofNat_add, ← ih]
    cases n with
    | zero =>
      rw [irq_zero, (enabled_first c).2, (held_enable c).timer]
      rfl
    | succ n =>
      have step := ((enabled_state c n).next (left_small c n) (c.running (n + 1)).1 (c.running (n + 1)).2).2
      rw [irq_left]
      change (watched baseAddr (c.state (n + 1)) (c.later (n + 1))).1.timer.tmrIrqCnt = _
      rw [step]
      congr 1
      by_cases ended : Countdown.left (c.old + 1) (c.value + 1) n = 0
      · rw [if_pos ended, decide_eq_true ended, if_pos rfl]
        rfl
      · rw [if_neg ended, decide_eq_false ended, if_neg Bool.false_ne_true]
        rfl

/-- The timer is regular exactly if the value registers held the new value already when it was
reset. -/
theorem regular_iff (c : Session baseAddr) : c.Regular ↔ c.old = c.value := by
  constructor
  · intro regular
    have first := (regular.periodic (c.old + 2)).mp ((irq_iff c _).mpr ⟨0, by rw [Nat.zero_mul, Nat.add_zero]⟩)
    have due := (irq_iff c (c.value + 2)).mp ((regular.periodic _).mpr ⟨0, by rw [Nat.zero_add, Nat.one_mul]; rfl⟩)
    obtain ⟨m, first⟩ := first
    obtain ⟨k, due⟩ := due
    rw [Session.offset, Nat.succ_mul] at first
    omega
  · intro same
    refine ⟨silent c, fun n => ?_, counted c⟩
    rw [irq_iff, same]
    apply exists_congr
    intro m
    rw [Session.offset, Nat.succ_mul, Nat.add_comm]

def idle : Inputs := ⟨0, 0, false, false, false, true⟩

def write (offset data : BitVec 16) : List Inputs :=
  [{ idle with adr := 0x330 + offset, data := data, extAdrVal := true, extWrActive := true },
    { idle with data := data }]

def setup : List Inputs :=
  write 2 0xFFFF ++ write 3 0x005F ++ [{ idle with adr := 0x330, extAdrVal := true, extWrActive := true }]

def later (n : ℕ) : Inputs := if n = 0 then { idle with data := 0x2 } else idle

theorem later_running (n : ℕ) : (later n).nrst = true ∧ ∀ r, addressed 0x330 (later n) r = true →
    (later n).extWrActive = false := by
  rw [later]
  split_ifs
  · exact ⟨rfl, fun _ _ => rfl⟩
  · exact ⟨rfl, fun _ _ => rfl⟩

def fresh : Session 0x330 where
  past := [{ idle with adr := 0x330, extAdrVal := true, extWrActive := true }]
  reset := { idle with data := 0x1 }
  setup := setup
  later := later
  resets := by decide
  disabled := by decide +kernel
  enables := by decide +kernel
  running := later_running

def again : Session 0x330 where
  past := write 2 0xFFFF ++ write 3 0x005F ++ [{ idle with adr := 0x330, extAdrVal := true, extWrActive := true }]
  reset := { idle with data := 0x1 }
  setup := setup
  later := later
  resets := by decide +kernel
  disabled := by decide +kernel
  enables := by decide +kernel
  running := later_running

/-- The first interrupt comes after two clocks, and not after a period of 0x005FFFFF. -/
theorem fresh_early : ¬ fresh.Regular := by
  intro regular
  have soon : fresh.irq 2 = true := by decide +kernel
  have value : fresh.value = 0x005FFFFF := by decide +kernel
  obtain ⟨m, turns⟩ := (regular.periodic 2).mp soon
  rw [value, Session.offset] at turns
  omega

example : again.old = again.value := by decide +kernel

end BelProject.Tmr.Period
