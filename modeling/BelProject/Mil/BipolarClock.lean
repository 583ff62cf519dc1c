import BelProject.Mil.Bipolar

/-! What `Mil_bipol_dec` is to make of a message, and what one clock of its state machine does with
the words of the two decoders. -/

namespace BelProject.Mil.BipolarMessage
open Bipolar Library.Runs

structure Delivery where
  time : Nat
  word : BitVec 16
  cmd : Bool

def delivered (d : Option Delivery) (now : Nat) : Option (BitVec 16 × Bool) :=
  d.bind fun d => if d.time = now then some (d.word, d.cmd) else none

/-- The clocks since the begin, and how often `Rcv_Rdy` was raised. -/
structure World where
  regs : Registers
  now : Nat
  rises : Nat

def step (hz : Nat) (w : World) (i : Inputs) : World where
  regs := clock hz w.regs i
  now := w.now + 1
  rises := w.rises + if !w.regs.eval.rcvRdy && (clock hz w.regs i).eval.rcvRdy then 1 else 0

/-- The last message is over, and has been read. -/
structure Ready (r : Registers) : Prop where
  sm : r.eval.sm = .idle
  rcvRdy : r.eval.rcvRdy = false
  cmdNotEqual : r.eval.cmdNotEqual = false
  dataNotEqual : r.eval.dataNotEqual = false
  cmdNotEqPulse : r.eval.cmdNotEqPulse = false
  dataNotEqPulse : r.eval.dataNotEqPulse = false
  port : ∀ lane, (r.dec.lane lane).rcvRdy = false ∧ (r.dec.lane lane).rcvRdyDelayed = false

/-- A clock of a message: the decoders deliver what is planned and find no error behind it, a word
is read while `Rcv_Rdy` is up, and the counters of the differences are left alone. -/
structure Undisturbed (plan : Pair (Option Delivery)) (w : World) (i : Inputs) : Prop where
  noRes : i.res = false
  kept : (i.clrNotEqualCnt || i.powerUp) = false
  read : i.rdMil = true → w.regs.eval.rcvRdy = true
  sound : ∀ lane, err (w.regs.dec.lane lane) = true → (w.regs.dec.lane lane).rcvRdy = false ∧
    word (w.regs.dec.lane lane) = none
  planned : ∀ lane, word (w.regs.dec.lane lane) = delivered (plan.lane lane) w.now

def InJitter (hz : Nat) (a b : Delivery) : Prop := a.time ≤ b.time + maxJitterCnt hz ∧ b.time ≤ a.time + maxJitterCnt hz

/-- The words are the same or there is one only: `Rcv_Rdy` comes up once. They differ: it does not,
and the counter of each difference goes up by one. -/
structure AsClaimed (hz : Nat) (plan : Pair (Option Delivery)) (before after : World) : Prop where
  agree : ∀ a b, plan.p = some a → plan.n = some b → InJitter hz a b → a.word = b.word → a.cmd = b.cmd →
    after.rises = before.rises + 1
  single : ∀ lane a, plan.lane lane = some a → plan.lane lane.other = none → after.rises = before.rises + 1
  differ : ∀ a b, plan.p = some a → plan.n = some b → InJitter hz a b → a.word ≠ b.word ∨ a.cmd ≠ b.cmd →
    after.rises = before.rises ∧
      (a.word ≠ b.word → after.regs.eval.dataNotEqualCnt = before.regs.eval.dataNotEqualCnt + 1) ∧
      (a.cmd ≠ b.cmd → after.regs.eval.cmdNotEqualCnt = before.regs.eval.cmdNotEqualCnt + 1)

variable {hz now : Nat} {plan : Pair (Option Delivery)} {w : World} {i : Inputs} {lane l : Lane}
  {e : Eval} {ports : Pair Port}
  {d : Option Delivery} {q : Port}

/-! ### The two lanes alike -/

theorem smNext_idle (l : Lane) (sm : e.sm = .idle) (free : e.rcvRdy = false) :
    smNext e ports =
      match (ports.lane l).rcv, (ports.lane l.other).rcv with
      | true, true => .together
      | true, false => .first l
      | false, true => .first l.other
      | false, false => .idle := by
  rw [smNext, sm]
  dsimp only
  rw [free, if_neg Bool.false_ne_true]
  cases l with
  | p => rfl
  | n =>
    change (match ports.p.rcv, ports.n.rcv with
      | true, true => EvalRcv.together | true, false => .first .p | false, true => .first .n | false, false => .idle) =
      match ports.n.rcv, ports.p.rcv with
      | true, true => .together | true, false => .first .n | false, true => .first .p | false, false => .idle
    cases ports.p.rcv <;> cases ports.n.rcv <;> rfl

theorem smNext_wait (l : Lane) (sm : e.sm = .waitRdMil) :
    smNext e ports = if (ports.lane l).rcv = false ∧ (ports.lane l.other).rcv = false then .idle else .waitRdMil := by
  rw [smNext, sm]
  change (if !ports.p.rcv && !ports.n.rcv then EvalRcv.idle else .waitRdMil) = _
  cases l with
  | p =>
    change _ = if ports.p.rcv = false ∧ ports.n.rcv = false then _ else _
    cases ports.p.rcv <;> cases ports.n.rcv <;> rfl
  | n =>
    change _ = if ports.n.rcv = false ∧ ports.p.rcv = false then _ else _
    cases ports.p.rcv <;> cases ports.n.rcv <;> rfl

theorem cmdNotEqual_together (l : Lane) (sm : e.sm = .together) (none : e.cmdNotEqual = false) :
    cmdNotEqualNext e ports = decide ((ports.lane l).cmd ≠ (ports.lane l.other).cmd) := by
  rw [cmdNotEqualNext, sm]
  dsimp only
  rw [none]
  cases l with
  | p =>
    change _ = decide (ports.p.cmd ≠ ports.n.cmd)
    cases ports.p.cmd <;> cases ports.n.cmd <;> rfl
  | n =>
    change _ = decide (ports.n.cmd ≠ ports.p.cmd)
    cases ports.p.cmd <;> cases ports.n.cmd <;> rfl

theorem dataNotEqual_together (l : Lane) (sm : e.sm = .together) (none : e.dataNotEqual = false) :
    dataNotEqualNext e ports = decide ((ports.lane l).data ≠ (ports.lane l.other).data) := by
  rw [dataNotEqualNext, sm]
  dsimp only
  rw [none]
  cases l with
  | p =>
    change (if ports.p.data = ports.n.data then false else true) = decide (ports.p.data ≠ ports.n.data)
    by_cases same : ports.p.data = ports.n.data <;> simp [same]
  | n =>
    change (if ports.p.data = ports.n.data then false else true) = decide (ports.n.data ≠ ports.p.data)
    by_cases same : ports.p.data = ports.n.data
    · simp [same]
    · simp [same, Ne.symm same]

/-! ### A decoder -/

/-- A decoder that was not read yet. -/
structure Held (d : Option Delivery) (now : Nat) (q : Port) : Prop where
  rcvRdy : q.rcvRdy = true ↔ ∃ x ∈ d, x.time < now
  rcv : q.rcv = true ↔ ∃ x ∈ d, x.time + 1 < now
  word : ∀ x ∈ d, x.time < now → q.data = x.word ∧ q.cmd = x.cmd

theorem delivered_now {x : Delivery} (here : x.time = now) :
    delivered (some x) now = some (x.word, x.cmd) := if_pos here

theorem delivered_other {x : Delivery} (other : x.time ≠ now) : delivered (some x) now = none := if_neg other

theorem Held.clock {err : Bool} (held : Held d now q) (sound : err = true → q.rcvRdy = false ∧ delivered d now = none) :
    Held d (now + 1) (q.clock false err (delivered d now)) := by
  have ready : (q.clock false err (delivered d now)).rcvRdy = (q.rcvRdy || (delivered d now).isSome) := by
    change (if false || err then false else q.rcvRdy || (delivered d now).isSome) = _
    cases wrong : err with
    | false => rfl
    | true =>
      obtain ⟨none, nothing⟩ := sound wrong
      rw [none, nothing]
      rfl
  cases d with
  | none =>
    have none : q.rcvRdy = false := by
      rw [← Bool.not_eq_true, held.rcvRdy]
      rintro ⟨x, there, _⟩
      cases there
    constructor
    · rw [ready, none]
      constructor
      · intro impossible
        cases impossible
      · rintro ⟨x, there, _⟩
        cases there
    · change q.rcvRdy = true ↔ _
      rw [none]
      constructor
      · intro impossible
        cases impossible
      · rintro ⟨x, there, _⟩
        cases there
    · intro x there
      cases there
  | some x =>
    have before : q.rcvRdy = true ↔ x.time < now := by
      rw [held.rcvRdy]
      simp
    constructor
    · rw [ready, Bool.or_eq_true, before]
      by_cases here : x.time = now
      · rw [delivered_now here]
        simp [here]
      · rw [delivered_other here]
        simp
        omega
    · change q.rcvRdy = true ↔ _
      rw [before]
      simp
    · intro y there early
      cases there
      by_cases here : x.time = now
      · have fine : err = false := by
          by_contra wrong
          have nothing := (sound (Bool.eq_true_of_not_eq_false wrong)).2
          rw [delivered_now here] at nothing
          cases nothing
        rw [delivered_now here, fine]
        exact ⟨rfl, rfl⟩
      · obtain ⟨data, cmd⟩ := held.word x rfl (by omega)
        have fine : err = false := by
          by_contra wrong
          have none := (sound (Bool.eq_true_of_not_eq_false wrong)).1
          exact absurd (before.mpr (by omega)) (ne_true_of_eq_false none)
        rw [delivered_other here, fine]
        exact ⟨data, cmd⟩

/-- A decoder from which nothing comes any more. -/
structure Fading (q : Port) : Prop where
  rcv : q.rcvRdy = true → q.rcv = true

/-- A decoder that was read, or never had a word. -/
structure Gone (q : Port) : Prop where
  rcvRdy : q.rcvRdy = false
  rcv : q.rcv = false

theorem Gone.clock {rd err : Bool} (gone : Gone q) : Gone (q.clock rd err none) where
  rcvRdy := by
    change (if rd || err then false else q.rcvRdy || false) = false
    rw [gone.rcvRdy]
    split_ifs <;> rfl
  rcv := gone.rcvRdy

theorem Fading.clock {rd err : Bool} : Fading (q.clock rd err none) where
  rcv := by
    change (if rd || err then false else q.rcvRdy || false) = true → q.rcvRdy = true
    rw [Bool.or_false]
    split_ifs
    · intro impossible
      cases impossible
    · exact id

theorem Fading.gone {rd err : Bool} (fading : Fading q) (low : q.rcv = false) : Gone (q.clock rd err none) := by
  have none : q.rcvRdy = false := by
    by_contra up
    exact absurd (low.symm.trans (fading.rcv (Bool.eq_true_of_not_eq_false up))) Bool.noConfusion
  exact ⟨(Gone.mk none low).clock.rcvRdy, none⟩

/-! ### One clock -/

def portsOf (r : Registers) : Pair Port := ⟨port r.dec.p, port r.dec.n⟩

theorem portsOf_lane (r : Registers) (lane : Lane) : (portsOf r).lane lane = port (r.dec.lane lane) := by
  cases lane <;> rfl

theorem step_eval (undisturbed : Undisturbed plan w i) :
    (step hz w i).regs.eval = w.regs.eval.clock hz (portsOf w.regs) i :=
  if_neg (ne_true_of_eq_false undisturbed.noRes)

theorem step_port (undisturbed : Undisturbed plan w i) (lane : Lane) :
    (portsOf (step hz w i).regs).lane lane =
      ((portsOf w.regs).lane lane).clock (rdMil w.regs.eval i) (err (w.regs.dec.lane lane))
      (delivered (plan.lane lane) w.now) := by
  rw [← undisturbed.planned, portsOf_lane, portsOf_lane]
  cases lane with
  | p =>
    change port (Decoder.clock hz true w.regs.dec.p ⟨i.manchesterIn.n, rdMil w.regs.eval i, i.res⟩) = _
    rw [undisturbed.noRes]
    exact port_clock hz true w.regs.dec.p _ _
  | n =>
    change port (Decoder.clock hz false w.regs.dec.n ⟨i.manchesterIn.p, rdMil w.regs.eval i, i.res⟩) = _
    rw [undisturbed.noRes]
    exact port_clock hz false w.regs.dec.n _ _

/-- Nothing is shown, and no difference is. -/
structure Quiet (e : Eval) : Prop where
  rcvRdy : e.rcvRdy = false
  cmdNotEqual : e.cmdNotEqual = false
  dataNotEqual : e.dataNotEqual = false
  cmdNotEqPulse : e.cmdNotEqPulse = false
  dataNotEqPulse : e.dataNotEqPulse = false

theorem Undisturbed.unread (undisturbed : Undisturbed plan w i) (low : w.regs.eval.rcvRdy = false) :
    i.rdMil = false := by
  by_contra read
  exact absurd (low.symm.trans (undisturbed.read (Bool.eq_true_of_not_eq_false read))) Bool.noConfusion

theorem Quiet.rdMil (quiet : Quiet w.regs.eval) (undisturbed : Undisturbed plan w i) : rdMil w.regs.eval i = false := by
  rw [Bipolar.rdMil, undisturbed.unread quiet.rcvRdy, quiet.dataNotEqual, quiet.cmdNotEqual]
  rfl

/-- The decoders as they are without a read. -/
def Holds (plan : Pair (Option Delivery)) (w : World) :
    Prop := ∀ lane, Held (plan.lane lane) w.now ((portsOf w.regs).lane lane)

theorem Holds.step (hz : Nat) (holds : Holds plan w) (undisturbed : Undisturbed plan w i)
    (unread : Bipolar.rdMil w.regs.eval i = false) :
    Holds plan (step hz w i) := by
  intro lane
  rw [step_port undisturbed lane, unread]
  apply (holds lane).clock
  intro wrong
  obtain ⟨low, none⟩ := undisturbed.sound lane wrong
  rw [portsOf_lane]
  exact ⟨low, (undisturbed.planned lane).symm.trans none⟩

theorem rcvRdy_kept (away : (e.sm == .fin && !e.cmdNotEqual && !e.dataNotEqual) = false) {rd : Bool} :
    rcvRdyNext e rd = if rd then false else e.rcvRdy := if_neg (ne_true_of_eq_false away)

theorem rcvRdy_low (undisturbed : Undisturbed plan w i)
    (away : (w.regs.eval.sm == .fin && !w.regs.eval.cmdNotEqual && !w.regs.eval.dataNotEqual) = false)
    (low : w.regs.eval.rcvRdy = false) :
    (step hz w i).regs.eval.rcvRdy = false := by
  rw [step_eval undisturbed]
  change rcvRdyNext w.regs.eval i.rdMil = false
  rw [rcvRdy_kept away, low, ite_self]

theorem pulses_low (hz : Nat) (undisturbed : Undisturbed plan w i) (away : (w.regs.eval.sm == .fin) = false) :
    (step hz w i).regs.eval.cmdNotEqPulse = false ∧ (step hz w i).regs.eval.dataNotEqPulse = false := by
  rw [step_eval undisturbed]
  change (w.regs.eval.sm == .fin && _) = false ∧ (w.regs.eval.sm == .fin && _) = false
  rw [away, Bool.false_and, Bool.false_and]
  exact ⟨rfl, rfl⟩

/-- What was counted so far. -/
structure Counted (n d c : Nat) (w : World) : Prop where
  rises : w.rises = n
  data : w.regs.eval.dataNotEqualCnt = d
  cmd : w.regs.eval.cmdNotEqualCnt = c

theorem rises_kept (undisturbed : Undisturbed plan w i)
    (away : (w.regs.eval.sm == .fin && !w.regs.eval.cmdNotEqual && !w.regs.eval.dataNotEqual) = false) :
    (step hz w i).rises = w.rises := by
  change w.rises + (if !w.regs.eval.rcvRdy && (step hz w i).regs.eval.rcvRdy then 1 else 0) = w.rises
  rw [step_eval undisturbed]
  change w.rises + (if !w.regs.eval.rcvRdy && rcvRdyNext w.regs.eval i.rdMil then 1 else 0) = w.rises
  rw [rcvRdy_kept away]
  cases w.regs.eval.rcvRdy <;> cases i.rdMil <;> rfl

theorem Counted.step (hz : Nat) {n d c : Nat} (counted : Counted n d c w) (undisturbed : Undisturbed plan w i)
    (away : (w.regs.eval.sm == .fin && !w.regs.eval.cmdNotEqual && !w.regs.eval.dataNotEqual) = false) :
    Counted n (count false w.regs.eval.dataNotEqPulse d) (count false w.regs.eval.cmdNotEqPulse c) (step hz w i) where
  rises := (rises_kept undisturbed away).trans counted.rises
  data := by
    rw [step_eval undisturbed, ← counted.data, ← undisturbed.kept]
    rfl
  cmd := by
    rw [step_eval undisturbed, ← counted.cmd, ← undisturbed.kept]
    rfl

theorem count_idle (cnt : Nat) : count false false cnt = cnt := by
  rw [count, Bool.and_false]
  rfl

theorem Counted.quiet (hz : Nat) {n d c : Nat} (counted : Counted n d c w) (quiet : Quiet w.regs.eval)
    (undisturbed : Undisturbed plan w i)
    (away : w.regs.eval.sm ≠ .fin) : Counted n d c (BipolarMessage.step hz w i) := by
  have next := counted.step hz undisturbed (by rw [beq_eq_false_iff_ne.mpr away, Bool.false_and, Bool.false_and])
  rw [quiet.dataNotEqPulse, quiet.cmdNotEqPulse, count_idle, count_idle] at next
  exact next

theorem Quiet.step (hz : Nat) (quiet : Quiet w.regs.eval) (undisturbed : Undisturbed plan w i)
    (first : w.regs.eval.sm ≠ .together)
    (last : w.regs.eval.sm ≠ .fin) : Quiet (BipolarMessage.step hz w i).regs.eval := by
  have away : (w.regs.eval.sm == .fin) = false := beq_eq_false_iff_ne.mpr last
  obtain ⟨cmdPulse, dataPulse⟩ := pulses_low hz undisturbed away
  refine ⟨rcvRdy_low undisturbed (by rw [away]; rfl) quiet.rcvRdy, ?_, ?_, cmdPulse, dataPulse⟩
  · rw [step_eval undisturbed]
    change cmdNotEqualNext w.regs.eval _ = false
    rw [cmdNotEqualNext]
    split
    · rfl
    · exact absurd ‹_› first
    · exact quiet.cmdNotEqual
  · rw [step_eval undisturbed]
    change dataNotEqualNext w.regs.eval _ = false
    rw [dataNotEqualNext]
    split
    · rfl
    · exact absurd ‹_› first
    · exact quiet.dataNotEqual

end BelProject.Mil.BipolarMessage
