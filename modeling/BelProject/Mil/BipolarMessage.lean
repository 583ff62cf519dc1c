import BelProject.Mil.BipolarClock

/-! What `Mil_bipol_dec` makes of a message: the words that the two decoders deliver, each at most
once and each at its time. With a difference the state machine is back in idle while the ready flags
of the decoders are still to be seen, and evaluates the message again, without the command flags. -/

namespace BelProject.Mil.BipolarMessage
open Bipolar Library.Runs

variable {hz now : Nat} {plan : Pair (Option Delivery)} {w : World} {i : Inputs} {lane l : Lane}
  {e : Eval} {ports : Pair Port}
  {d : Option Delivery} {q : Port}

/-! ### The phases of a message -/

/-- One lane delivers, and the other one nothing or within the jitter behind it. -/
structure Leads (hz : Nat) (plan : Pair (Option Delivery)) (l : Lane) (a : Delivery) (b : Option Delivery) : Prop where
  first : plan.lane l = some a
  second : plan.lane l.other = b
  later : ∀ y ∈ b, a.time ≤ y.time ∧ y.time ≤ a.time + maxJitterCnt hz

def Past (plan : Pair (Option Delivery)) (now : Nat) : Prop := ∀ lane, ∀ x ∈ plan.lane lane, x.time < now

/-- The second look at a difference: the decoders were read. -/
structure Stale (a y : Delivery) (l : Lane) (ports : Pair Port) : Prop where
  low : ∀ lane, (ports.lane lane).rcvRdy = false ∧ (ports.lane lane).cmd = false
  first : (ports.lane l).data = a.word
  second : (ports.lane l.other).data = y.word

inductive Phase (hz : Nat) (plan : Pair (Option Delivery)) (l : Lane) (a : Delivery)
    (b : Option Delivery) (n d c : Nat) (w : World) : Prop
  | before (quiet : Quiet w.regs.eval) (sm : w.regs.eval.sm = .idle) (counted : Counted n d c w) (holds : Holds plan w)
      (early : w.now ≤ a.time + 2)
  | waiting (quiet : Quiet w.regs.eval) (sm : w.regs.eval.sm = .first l) (counted : Counted n d c w)
      (holds : Holds plan w)
      (begun : a.time + 3 ≤ w.now) (jitter : w.regs.eval.jitterCnt = a.time + 2 + maxJitterCnt hz - w.now)
      (opened : ∀ y ∈ b, w.now ≤ y.time + 2) (ends : w.now ≤ a.time + maxJitterCnt hz + 3)
  | together (y : Delivery) (both : b = some y) (quiet : Quiet w.regs.eval)
      (sm : w.regs.eval.sm = .together) (counted : Counted n d c w)
      (holds : Holds plan w) (clock : w.now = y.time + 3)
  | fin (quiet : Quiet w.regs.eval) (sm : w.regs.eval.sm = .fin) (counted : Counted n d c w) (past : Past plan w.now)
      (fading : ∀ lane, Fading ((portsOf w.regs).lane lane)) (agreed : ∀ y ∈ b, a.word = y.word ∧ a.cmd = y.cmd)
      (ends : w.now ≤ a.time + maxJitterCnt hz + 4)
  | shown (rises : w.rises = n + 1) (past : Past plan w.now) (fading : ∀ lane, Fading ((portsOf w.regs).lane lane))
      (sm : w.regs.eval.sm = .waitRdMil ∨ w.regs.eval.sm = .idle ∧ ∀ lane, Gone ((portsOf w.regs).lane lane))
      (same : ∀ y ∈ b, a.word = y.word)
  | differ (y : Delivery) (both : b = some y) (different : a.cmd ≠ y.cmd ∨ a.word ≠ y.word) (sm : w.regs.eval.sm = .fin)
      (rcvRdy : w.regs.eval.rcvRdy = false) (cmd : w.regs.eval.cmdNotEqual = decide (a.cmd ≠ y.cmd))
      (data : w.regs.eval.dataNotEqual = decide (a.word ≠ y.word)) (cmdPulse : w.regs.eval.cmdNotEqPulse = false)
      (dataPulse : w.regs.eval.dataNotEqPulse = false) (counted : Counted n d c w)
      (holds : Holds plan w) (clock : w.now = y.time + 4)
  | back (y : Delivery) (both : b = some y) (different : a.cmd ≠ y.cmd ∨ a.word ≠ y.word) (sm : w.regs.eval.sm = .idle)
      (rcvRdy : w.regs.eval.rcvRdy = false) (cmdPulse : w.regs.eval.cmdNotEqPulse = decide (a.cmd ≠ y.cmd))
      (dataPulse : w.regs.eval.dataNotEqPulse = decide (a.word ≠ y.word)) (counted : Counted n d c w)
      (stale : Stale a y l (portsOf w.regs))
      (rcv : ∀ lane, ((portsOf w.regs).lane lane).rcv = true) (clock : w.now = y.time + 5)
  | again (y : Delivery) (both : b = some y) (quiet : Quiet w.regs.eval) (sm : w.regs.eval.sm = .together)
      (counted : Counted n (count false (decide (a.word ≠ y.word)) d) (count false (decide (a.cmd ≠ y.cmd)) c) w)
      (stale : Stale a y l (portsOf w.regs)) (clock : w.now = y.time + 6)
  | finAgain (y : Delivery) (both : b = some y) (sm : w.regs.eval.sm = .fin) (rcvRdy : w.regs.eval.rcvRdy = false)
      (cmd : w.regs.eval.cmdNotEqual = false) (data : w.regs.eval.dataNotEqual = decide (a.word ≠ y.word))
      (cmdPulse : w.regs.eval.cmdNotEqPulse = false) (dataPulse : w.regs.eval.dataNotEqPulse = false)
      (counted : Counted n (count false (decide (a.word ≠ y.word)) d) (count false (decide (a.cmd ≠ y.cmd)) c) w)
      (gone : ∀ lane, Gone ((portsOf w.regs).lane lane)) (clock : w.now = y.time + 7)
  | backAgain (y : Delivery) (both : b = some y) (different : a.word ≠ y.word)
      (sm : w.regs.eval.sm = .idle) (rcvRdy : w.regs.eval.rcvRdy = false)
      (cmdPulse : w.regs.eval.cmdNotEqPulse = false) (dataPulse : w.regs.eval.dataNotEqPulse = true)
      (counted : Counted n (count false true d) (count false (decide (a.cmd ≠ y.cmd)) c) w)
      (gone : ∀ lane, Gone ((portsOf w.regs).lane lane)) (clock : w.now = y.time + 8)
  | ended (y : Delivery) (both : b = some y) (different : a.word ≠ y.word) (quiet : Quiet w.regs.eval)
      (sm : w.regs.eval.sm = .idle)
      (counted : Counted n (count false true (count false true d)) (count false (decide (a.cmd ≠ y.cmd)) c) w)
      (gone : ∀ lane, Gone ((portsOf w.regs).lane lane)) (past : Past plan w.now)

section
variable {a y : Delivery} {b : Option Delivery} {n c : Nat} {k : Nat}

theorem Past.none (past : Past plan now) (lane : Lane) : delivered (plan.lane lane) now = none := by
  cases planned : plan.lane lane with
  | none => rfl
  | some x => exact delivered_other (Nat.ne_of_lt (past lane x planned))

theorem Past.next (past : Past plan now) : Past plan (now + 1) :=
  fun lane x planned => Nat.lt_succ_of_lt (past lane x planned)

theorem Leads.past (leads : Leads hz plan l a b) (first : a.time < now)
    (second : ∀ y ∈ b, y.time < now) : Past plan now := by
  intro lane x planned
  have lanes : lane = l ∨ lane = l.other := by cases lane <;> cases l <;> simp [Lane.other]
  rcases lanes with rfl | rfl
  · rw [leads.first] at planned
    cases planned
    exact first
  · rw [leads.second] at planned
    exact second x planned

theorem Holds.first (holds : Holds plan w) (leads : Leads hz plan l a b) :
    ((portsOf w.regs).lane l).rcv = decide (a.time + 1 < w.now) := by
  have held := holds l
  rw [leads.first] at held
  rw [Bool.eq_iff_iff, held.rcv, decide_eq_true_iff]
  simp

theorem Holds.second (holds : Holds plan w) (leads : Leads hz plan l a b) :
    ((portsOf w.regs).lane l.other).rcv = true ↔ ∃ y ∈ b, y.time + 1 < w.now := by
  have held := holds l.other
  rw [leads.second] at held
  exact held.rcv

theorem step_gone (undisturbed : Undisturbed plan w i) (past : Past plan w.now)
    (gone : ∀ lane, Gone ((portsOf w.regs).lane lane)) (lane : Lane) :
    Gone ((portsOf (step hz w i).regs).lane lane) := by
  rw [step_port undisturbed lane, past.none lane]
  exact (gone lane).clock

theorem step_fading (undisturbed : Undisturbed plan w i) (past : Past plan w.now) (lane : Lane) :
    Fading ((portsOf (step hz w i).regs).lane lane) := by
  rw [step_port undisturbed lane, past.none lane]
  exact Fading.clock

theorem step_sm (hz : Nat) (undisturbed : Undisturbed plan w i) :
    (step hz w i).regs.eval.sm = smNext w.regs.eval (portsOf w.regs) := by
  rw [step_eval undisturbed]
  rfl

theorem before_step (leads : Leads hz plan l a b) (undisturbed : Undisturbed plan w i) (quiet : Quiet w.regs.eval)
    (sm : w.regs.eval.sm = .idle) (counted : Counted n k c w) (holds : Holds plan w) (early : w.now ≤ a.time + 2) :
    Phase hz plan l a b n k c (step hz w i) := by
  have calm := quiet.step hz undisturbed (by rw [sm]; exact EvalRcv.noConfusion) (by rw [sm]; exact EvalRcv.noConfusion)
  have totals := counted.quiet hz quiet undisturbed (by rw [sm]; exact EvalRcv.noConfusion)
  have still := holds.step hz undisturbed (quiet.rdMil undisturbed)
  have moved := (step_sm hz undisturbed).trans (smNext_idle l sm quiet.rcvRdy)
  rw [holds.first leads] at moved
  rcases Nat.lt_or_eq_of_le early with sooner | now_at
  · have silent : ((portsOf w.regs).lane l.other).rcv = false := by
      rw [← Bool.not_eq_true, holds.second leads]
      rintro ⟨y, second, visible⟩
      have := (leads.later y second).1
      omega
    rw [decide_eq_false (by omega), silent] at moved
    exact .before calm moved totals still sooner
  · rw [decide_eq_true (by omega)] at moved
    cases visible : ((portsOf w.regs).lane l.other).rcv with
    | true =>
      obtain ⟨y, second, there⟩ := (holds.second leads).mp visible
      have same := (leads.later y second).1
      rw [visible] at moved
      refine .together y second calm moved totals still ?_
      change w.now + 1 = y.time + 3
      omega
    | false =>
      have behind : ∀ y ∈ b, a.time < y.time := by
        intro y second
        by_contra early
        have there := (holds.second leads).mpr ⟨y, second, by omega⟩
        exact absurd (visible.symm.trans there) Bool.noConfusion
      rw [visible] at moved
      refine .waiting calm moved totals still ?_ ?_ ?_ ?_
      · change a.time + 3 ≤ w.now + 1
        omega
      · rw [step_eval undisturbed]
        change jitterCntNext w.regs.eval hz = a.time + 2 + maxJitterCnt hz - (w.now + 1 : Nat)
        rw [jitterCntNext, sm]
        dsimp only
        omega
      · intro y second
        have := behind y second
        change w.now + 1 ≤ y.time + 2
        omega
      · change w.now + 1 ≤ a.time + maxJitterCnt hz + 3
        omega

theorem waiting_step (leads : Leads hz plan l a b) (undisturbed : Undisturbed plan w i) (quiet : Quiet w.regs.eval)
    (sm : w.regs.eval.sm = .first l) (counted : Counted n k c w) (holds : Holds plan w) (begun : a.time + 3 ≤ w.now)
    (jitter : w.regs.eval.jitterCnt = a.time + 2 + maxJitterCnt hz - w.now) (opened : ∀ y ∈ b, w.now ≤ y.time + 2)
    (ends : w.now ≤ a.time + maxJitterCnt hz + 3) : Phase hz plan l a b n k c (step hz w i) := by
  have calm := quiet.step hz undisturbed (by rw [sm]; exact EvalRcv.noConfusion) (by rw [sm]; exact EvalRcv.noConfusion)
  have totals := counted.quiet hz quiet undisturbed (by rw [sm]; exact EvalRcv.noConfusion)
  have still := holds.step hz undisturbed (quiet.rdMil undisturbed)
  have moved : (step hz w i).regs.eval.sm =
      if w.regs.eval.over then .fin else if ((portsOf w.regs).lane l.other).rcv then .together else .first l := by
    rw [step_sm hz undisturbed, smNext, sm]
  have elapsed : w.regs.eval.over = decide (a.time + maxJitterCnt hz + 3 = w.now) := by
    rw [Eval.over, jitter]
    apply decide_eq_decide.mpr
    omega
  rw [elapsed] at moved
  by_cases late : a.time + maxJitterCnt hz + 3 = w.now
  · rw [decide_eq_true late, if_pos rfl] at moved
    have alone : ∀ y ∈ b, False := by
      intro y second
      have := opened y second
      have := (leads.later y second).2
      omega
    have past : Past plan w.now := leads.past (by omega) fun y second => (alone y second).elim
    refine .fin calm moved totals past.next (step_fading undisturbed past) (fun y second => (alone y second).elim) ?_
    change w.now + 1 ≤ a.time + maxJitterCnt hz + 4
    omega
  · rw [decide_eq_false late, if_neg Bool.false_ne_true] at moved
    cases visible : ((portsOf w.regs).lane l.other).rcv with
    | true =>
      obtain ⟨y, second, there⟩ := (holds.second leads).mp visible
      have := opened y second
      rw [visible] at moved
      refine .together y second calm moved totals still ?_
      change w.now + 1 = y.time + 3
      omega
    | false =>
      rw [visible] at moved
      refine .waiting calm moved totals still ?_ ?_ ?_ ?_
      · change a.time + 3 ≤ w.now + 1
        omega
      · rw [step_eval undisturbed]
        change jitterCntNext w.regs.eval hz = a.time + 2 + maxJitterCnt hz - (w.now + 1 : Nat)
        rw [jitterCntNext, sm]
        dsimp only
        rw [elapsed, decide_eq_false late, if_neg Bool.false_ne_true, jitter]
        omega
      · intro y second
        have before : ¬y.time + 1 < w.now := fun there =>
          absurd (visible.symm.trans ((holds.second leads).mpr ⟨y, second, there⟩)) Bool.noConfusion
        change w.now + 1 ≤ y.time + 2
        omega
      · change w.now + 1 ≤ a.time + maxJitterCnt hz + 3
        omega

theorem together_step (leads : Leads hz plan l a b) (undisturbed : Undisturbed plan w i)
    (both : b = some y) (quiet : Quiet w.regs.eval)
    (sm : w.regs.eval.sm = .together) (counted : Counted n k c w) (holds : Holds plan w) (clock : w.now = y.time + 3) :
    Phase hz plan l a b n k c (step hz w i) := by
  obtain ⟨later, jitter⟩ := leads.later y both
  have first := (holds l).word a leads.first (by omega)
  have second := (holds l.other).word y (leads.second.trans both) (by omega)
  have totals := counted.quiet hz quiet undisturbed (by rw [sm]; exact EvalRcv.noConfusion)
  have still := holds.step hz undisturbed (quiet.rdMil undisturbed)
  have moved : (step hz w i).regs.eval.sm = .fin := by rw [step_sm hz undisturbed, smNext, sm]
  have away : (w.regs.eval.sm == .fin) = false := by rw [sm]; rfl
  have cmd : (step hz w i).regs.eval.cmdNotEqual = decide (a.cmd ≠ y.cmd) := by
    rw [step_eval undisturbed, ← first.2, ← second.2]
    exact cmdNotEqual_together l sm quiet.cmdNotEqual
  have data : (step hz w i).regs.eval.dataNotEqual = decide (a.word ≠ y.word) := by
    rw [step_eval undisturbed, ← first.1, ← second.1]
    exact dataNotEqual_together l sm quiet.dataNotEqual
  have low : (step hz w i).regs.eval.rcvRdy = false := rcvRdy_low undisturbed (by rw [away]; rfl) quiet.rcvRdy
  obtain ⟨cmdPulse, dataPulse⟩ := pulses_low hz undisturbed away
  have past : Past plan w.now := leads.past (by omega) (by rw [both]; rintro x ⟨⟩; omega)
  by_cases different : a.cmd ≠ y.cmd ∨ a.word ≠ y.word
  · refine .differ y both different moved low cmd data cmdPulse dataPulse totals still ?_
    change w.now + 1 = y.time + 4
    omega
  · rw [not_or, not_ne_iff, not_ne_iff] at different
    rw [decide_eq_false (not_ne_iff.mpr different.1)] at cmd
    rw [decide_eq_false (not_ne_iff.mpr different.2)] at data
    refine .fin ⟨low, cmd, data, cmdPulse, dataPulse⟩ moved totals past.next (step_fading undisturbed past) ?_ ?_
    · rw [both]
      rintro x ⟨⟩
      exact ⟨different.2, different.1⟩
    · change w.now + 1 ≤ a.time + maxJitterCnt hz + 4
      omega

theorem idle_stays (undisturbed : Undisturbed plan w i) (sm : w.regs.eval.sm = .idle)
    (gone : ∀ lane, Gone ((portsOf w.regs).lane lane)) :
    (step hz w i).regs.eval.sm = .idle := by
  rw [step_sm hz undisturbed]
  cases ready : w.regs.eval.rcvRdy with
  | true =>
    rw [smNext, sm]
    exact if_pos ready
  | false =>
    have first : (portsOf w.regs).p.rcv = false := (gone .p).rcv
    have second : (portsOf w.regs).n.rcv = false := (gone .n).rcv
    rw [smNext, sm]
    dsimp only
    rw [ready, if_neg Bool.false_ne_true, first, second]

theorem raises (hz : Nat) (undisturbed : Undisturbed plan w i) (sm : w.regs.eval.sm = .fin)
    (low : w.regs.eval.rcvRdy = false)
    (cmd : w.regs.eval.cmdNotEqual = false) (data : w.regs.eval.dataNotEqual = false) :
    (step hz w i).rises = w.rises + 1 ∧ (step hz w i).regs.eval.sm = .waitRdMil := by
  have up : (step hz w i).regs.eval.rcvRdy = true := by
    rw [step_eval undisturbed]
    change rcvRdyNext w.regs.eval i.rdMil = true
    rw [rcvRdyNext, sm, cmd, data]
    rfl
  constructor
  · change w.rises + (if !w.regs.eval.rcvRdy && (step hz w i).regs.eval.rcvRdy then 1 else 0) = w.rises + 1
    rw [up, low]
    rfl
  · rw [step_sm hz undisturbed, smNext, sm]
    dsimp only
    rw [cmd, data]
    rfl

theorem fin_step (undisturbed : Undisturbed plan w i) (quiet : Quiet w.regs.eval)
    (sm : w.regs.eval.sm = .fin) (counted : Counted n k c w)
    (past : Past plan w.now) (agreed : ∀ y ∈ b, a.word = y.word ∧ a.cmd = y.cmd) :
    Phase hz plan l a b n k c (step hz w i) := by
  obtain ⟨up, moved⟩ := raises hz undisturbed sm quiet.rcvRdy quiet.cmdNotEqual quiet.dataNotEqual
  exact .shown (by rw [up, counted.rises]) past.next (step_fading undisturbed past)
    (Or.inl moved) fun y second => (agreed y second).1

theorem shown_step (undisturbed : Undisturbed plan w i) (rises : w.rises = n + 1) (past : Past plan w.now)
    (fading : ∀ lane, Fading ((portsOf w.regs).lane lane))
    (sm : w.regs.eval.sm = .waitRdMil ∨ w.regs.eval.sm = .idle ∧ ∀ lane, Gone ((portsOf w.regs).lane lane))
    (same : ∀ y ∈ b, a.word = y.word) : Phase hz plan l a b n k c (step hz w i) := by
  have away : (w.regs.eval.sm == .fin) = false := by
    rcases sm with sm | ⟨sm, _⟩
    · rw [sm]; rfl
    · rw [sm]; rfl
  refine .shown ((rises_kept undisturbed (by rw [away]; rfl)).trans rises) past.next
    (step_fading undisturbed past) ?_ same
  rcases sm with sm | ⟨sm, gone⟩
  · rw [step_sm hz undisturbed, smNext_wait .p sm]
    split_ifs with low
    · right
      refine ⟨rfl, ?_⟩
      intro lane
      rw [step_port undisturbed lane, past.none lane]
      apply (fading lane).gone
      cases lane with
      | p => exact low.1
      | n => exact low.2
    · exact Or.inl rfl
  · exact Or.inr ⟨idle_stays undisturbed sm gone, step_gone undisturbed past gone⟩

theorem idle_quiet (undisturbed : Undisturbed plan w i) (sm : w.regs.eval.sm = .idle)
    (rcvRdy : w.regs.eval.rcvRdy = false) :
    Quiet (step hz w i).regs.eval := by
  have away : (w.regs.eval.sm == .fin) = false := by rw [sm]; rfl
  obtain ⟨cmdPulse, dataPulse⟩ := pulses_low hz undisturbed away
  refine ⟨rcvRdy_low undisturbed (by rw [away]; rfl) rcvRdy, ?_, ?_, cmdPulse, dataPulse⟩
  · rw [step_eval undisturbed]
    change cmdNotEqualNext w.regs.eval _ = false
    rw [cmdNotEqualNext, sm]
  · rw [step_eval undisturbed]
    change dataNotEqualNext w.regs.eval _ = false
    rw [dataNotEqualNext, sm]

section
variable (leads : Leads hz plan l a b)
include leads

section
variable (undisturbed : Undisturbed plan w i)
include undisturbed

theorem differ_step (both : b = some y)
    (different : a.cmd ≠ y.cmd ∨ a.word ≠ y.word) (sm : w.regs.eval.sm = .fin) (rcvRdy : w.regs.eval.rcvRdy = false)
    (cmd : w.regs.eval.cmdNotEqual = decide (a.cmd ≠ y.cmd))
    (data : w.regs.eval.dataNotEqual = decide (a.word ≠ y.word))
    (cmdPulse : w.regs.eval.cmdNotEqPulse = false) (dataPulse : w.regs.eval.dataNotEqPulse = false)
    (counted : Counted n k c w)
    (holds : Holds plan w) (clock : w.now = y.time + 4) : Phase hz plan l a b n k c (step hz w i) := by
  obtain ⟨later, jitter⟩ := leads.later y both
  have past : Past plan w.now := leads.past (by omega) (by rw [both]; rintro x ⟨⟩; omega)
  have one : (!w.regs.eval.cmdNotEqual && !w.regs.eval.dataNotEqual) = false := by
    rw [cmd, data]
    rcases different with other | other
    · rw [decide_eq_true other]; rfl
    · rw [decide_eq_true other, Bool.not_true, Bool.and_false]
  have away : (w.regs.eval.sm == .fin && !w.regs.eval.cmdNotEqual && !w.regs.eval.dataNotEqual) = false := by
    rw [Bool.and_assoc, one, Bool.and_false]
  have read : rdMil w.regs.eval i = true := by
    rw [rdMil, cmd, data]
    rcases different with other | other
    · rw [decide_eq_true other, Bool.or_true]
    · rw [decide_eq_true other, Bool.or_true, Bool.true_or]
  have totals := counted.step hz undisturbed away
  rw [cmdPulse, dataPulse, count_idle, count_idle] at totals
  have first := (holds l).word a leads.first (by omega)
  have second := (holds l.other).word y (leads.second.trans both) (by omega)
  have cleared : ∀ lane, (portsOf (step hz w i).regs).lane lane =
    ⟨false, ((portsOf w.regs).lane lane).rcvRdy, false, ((portsOf w.regs).lane lane).data⟩ := by
    intro lane
    rw [step_port undisturbed lane, past.none lane, read]
    rfl
  refine .back y both different ?_ (rcvRdy_low undisturbed away rcvRdy) ?_ ?_ totals ⟨?_, ?_, ?_⟩ ?_ ?_
  · rw [step_sm hz undisturbed, smNext, sm]
    dsimp only
    rw [one]
    rfl
  · rw [step_eval undisturbed, ← cmd]
    change (w.regs.eval.sm == .fin && w.regs.eval.cmdNotEqual) = _
    rw [sm]
    rfl
  · rw [step_eval undisturbed, ← data]
    change (w.regs.eval.sm == .fin && w.regs.eval.dataNotEqual) = _
    rw [sm]
    rfl
  · intro lane
    rw [cleared lane]
    exact ⟨rfl, rfl⟩
  · rw [cleared l]
    exact first.1
  · rw [cleared l.other]
    exact second.1
  · intro lane
    rw [cleared lane]
    apply (holds lane).rcvRdy.mpr
    have lanes : lane = l ∨ lane = l.other := by cases lane <;> cases l <;> simp [Lane.other]
    rcases lanes with rfl | rfl
    · exact ⟨a, leads.first, by omega⟩
    · exact ⟨y, leads.second.trans both, by omega⟩
  · change w.now + 1 = y.time + 5
    omega

theorem back_step (both : b = some y) (sm : w.regs.eval.sm = .idle) (rcvRdy : w.regs.eval.rcvRdy = false)
    (cmdPulse : w.regs.eval.cmdNotEqPulse = decide (a.cmd ≠ y.cmd))
    (dataPulse : w.regs.eval.dataNotEqPulse = decide (a.word ≠ y.word))
    (counted : Counted n k c w) (stale : Stale a y l (portsOf w.regs))
    (rcv : ∀ lane, ((portsOf w.regs).lane lane).rcv = true)
    (clock : w.now = y.time + 5) : Phase hz plan l a b n k c (step hz w i) := by
  have later := (leads.later y both).1
  have past : Past plan w.now := leads.past (by omega) (by rw [both]; rintro x ⟨⟩; omega)
  have away : (w.regs.eval.sm == .fin && !w.regs.eval.cmdNotEqual && !w.regs.eval.dataNotEqual) =
    false := by rw [sm]; rfl
  have totals := counted.step hz undisturbed away
  rw [cmdPulse, dataPulse] at totals
  refine .again y both (idle_quiet undisturbed sm rcvRdy) ?_ totals ⟨?_, ?_, ?_⟩ ?_
  · rw [step_sm hz undisturbed, smNext_idle l sm rcvRdy, rcv l, rcv l.other]
  · intro lane
    obtain ⟨ready, cmd⟩ := stale.low lane
    rw [step_port undisturbed lane, past.none lane]
    change (if rdMil w.regs.eval i || err _ then false else ((portsOf w.regs).lane lane).rcvRdy || false) = false ∧
      (if rdMil w.regs.eval i || err _ then false else ((portsOf w.regs).lane lane).cmd) = false
    rw [ready, cmd]
    split_ifs <;> exact ⟨rfl, rfl⟩
  · rw [step_port undisturbed l, past.none l]
    exact stale.first
  · rw [step_port undisturbed l.other, past.none l.other]
    exact stale.second
  · change w.now + 1 = y.time + 6
    omega

theorem again_step (both : b = some y) (quiet : Quiet w.regs.eval) (sm : w.regs.eval.sm = .together)
    (counted : Counted n (count false (decide (a.word ≠ y.word)) k) (count false (decide (a.cmd ≠ y.cmd)) c) w)
    (stale : Stale a y l (portsOf w.regs)) (clock : w.now = y.time + 6) : Phase hz plan l a b n k c (step hz w i) := by
  have later := (leads.later y both).1
  have past : Past plan w.now := leads.past (by omega) (by rw [both]; rintro x ⟨⟩; omega)
  have away : (w.regs.eval.sm == .fin) = false := by rw [sm]; rfl
  have totals := counted.quiet hz quiet undisturbed (by rw [sm]; exact EvalRcv.noConfusion)
  obtain ⟨cmdPulse, dataPulse⟩ := pulses_low hz undisturbed away
  refine .finAgain y both ?_ (rcvRdy_low undisturbed (by rw [away]; rfl) quiet.rcvRdy) ?_ ?_ cmdPulse
    dataPulse totals ?_ ?_
  · rw [step_sm hz undisturbed, smNext, sm]
  · rw [step_eval undisturbed]
    change cmdNotEqualNext w.regs.eval (portsOf w.regs) = false
    rw [cmdNotEqual_together l sm quiet.cmdNotEqual, (stale.low l).2, (stale.low l.other).2]
    rfl
  · rw [step_eval undisturbed, ← stale.first, ← stale.second]
    exact dataNotEqual_together l sm quiet.dataNotEqual
  · intro lane
    rw [step_port undisturbed lane, past.none lane]
    exact ⟨(Gone.mk (stale.low lane).1 rfl : Gone
      { (portsOf w.regs).lane lane with rcv := false }).clock.rcvRdy, (stale.low lane).1⟩
  · change w.now + 1 = y.time + 7
    omega

theorem finAgain_step (both : b = some y)
    (sm : w.regs.eval.sm = .fin) (rcvRdy : w.regs.eval.rcvRdy = false) (cmd : w.regs.eval.cmdNotEqual = false)
    (data : w.regs.eval.dataNotEqual = decide (a.word ≠ y.word)) (cmdPulse : w.regs.eval.cmdNotEqPulse = false)
    (dataPulse : w.regs.eval.dataNotEqPulse = false)
    (counted : Counted n (count false (decide (a.word ≠ y.word)) k) (count false (decide (a.cmd ≠ y.cmd)) c) w)
    (gone : ∀ lane, Gone ((portsOf w.regs).lane lane)) (clock : w.now = y.time + 7) :
    Phase hz plan l a b n k c (step hz w i) := by
  have later := (leads.later y both).1
  have past : Past plan w.now := leads.past (by omega) (by rw [both]; rintro x ⟨⟩; omega)
  by_cases same : a.word = y.word
  · rw [decide_eq_false (not_ne_iff.mpr same)] at data
    obtain ⟨up, moved⟩ := raises hz undisturbed sm rcvRdy cmd data
    refine .shown (by rw [up, counted.rises]) past.next (step_fading undisturbed past) (Or.inl moved) ?_
    rw [both]
    rintro x ⟨⟩
    exact same
  · rw [decide_eq_true same] at data counted
    have away : (w.regs.eval.sm == .fin && !w.regs.eval.cmdNotEqual && !w.regs.eval.dataNotEqual) = false := by
      rw [data, Bool.not_true, Bool.and_false]
    have totals := counted.step hz undisturbed away
    rw [cmdPulse, dataPulse, count_idle, count_idle] at totals
    refine .backAgain y both same ?_ (rcvRdy_low undisturbed away rcvRdy) ?_ ?_ totals
      (step_gone undisturbed past gone) ?_
    · rw [step_sm hz undisturbed, smNext, sm]
      dsimp only
      rw [data, Bool.not_true, Bool.and_false]
      rfl
    · rw [step_eval undisturbed]
      change (w.regs.eval.sm == .fin && w.regs.eval.cmdNotEqual) = false
      rw [cmd, Bool.and_false]
    · rw [step_eval undisturbed]
      change (w.regs.eval.sm == .fin && w.regs.eval.dataNotEqual) = true
      rw [data, sm]
      rfl
    · change w.now + 1 = y.time + 8
      omega

theorem backAgain_step (both : b = some y) (different : a.word ≠ y.word)
    (sm : w.regs.eval.sm = .idle) (rcvRdy : w.regs.eval.rcvRdy = false) (cmdPulse : w.regs.eval.cmdNotEqPulse = false)
    (dataPulse : w.regs.eval.dataNotEqPulse = true)
    (counted : Counted n (count false true k) (count false (decide (a.cmd ≠ y.cmd)) c) w)
    (gone : ∀ lane, Gone ((portsOf w.regs).lane lane)) (clock : w.now = y.time + 8) :
    Phase hz plan l a b n k c (step hz w i) := by
  have later := (leads.later y both).1
  have past : Past plan w.now := leads.past (by omega) (by rw [both]; rintro x ⟨⟩; omega)
  have away : (w.regs.eval.sm == .fin && !w.regs.eval.cmdNotEqual && !w.regs.eval.dataNotEqual) =
    false := by rw [sm]; rfl
  have totals := counted.step hz undisturbed away
  rw [cmdPulse, dataPulse, count_idle] at totals
  exact .ended y both different (idle_quiet undisturbed sm rcvRdy)
    (idle_stays undisturbed sm gone) totals (step_gone undisturbed past gone) past.next

end

end

theorem ended_step (undisturbed : Undisturbed plan w i) (both : b = some y)
    (different : a.word ≠ y.word) (quiet : Quiet w.regs.eval)
    (sm : w.regs.eval.sm = .idle)
    (counted : Counted n (count false true (count false true k)) (count false (decide (a.cmd ≠ y.cmd)) c) w)
    (gone : ∀ lane, Gone ((portsOf w.regs).lane lane)) (past : Past plan w.now) :
    Phase hz plan l a b n k c (step hz w i) := by
  have calm := quiet.step hz undisturbed (by rw [sm]; exact EvalRcv.noConfusion) (by rw [sm]; exact EvalRcv.noConfusion)
  have totals := counted.quiet hz quiet undisturbed (by rw [sm]; exact EvalRcv.noConfusion)
  exact .ended y both different calm (idle_stays undisturbed sm gone) totals (step_gone undisturbed past gone) past.next

theorem Phase.step (phase : Phase hz plan l a b n k c w) (leads : Leads hz plan l a b)
    (undisturbed : Undisturbed plan w i) :
    Phase hz plan l a b n k c (BipolarMessage.step hz w i) := by
  cases phase with
  | before quiet sm counted holds early => exact before_step leads undisturbed quiet sm counted holds early
  | waiting quiet sm counted holds begun jitter opened ends =>
    exact waiting_step leads undisturbed quiet sm counted holds begun jitter opened ends
  | together y both quiet sm counted holds clock =>
      exact together_step leads undisturbed both quiet sm counted holds clock
  | fin quiet sm counted past _ agreed _ => exact fin_step undisturbed quiet sm counted past agreed
  | shown rises past fading sm same => exact shown_step undisturbed rises past fading sm same
  | differ y both different sm rcvRdy cmd data cmdPulse dataPulse counted holds clock =>
    exact differ_step leads undisturbed both different sm rcvRdy cmd data cmdPulse dataPulse counted holds clock
  | back y both _ sm rcvRdy cmdPulse dataPulse counted stale rcv clock =>
    exact back_step leads undisturbed both sm rcvRdy cmdPulse dataPulse counted stale rcv clock
  | again y both quiet sm counted stale clock => exact again_step leads undisturbed both quiet sm counted stale clock
  | finAgain y both sm rcvRdy cmd data cmdPulse dataPulse counted gone clock =>
    exact finAgain_step leads undisturbed both sm rcvRdy cmd data cmdPulse dataPulse counted gone clock
  | backAgain y both different sm rcvRdy cmdPulse dataPulse counted gone clock =>
    exact backAgain_step leads undisturbed both different sm rcvRdy cmdPulse dataPulse counted gone clock
  | ended y both different quiet sm counted gone past =>
      exact ended_step undisturbed both different quiet sm counted gone past

end

/-! ### The whole message -/

section
variable {a y : Delivery} {b : Option Delivery} {n k c : Nat}

theorem Ready.before (ready : Ready w.regs) (now : w.now = 0) :
    Phase hz plan l a b w.rises w.regs.eval.dataNotEqualCnt w.regs.eval.cmdNotEqualCnt w := by
  refine .before ⟨ready.rcvRdy, ready.cmdNotEqual, ready.dataNotEqual, ready.cmdNotEqPulse,
    ready.dataNotEqPulse⟩ ready.sm ⟨rfl, rfl, rfl⟩ ?_ ?_
  · intro lane
    obtain ⟨low, unseen⟩ := ready.port lane
    rw [portsOf_lane, now]
    constructor
    · change (w.regs.dec.lane lane).rcvRdy = true ↔ _
      rw [low]
      simp
    · change (w.regs.dec.lane lane).rcvRdyDelayed = true ↔ _
      rw [unseen]
      simp
    · intro x _ early
      exact absurd early (Nat.not_lt_zero _)
  · omega

theorem Phase.over (phase : Phase hz plan l a b n k c w) (leads : Leads hz plan l a b)
    (late : a.time + maxJitterCnt hz + 9 ≤ w.now) :
    (w.rises = n + 1 ∧ ∀ y ∈ b, a.word = y.word) ∨
      ∃ y, b = some y ∧ a.word ≠ y.word ∧ Counted n (count false true (count false true k))
        (count false (decide (a.cmd ≠ y.cmd)) c) w := by
  cases phase with
  | before _ _ _ _ early => omega
  | waiting _ _ _ _ _ _ _ ends => omega
  | together y both _ _ _ _ clock =>
    have := (leads.later y both).2
    omega
  | fin _ _ _ _ _ _ ends => omega
  | shown rises _ _ _ same => exact Or.inl ⟨rises, same⟩
  | differ y both _ _ _ _ _ _ _ _ _ clock =>
    have := (leads.later y both).2
    omega
  | back y both _ _ _ _ _ _ _ _ clock =>
    have := (leads.later y both).2
    omega
  | again y both _ _ _ _ clock =>
    have := (leads.later y both).2
    omega
  | finAgain y both _ _ _ _ _ _ _ _ clock =>
    have := (leads.later y both).2
    omega
  | backAgain y both _ _ _ _ _ _ _ clock =>
    have := (leads.later y both).2
    omega
  | ended y both different _ _ counted _ _ => exact Or.inr ⟨y, both, different, counted⟩

theorem count_twice (k : Nat) : count false true (count false true k) = k + 1 ↔ k = 254 := by
  rw [count, count]
  by_cases room : k < 255
  · by_cases more : k + 1 < 255
    · simp [room, more]
      omega
    · simp [room, more]
      omega
  · simp [room]
    omega

theorem count_once (c : Nat) : count false true c = c + 1 ↔ c < 255 := by
  rw [count]
  by_cases room : c < 255 <;> simp [room]

/-- The decoders agree, or they differ in the word and the second count is lost at the end of the
counter. -/
def Fine (a b : Delivery) (k c : Nat) : Prop :=
  (a.word = b.word ∧ a.cmd = b.cmd) ∨ (a.word ≠ b.word ∧ k = 254 ∧ (a.cmd ≠ b.cmd → c < 255))

theorem verdict (ended : (w.rises = n + 1 ∧ a.word = y.word) ∨
      (a.word ≠ y.word ∧ Counted n (count false true (count false true k))
        (count false (decide (a.cmd ≠ y.cmd)) c) w)) :
    ((a.word = y.word → a.cmd = y.cmd → w.rises = n + 1) ∧
      (a.word ≠ y.word ∨ a.cmd ≠ y.cmd → w.rises = n ∧ (a.word ≠ y.word → w.regs.eval.dataNotEqualCnt = k + 1) ∧
        (a.cmd ≠ y.cmd → w.regs.eval.cmdNotEqualCnt = c + 1))) ↔ Fine a y k c := by
  rcases ended with ⟨rises, same⟩ | ⟨different, counted⟩
  · constructor
    · rintro ⟨_, differs⟩
      by_cases cmd : a.cmd = y.cmd
      · exact Or.inl ⟨same, cmd⟩
      · have := (differs (Or.inr cmd)).1
        omega
    · rintro (⟨_, cmd⟩ | ⟨word, _⟩)
      · exact ⟨fun _ _ => rises, fun differs => differs.elim (absurd same) (absurd cmd)⟩
      · exact absurd same word
  · rw [counted.data, counted.cmd, counted.rises]
    constructor
    · rintro ⟨_, differs⟩
      obtain ⟨_, data, cmd⟩ := differs (Or.inl different)
      refine Or.inr ⟨different, (count_twice k).mp (data different), ?_⟩
      intro other
      have once := cmd other
      rw [decide_eq_true other] at once
      exact (count_once c).mp once
    · rintro (⟨word, _⟩ | ⟨_, full, room⟩)
      · exact absurd word different
      · refine ⟨fun word => absurd word different, fun _ => ⟨rfl, fun _ => (count_twice k).mpr full, ?_⟩⟩
        intro other
        rw [decide_eq_true other]
        exact (count_once c).mpr (room other)

theorem foldl_now (inputs : List Inputs) : (inputs.foldl (step hz) w).now = w.now + inputs.length := by
  induction inputs generalizing w with
  | nil => rfl
  | cons i inputs ih =>
    rw [List.foldl_cons, ih, List.length_cons]
    change w.now + 1 + inputs.length = _
    omega

theorem run_over {inputs : List Inputs} (ready : Ready w.regs) (now : w.now = 0) (leads : Leads hz plan l a b)
    (along : Along (step hz) (Undisturbed plan) w inputs) (enough : a.time + maxJitterCnt hz + 9 ≤ inputs.length) :
    ((inputs.foldl (step hz) w).rises = w.rises + 1 ∧ ∀ y ∈ b, a.word = y.word) ∨
      ∃ y, b = some y ∧ a.word ≠ y.word ∧
        Counted w.rises (count false true (count false true w.regs.eval.dataNotEqualCnt))
          (count false (decide (a.cmd ≠ y.cmd)) w.regs.eval.cmdNotEqualCnt) (inputs.foldl (step hz) w) := by
  have phase := along.invariant (Phase hz plan l a b w.rises w.regs.eval.dataNotEqualCnt w.regs.eval.cmdNotEqualCnt)
    (ready.before now) fun phase here => phase.step leads here
  apply phase.over leads
  rw [foldl_now, now]
  omega

end

/-- A message is handled as claimed if and only if the two words, where both come within the jitter,
are the same with the same flag, or differ with the counter of the differences one below its end. -/
theorem as_claimed_iff (hz : Nat) (plan : Pair (Option Delivery)) (w : World) (inputs : List Inputs)
    (ready : Ready w.regs) (now : w.now = 0)
    (along : Along (step hz) (Undisturbed plan) w inputs)
    (enough : ∀ lane, ∀ x ∈ plan.lane lane, x.time + maxJitterCnt hz + 9 ≤ inputs.length) :
    AsClaimed hz plan w (inputs.foldl (step hz) w) ↔
      ∀ a b, plan.p = some a → plan.n = some b → InJitter hz a b →
        Fine a b w.regs.eval.dataNotEqualCnt w.regs.eval.cmdNotEqualCnt := by
  have alone : ∀ lane a, plan.lane lane = some a → plan.lane lane.other = none →
    (inputs.foldl (step hz) w).rises = w.rises + 1 := by
    intro lane a first second
    have leads : Leads hz plan lane a none := ⟨first, second, by rintro y ⟨⟩⟩
    rcases run_over ready now leads along (enough lane a first) with ⟨rises, _⟩ | ⟨y, none, _⟩
    · exact rises
    · cases none
  have pair : ∀ a b, plan.p = some a → plan.n = some b → InJitter hz a b →
      (((inputs.foldl (step hz) w).rises = w.rises + 1 ∧ a.word = b.word) ∨
        (a.word ≠ b.word ∧ Counted w.rises (count false true (count false true w.regs.eval.dataNotEqualCnt))
          (count false (decide (a.cmd ≠ b.cmd)) w.regs.eval.cmdNotEqualCnt) (inputs.foldl (step hz) w))) := by
    intro a b first second near
    rcases Nat.le_total a.time b.time with order | order
    · have leads : Leads hz plan .p a (some b) := ⟨first, second, by rintro y ⟨⟩; exact ⟨order, near.2⟩⟩
      rcases run_over ready now leads along (enough .p a first) with ⟨rises, same⟩ | ⟨y, there, different, counted⟩
      · exact Or.inl ⟨rises, same b rfl⟩
      · cases there
        exact Or.inr ⟨different, counted⟩
    · have leads : Leads hz plan .n b (some a) := ⟨second, first, by rintro y ⟨⟩; exact ⟨order, near.1⟩⟩
      rcases run_over ready now leads along (enough .n b second) with ⟨rises, same⟩ | ⟨y, there, different, counted⟩
      · exact Or.inl ⟨rises, (same a rfl).symm⟩
      · cases there
        rw [decide_eq_decide.mpr ne_comm] at counted
        exact Or.inr ⟨different.symm, counted⟩
  constructor
  · intro claimed a b first second near
    exact (verdict (pair a b first second near)).mp ⟨claimed.agree a b first second near,
      claimed.differ a b first second near⟩
  · intro fine
    exact
      { agree := fun a b first second near =>
        ((verdict (pair a b first second near)).mpr (fine a b first second near)).1
        single := alone
        differ := fun a b first second near =>
          ((verdict (pair a b first second near)).mpr (fine a b first second near)).2 }

/-! ### Two messages -/

instance (p : Lane → Prop) [DecidablePred p] : Decidable (∀ lane, p lane) :=
  decidable_of_iff (p .p ∧ p .n) ⟨fun both lane => by cases lane; exacts [both.1, both.2], fun all => ⟨all .p, all .n⟩⟩

instance (plan : Pair (Option Delivery)) (w : World) (i : Inputs) : Decidable (Undisturbed plan w i) :=
  decidable_of_iff
    (i.res = false ∧ (i.clrNotEqualCnt || i.powerUp) = false ∧ (i.rdMil = true → w.regs.eval.rcvRdy = true) ∧
      (∀ lane, err (w.regs.dec.lane lane) = true → (w.regs.dec.lane lane).rcvRdy = false ∧
        word (w.regs.dec.lane lane) = none) ∧
      ∀ lane, word (w.regs.dec.lane lane) = delivered (plan.lane lane) w.now)
    ⟨fun ⟨noRes, kept, read, sound, planned⟩ => ⟨noRes, kept, read, sound, planned⟩,
      fun undisturbed => ⟨undisturbed.noRes, undisturbed.kept, undisturbed.read, undisturbed.sound,
        undisturbed.planned⟩⟩

def fresh : World where
  regs := clock 20000000
    ⟨⟨Soundness.powerUp.regs, Soundness.powerUp.regs⟩,
      ⟨.idle, false, false, ⟨false, false⟩, false, false, false, false, 0, 0, ⟨0, 0⟩, 0, 0⟩⟩
    ⟨⟨false, false⟩, false, false, false, true, false⟩
  now := 0
  rises := 0

theorem fresh_ready : Ready fresh.regs := ⟨rfl, rfl, rfl, rfl, rfl, rfl, by decide⟩

/-- A line at one level. It is inverted at the input. -/
def held (level : Bool) (clocks : Nat) : List Bool := List.replicate clocks (!level)

def line (posLane : Bool) (bits : List Bool) : List Bool :=
  held true 5 ++ held false 30 ++ (bits.flatMap fun bit =>
    held (bit != posLane) 10 ++ held (bit == posLane) 10) ++ held true 35

def lines (p n : List Bool) : List Inputs := List.zipWith (fun p n => ⟨⟨n, p⟩, false, false, false, false, false⟩) p n

def flagsDiffer : List Inputs :=
  lines (line true (Message.messageBits 0x1234 false)) (line false (Message.messageBits 0x1234 false))

def oneLane : List Inputs := lines (line true (Message.messageBits 0x1234 false)) (held true 410)

theorem as_claimed_oneLane : AsClaimed 20000000 ⟨some ⟨378, 0x1234, false⟩, none⟩ fresh
    (oneLane.foldl (step 20000000) fresh) :=
  (as_claimed_iff 20000000 ⟨some ⟨378, 0x1234, false⟩, none⟩ fresh oneLane fresh_ready rfl
    (by decide +kernel) (by decide +kernel)).mpr
    (by rintro a b _ ⟨⟩)

/-- The word is shown although the flags differ. -/
theorem flags_shown : ¬∀ (hz : Nat) (plan : Pair (Option Delivery)) (w : World) (inputs : List Inputs),
    Ready w.regs → w.now = 0 →
    Along (step hz) (Undisturbed plan) w inputs →
      (∀ lane, ∀ x ∈ plan.lane lane, x.time + maxJitterCnt hz + 9 ≤ inputs.length) →
      AsClaimed hz plan w (inputs.foldl (step hz) w) := by
  intro all
  have along : Along (step 20000000) (Undisturbed ⟨some ⟨378, 0x1234, false⟩, some ⟨379, 0x1234, true⟩⟩)
    fresh flagsDiffer := by decide +kernel
  have enough : ∀ lane : Lane, ∀ x ∈ (Pair.mk (some (Delivery.mk 378 0x1234 false))
    (some (Delivery.mk 379 0x1234 true))).lane lane,
      x.time + maxJitterCnt 20000000 + 9 ≤ flagsDiffer.length := by decide +kernel
  have claimed := all 20000000 _ fresh flagsDiffer fresh_ready rfl along enough
  have rises : (flagsDiffer.foldl (step 20000000) fresh).rises = 1 := by decide +kernel
  have none := (claimed.differ ⟨378, 0x1234, false⟩ ⟨379, 0x1234, true⟩ rfl rfl
    (by unfold InJitter; decide) (by decide)).1
  exact absurd (rises.symm.trans none) (by decide)

end BelProject.Mil.BipolarMessage
