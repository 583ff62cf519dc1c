import BelProject.ScuBus.Selection

/-! The two machines of a slot run in lockstep once the master has selected the slave: every
register of either side is a function of the clocks since then. -/

namespace BelProject.ScuBus.Interlock
open Master Starts Pair
open Bridge (Request requestOf)
open Slave (drives dtackNext nDtack)

variable {g : Generics} {sg : Slave.Generics} {slot : Fin 12} {w : World sg} {i : Pair.Inputs}

/-! ### The slave is selected -/

section
variable {past : List Request} {q : Request} {n : Nat}

theorem bus_on (on : w.master.scubSel = line slot) : (busOf slot w).nSlaveSel = false := by
  simp only [busOf, on, line_slot, Bool.not_true]

theorem Data.selected (data : Data g slot w past q n) : Slave.selected w.slave = decide (2 ≤ n) := by
  rw [Slave.selected, data.board]
  by_cases late : 2 ≤ n
  · rw [decide_eq_true late, decide_eq_false (by omega : ¬n < 2), decide_eq_false (by omega : ¬n < 1)]
    rfl
  · rw [decide_eq_false late, decide_eq_true (by omega : n < 2)]
    rfl

theorem Data.dsLow (data : Data g slot w past q n) : Slave.dsLow w.slave = decide (strobed g + 2 ≤ n) := by
  rw [Slave.dsLow, data.dsSync]
  by_cases late : strobed g + 2 ≤ n
  · rw [decide_eq_true late, decide_eq_false (by omega : ¬n < strobed g + 2),
      decide_eq_false (by omega : ¬n < strobed g + 1)]
    rfl
  · rw [decide_eq_false late, decide_eq_true (by omega : n < strobed g + 2)]
    rfl

theorem known_dtack {s : Slave.Registers sg} {bus : Slave.Bus} {user : Slave.User}
    (known : s.adrLA = echoAdr ∨ s.adrLA = intrEnaAdr) :
    dtackNext s bus user = Slave.dsLow s := by
  rcases known with adr | adr <;> rw [dtackNext, adr]
  · exact (congrArg (· && _) (Bool.or_true _)).trans (Bool.true_and _)
  · exact (congrArg (· && _) (Bool.or_true _)).trans (Bool.true_and _)

theorem stores_clock {s : Slave.Registers sg} {bus : Slave.Bus} {user : Slave.User} {dat : BitVec 16}
    (known : q.adr = echoAdr ∨ q.adr = intrEnaAdr) (adrLA : s.adrLA = q.adr) (rdnwr : bus.rdnwr = !q.we)
    (dataLA : q.we = true → s.dataLA = q.dat) (on : Slave.selected s = true)
    (low : Slave.dsLow s = true) {requests : List Request}
    (stores : Stores s requests) (both : requests = past ∨ requests = past ++ [q]) :
    Stores (Slave.clock s bus user dat) (past ++ [q]) := by
  have other : ∀ initial adr, ¬(q.we ∧ q.adr = adr) → lastWritten initial adr (past ++ [q]) =
    lastWritten initial adr requests := by
    intro initial adr away
    rcases both with rfl | rfl
    · rw [lastWritten_append, if_neg away]
    · rfl
  cases we : q.we with
  | false =>
    have nothing : Slave.stores s bus = none := by
      rw [Slave.stores, rdnwr, we, Bool.not_false, Bool.not_true, Bool.and_false, Bool.false_and, Bool.false_and,
        if_neg Bool.false_ne_true]
    have away : ∀ adr, ¬(q.we ∧ q.adr = adr) := fun adr writes => Bool.false_ne_true (we.symm.trans writes.1)
    refine ⟨?_, ?_⟩
    · rw [other _ _ (away _)]
      simp only [Slave.clock, nothing, reduceCtorEq, if_false]
      exact stores.echo
    · rw [other _ _ (away _)]
      simp only [Slave.clock, nothing, reduceCtorEq, if_false]
      exact stores.intrEnable
  | true =>
    have latched := dataLA we
    rcases known with here | here
    · have target : Slave.stores s bus = some .echo := by
        rw [Slave.stores, rdnwr, we, on, low, adrLA, here]
        rfl
      refine ⟨?_, ?_⟩
      · rw [lastWritten_append, if_pos ⟨we, here⟩]
        simp only [Slave.clock, target, if_true]
        exact latched
      · rw [other _ _ fun writes => absurd (here.symm.trans writes.2) (by decide)]
        simp only [Slave.clock, target, Option.some_inj, reduceCtorEq, if_false]
        exact stores.intrEnable
    · have target : Slave.stores s bus = some .intrEna := by
        rw [Slave.stores, rdnwr, we, on, low, adrLA, here]
        rfl
      refine ⟨?_, ?_⟩
      · rw [other _ _ fun writes => absurd (here.symm.trans writes.2) (by decide)]
        simp only [Slave.clock, target, Option.some_inj, reduceCtorEq, if_false]
        exact stores.echo
      · rw [lastWritten_append, if_pos ⟨we, here⟩]
        simp only [Slave.clock, target, if_true]
        rw [latched]

theorem lastWritten_either {condition : Prop} [Decidable condition] {initial adr : BitVec 16} (reads : q.we = false) :
    lastWritten initial adr (if condition then past ++ [q] else past) = lastWritten initial adr past := by
  split_ifs
  · rw [lastWritten_append, if_neg]
    exact fun writes => Bool.false_ne_true (reads.symm.trans writes.1)
  · rfl

theorem known_standard {adr : BitVec 16} (known : adr = echoAdr ∨ adr = intrEnaAdr) :
    Slave.standardReg adr ≠ .others := by
  rcases known with rfl | rfl
  · exact Slave.StandardReg.noConfusion
  · exact Slave.StandardReg.noConfusion

theorem Data.next (data : Data g slot w past q n) (waiting : Waiting slot w past q) (delays : Delays g)
    (more : n < strobed g + 4) :
    Data g slot (step slot w i g) past q (n + 1) := by
  have bus := bus_on data.scubSel
  have high' : high w.master.dValidCnt = decide (g.dValidToDS ≤ n + 1) := by
    rw [high, decide_eq_decide]
    rcases data.dValid with counts | ⟨low, late⟩ <;> omega
  have runs : high w.master.timeOutCnt = false := by
    have enough := delays.timeOut
    rw [high, decide_eq_false_iff_not, data.timeOut]
    omega
  have waits : w.master.sync0 = true := data.sync0.trans (decide_eq_true more)
  have stays : smNext w.master = w.master.sm := by
    rw [smNext, data.sm]
    cases q.we with
    | false => simp [waits, runs]
    | true => simp [wrDtack, waits, runs]
  have inside : endsData w.master = false := by
    rw [endsData, stays, bne_self_eq_false, Bool.and_false]
  have either : w.master.sm = .wrCyc ∨ w.master.sm = .rdCyc := by
    rw [data.sm]
    cases q.we
    · exact Or.inr rfl
    · exact Or.inl rfl
  have counts : ∀ cnt : Int, 0 ≤ cnt → countDown cnt = cnt - 1 := by
    intro cnt positive
    rw [countDown, high, if_neg]
    rw [decide_eq_true_iff]
    omega
  refine { sm := stays.trans data.sm, addr := ?_, rdnwr := ?_, scubSel := ?_, dValid := ?_, timeOut := ?_, release := ?_, ds := ?_
           sync0 := ?_, sync1 := ?_, extAck := ?_, board := ?_, dsSync := ?_, adrLA := ?_, dataLA :=
             ?_, dtack := ?_, readOut := ?_
           stores := ?_ }
  · show scubAddrNext w.master = _
    rw [scubAddrNext]
    rcases either with sm | sm <;> rw [sm] <;> exact data.addr
  · show rdnwrNext w.master = _
    rw [rdnwrNext]
    rcases either with sm | sm <;> rw [sm] <;> exact data.rdnwr
  · show scubSelNext w.master = _
    rw [scubSelNext, inside]
    rcases either with sm | sm <;> rw [sm] <;> exact data.scubSel
  · have next : (step slot w i g).master.dValidCnt = countDown w.master.dValidCnt := by
      rcases either with sm | sm <;> simp only [step, clock, sm]
    rw [next]
    rcases data.dValid with exactly | ⟨low, late⟩
    · by_cases positive : 0 ≤ w.master.dValidCnt
      · left
        rw [counts _ positive, exactly]
        omega
      · right
        rw [countDown, high, if_pos (decide_eq_true (by omega))]
        omega
    · right
      rw [countDown, high, if_pos (decide_eq_true low)]
      omega
  · have data' : (w.master.sm == .rdCyc || w.master.sm == .wrCyc) = true := by
      rcases either with sm | sm <;> rw [sm] <;> rfl
    have enough := delays.timeOut
    have positive : 0 ≤ w.master.timeOutCnt := by
      rw [data.timeOut]
      omega
    simp only [step, clock, data', if_true]
    rw [counts _ positive, data.timeOut]
    omega
  · rcases either with sm | sm <;> simp only [step, clock, sm] <;> exact data.release
  · have next : (step slot w i g).master.ds = if high w.master.dValidCnt then !endsData w.master else w.master.ds := by
      show dsNext w.master = _
      rw [dsNext]
      rcases either with sm | sm <;> rw [sm]
    rw [next, inside, high', data.ds]
    by_cases due : g.dValidToDS ≤ n + 1
    · rw [if_pos (decide_eq_true due)]
      exact (decide_eq_true (by omega)).symm
    · rw [if_neg (by rw [decide_eq_true_iff]; exact due), decide_eq_decide]
      omega
  · have next : (step slot w i g).master.sync0 = !w.slave.dtack := by
      simp only [step, clock, masterIn, nDtack, bus, Bool.not_false, Bool.and_true]
    rw [next, data.dtack, ← decide_not, decide_eq_decide]
    omega
  · exact waits
  · simp only [step, clock, data.sync1, Bool.not_true, Bool.false_and]
  · simp only [step, Slave.clock, data.board, bus]
    rw [Prod.mk.injEq, decide_eq_decide]
    exact ⟨by omega, (decide_eq_false (by omega)).symm⟩
  · simp only [step, Slave.clock, data.selected, data.dsSync]
    by_cases late : 2 ≤ n
    · rw [if_pos (decide_eq_true late), Prod.mk.injEq, busOf, data.ds, ← decide_not, decide_eq_decide, decide_eq_decide]
      unfold strobed
      omega
    · rw [if_neg (by rw [decide_eq_true_iff]; exact late), Prod.mk.injEq]
      unfold strobed
      exact ⟨(decide_eq_true (by omega)).symm, (decide_eq_true (by omega)).symm⟩
  · intro late
    by_cases first : n = 1
    · subst first
      simp only [step, Slave.clock, data.board]
      exact data.addr
    · have edge : (w.slave.nSyncBoardSel == (true, false)) = false := by
        rw [data.board, decide_eq_false (by omega : ¬n < 2)]
        rfl
      simp only [step, Slave.clock, edge, Bool.false_eq_true, if_false]
      exact data.adrLA (by omega)
  · intro late writes
    by_cases first : n = strobed g + 1
    · have here : Slave.selected w.slave = true :=
        data.selected.trans (decide_eq_true (by unfold strobed at first; omega))
      have edge : w.slave.nSyncDS = (true, false) := by
        rw [data.dsSync, decide_eq_true (by omega : n < strobed g + 2), decide_eq_false (by omega : ¬n < strobed g + 1)]
      have write : (busOf slot w).rdnwr = false := by rw [busOf, data.rdnwr, writes, Bool.not_true]
      have drives : scubData slot w i = q.dat := by
        rw [scubData, scubDataOut, data.sm, writes]
        exact waiting.wrData writes
      simp only [step, Slave.clock, here, edge, write, beq_self_eq_true, Bool.not_false, Bool.and_true, if_true]
      exact drives
    · have outside : (w.slave.nSyncDS == (true, false)) = false := by
        rw [data.dsSync, decide_eq_false (by omega : ¬n < strobed g + 2)]
        rfl
      simp only [step, Slave.clock, outside, Bool.and_false, Bool.false_and, Bool.false_eq_true, if_false]
      exact data.dataLA (by omega) writes
  · simp only [step, Slave.clock, data.selected]
    by_cases late : 2 ≤ n
    · have known := waiting.known
      rw [← data.adrLA late] at known
      rw [decide_eq_true late, Bool.true_and, known_dtack known, data.dsLow, decide_eq_decide]
      omega
    · rw [decide_eq_false late, Bool.false_and]
      exact (decide_eq_false (by omega)).symm
  · intro late reads
    have here : Slave.selected w.slave = true := data.selected.trans (decide_eq_true (by omega))
    have read : (busOf slot w).rdnwr = true := by rw [busOf, data.rdnwr, reads, Bool.not_false]
    have adr := data.adrLA (by omega)
    have shows := data.stores.value i.user waiting.known
    rw [lastWritten_either reads] at shows
    simp only [step, Slave.clock, here, if_true, Slave.readOutNext, read, Bool.not_true,
      Bool.false_eq_true, if_false, adr]
    rw [if_neg (known_standard waiting.known)]
    exact shows
  · by_cases late : strobed g + 3 ≤ n + 1
    · rw [if_pos late]
      refine stores_clock waiting.known (data.adrLA (by unfold strobed at late; omega)) data.rdnwr
        (data.dataLA (by omega))
        (data.selected.trans (decide_eq_true (by unfold strobed at late; omega)))
        (data.dsLow.trans (decide_eq_true (by omega))) data.stores ?_
      split_ifs
      · exact Or.inr rfl
      · exact Or.inl rfl
    · have low : Slave.dsLow w.slave = false := data.dsLow.trans (decide_eq_false (by omega))
      have nothing : Slave.stores w.slave (busOf slot w) = none := by
        rw [Slave.stores, low, Bool.and_false, Bool.false_and, if_neg Bool.false_ne_true]
      have before := data.stores
      rw [if_neg (by omega)] at before
      rw [if_neg late]
      apply before.congr
      · simp only [step, Slave.clock, nothing, reduceCtorEq, if_false]
      · simp only [step, Slave.clock, nothing, reduceCtorEq, if_false]

theorem Data.finish (data : Data g slot w past q (strobed g + 4)) (waiting : Waiting slot w past q)
    (delays : Delays g) :
    Tail slot (step slot w i g) past q 0 ∧
      (q.we = false → (step slot w i g).master.extRdData =
        shown q.adr (lastWritten (initial sg q.adr) q.adr past)) := by
  have bus := bus_on data.scubSel
  have two : 2 ≤ strobed g := le_max_right _ _
  have due : high w.master.dValidCnt = true := by
    have upper : g.dValidToDS ≤ strobed g := le_max_left _ _
    rw [high, decide_eq_true_iff]
    rcases data.dValid with counts | ⟨low, late⟩ <;> omega
  have runs : high w.master.timeOutCnt = false := by
    have enough := delays.timeOut
    rw [high, decide_eq_false_iff_not, data.timeOut]
    omega
  have answered : w.master.sync0 = false := data.sync0.trans (decide_eq_false (lt_irrefl _))
  have next : smNext w.master = if q.we then .eWrCyc else .eRdCyc := by
    rw [smNext, data.sm]
    cases q.we with
    | false => simp [due, answered]
    | true => simp [wrDtack, due, runs, answered, waiting.multiWr]
  have ends : endsData w.master = true := by
    rw [endsData, next, data.sm]
    cases q.we <;> rfl
  have selected : Slave.selected w.slave = true := data.selected.trans (decide_eq_true (by omega))
  have low : Slave.dsLow w.slave = true := data.dsLow.trans (decide_eq_true (by omega))
  have adrLA := data.adrLA (by omega)
  have dtack : w.slave.dtack = true := data.dtack.trans (decide_eq_true (by omega))
  have line' : w.master.ds = true := data.ds.trans (decide_eq_true (by unfold strobed; omega))
  obtain ⟨_, quiet⟩ :=
    waiting.next (g := g) (i := i) data.extAck (by rw [data.sm]; cases q.we <;> exact ScubSM.noConfusion)
    (by rw [data.sm]; cases q.we <;> exact ScubSM.noConfusion)
  refine ⟨{ released := ⟨?_, ?_, ?_⟩, quiet := quiet, settles := ?_, sync0 := ?_, sync1 := ?_, extAck := ?_, board := ?_
            dsSync := ?_, dtack := ?_, latched := ?_, stores := ?_ }, ?_⟩
  · show smNext w.master = _ ∨ smNext w.master = _ ∨ smNext w.master = _ ∨ smNext w.master = _ ∨ smNext w.master = _
    rw [next]
    cases q.we
    · exact Or.inr (Or.inl rfl)
    · exact Or.inr (Or.inr (Or.inl rfl))
  · show scubSelNext w.master = _
    rw [scubSelNext, data.sm, ends]
    cases q.we <;> rfl
  · show dsNext w.master = _
    rw [dsNext, data.sm, ends]
    cases q.we <;> exact if_pos due
  · have sm' : (step slot w i g).master.sm = if q.we then .eWrCyc else .eRdCyc := next
    have release : (step slot w i g).master.releaseCnt = cntStart g.selRelease := by
      simp only [step, clock, data.sm]
      cases q.we <;> exact data.release
    have bound := delays.release
    refine ⟨releasing (cntStart g.selRelease) + 1, ?_, ?_⟩
    · rw [clocksLeft, sm', release]
      cases q.we <;> rfl
    · unfold releasing cntStart
      omega
  · simp only [step, clock, masterIn, nDtack, bus, dtack]
    rfl
  · exact answered
  · simp only [step, clock, data.sync1]
    rfl
  · simp only [step, Slave.clock, data.board, bus]
    rw [decide_eq_false (by omega : ¬strobed g + 4 < 1)]
    rfl
  · simp only [step, Slave.clock, selected, if_true, data.dsSync, busOf, line']
    rw [decide_eq_false (by omega : ¬strobed g + 4 < strobed g + 1)]
    rfl
  · have known := waiting.known
    rw [← adrLA] at known
    simp only [step, Slave.clock, selected, known_dtack known, low]
    rfl
  · intro _
    have edge : (w.slave.nSyncBoardSel == (true, false)) = false := by
      rw [data.board, decide_eq_false (by omega : ¬strobed g + 4 < 2)]
      rfl
    have outside : (w.slave.nSyncDS == (true, false)) = false := by
      rw [data.dsSync, decide_eq_false (by omega : ¬strobed g + 4 < strobed g + 2)]
      rfl
    refine ⟨?_, ?_, ?_⟩
    · simp only [step, Slave.clock, edge, Bool.false_eq_true, if_false]
      exact adrLA
    · show rdnwrNext w.master = _
      apply Eq.trans _ data.rdnwr
      rw [rdnwrNext, data.sm]
      cases q.we <;> rfl
    · intro writes
      simp only [step, Slave.clock, outside, Bool.and_false, Bool.false_and, Bool.false_eq_true, if_false]
      exact data.dataLA (by omega) writes
  · refine stores_clock waiting.known adrLA data.rdnwr (data.dataLA (by omega)) selected low data.stores ?_
    exact Or.inr (if_pos (by omega))
  · intro reads
    have drives : drives (busOf slot w) = true := by
      rw [drives, bus]
      simp only [busOf, data.rdnwr, line', reads]
      rfl
    have shows : scubData slot w i = shown q.adr (lastWritten (initial sg q.adr) q.adr past) := by
      rw [scubData, scubDataOut, data.sm, reads]
      simp only [drives, if_true, data.readOut (by omega) reads]
      rfl
    have sm' : w.master.sm = .rdCyc := by rw [data.sm, reads]; rfl
    simp only [step, clock, sm', due, answered]
    exact shows

/-! ### The slave is released -/

theorem Tail.next (tail : Tail slot w past q n) (known : q.adr = echoAdr ∨ q.adr = intrEnaAdr)
    (busy : w.master.wbState ≠ .cycStart)
    (more : n < 3) : Tail slot (step slot w i g) past q (n + 1) := by
  have off : (busOf slot w).nSlaveSel = true := bus_off slot tail.released.scubSel
  have quiet : requested (step slot w i g).master = false := quiet_clock busy
  have selected : Slave.selected w.slave = decide (n = 0) := by
    rw [Slave.selected, tail.board]
    by_cases first : n = 0
    · subst first
      rfl
    · rw [decide_eq_false first, decide_eq_true (by omega : 1 ≤ n)]
      exact Bool.and_false _
  refine { released := tail.released.clock tail.settles, quiet := quiet, settles := ?_, sync0 := ?_, sync1 := ?_, extAck := ?_
           board := ?_, dsSync := ?_, dtack := ?_, latched :=
             fun zero => absurd zero (Nat.succ_ne_zero n), stores := ?_ }
  · have settles := tail.settles
    have clocks : (6 : Int) - n = 6 - (n + 1 : Nat) + 1 := by omega
    rw [clocks] at settles
    exact settles.step (by omega) quiet
  · simp only [step, clock, masterIn, nDtack, off, Bool.not_true, Bool.and_false, Bool.not_false]
    exact (decide_eq_true (by omega)).symm
  · simp only [step, clock]
    rw [tail.sync0, decide_eq_decide]
    omega
  · simp only [step, clock]
    rw [tail.sync0, tail.sync1, ← decide_not, ← Bool.decide_and, decide_eq_decide]
    omega
  · simp only [step, Slave.clock, tail.board, off]
    rw [Prod.mk.injEq, decide_eq_decide]
    exact ⟨by omega, (decide_eq_true (by omega)).symm⟩
  · simp only [step, Slave.clock, selected, tail.dsSync, busOf, tail.released.ds, Bool.not_false]
    by_cases first : n = 0
    · subst first
      rfl
    · rw [if_neg (by rw [decide_eq_true_iff]; exact first), decide_eq_true (by omega : 2 ≤ n + 1),
        decide_eq_true (by omega : 1 ≤ n + 1)]
  · simp only [step, Slave.clock, selected]
    by_cases first : n = 0
    · subst first
      have latched := (tail.latched rfl).1
      have known' := known
      rw [← latched] at known'
      rw [known_dtack known', Slave.dsLow, tail.dsSync]
      rfl
    · rw [decide_eq_false first, Bool.false_and]
      exact (decide_eq_false (by omega)).symm
  · by_cases first : n = 0
    · subst first
      obtain ⟨adrLA, rdnwr, dataLA⟩ := tail.latched rfl
      have low : Slave.dsLow w.slave = true := by
        rw [Slave.dsLow, tail.dsSync]
        rfl
      exact stores_clock known adrLA rdnwr dataLA (selected.trans (decide_eq_true rfl)) low tail.stores (Or.inr rfl)
    · have nothing : Slave.stores w.slave (busOf slot w) = none := by
        rw [Slave.stores, selected, decide_eq_false first]
        rfl
      apply tail.stores.congr
      · simp only [step, Slave.clock, nothing, reduceCtorEq, if_false]
      · simp only [step, Slave.clock, nothing, reduceCtorEq, if_false]

theorem tail_step {k : Nat} (waiting : Waiting slot w past q) (tail : Tail slot w past q n) (left : n + k = 2)
    (shows : q.we = false → w.master.extRdData = shown q.adr (lastWritten (initial sg q.adr) q.adr past)) :
    Phase g slot (step slot w i g) (k + 1) := by
  have state := waiting.wbState
  have tail' := tail.next (g := g) (i := i) waiting.known (by rw [state]; exact WbCtrl.noConfusion) (by omega)
  have outside : w.master.sm ≠ .rdCyc ∧ w.master.sm ≠ .toRdCyc ∧ w.master.sm ≠ .toWrCyc := by
    rcases tail.released.sm with sm | sm | sm | sm | sm <;> rw [sm] <;>
      exact ⟨ScubSM.noConfusion, ScubSM.noConfusion, ScubSM.noConfusion⟩
  cases k with
  | zero =>
    have last : n = 2 := by omega
    subst last
    have ends : w.master.extAck = true := tail.extAck
    refine .taken (waiting.toOpen.next (Or.inr state)) ?_ tail' ?_
    · simp [step, clock, wbNext, state, waiting.rdErr, waiting.wrErr, ends]
    · intro reads
      rw [← shows reads]
      simp [step, clock, rdDataNext, state, waiting.rdErr, waiting.wrErr, ends]
  | succ k =>
    have none : w.master.extAck = false := tail.extAck.trans (decide_eq_false (by omega))
    obtain ⟨waiting', _⟩ := waiting.next (g := g) (i := i) none outside.2.1 outside.2.2
    refine .tail waiting' tail' (by omega) ?_
    intro reads
    rw [← shows reads]
    have other : (w.master.sm == .rdCyc) = false := beq_eq_false_iff_ne.mpr outside.1
    simp only [step, clock, other, Bool.false_and, Bool.false_eq_true, if_false]

theorem taken_step (opened : Open slot w past q) (state : w.master.wbState = .extAcc) (tail : Tail slot w past q 3) :
    Phase g slot (step slot w i g) 0 ∧ (step slot w i g).accepted = w.accepted ∧
      (step slot w i g).answers = w.answers ++ [some w.master.rdData] := by
  have busy : w.master.wbState ≠ .idle := by
    rw [state]
    exact WbCtrl.noConfusion
  have none := accepts_busy (j := i.wb) busy
  have off : w.master.scubSel = 0 := tail.released.scubSel
  have rest : Rest w.slave := ⟨tail.board, tail.dsSync, tail.dtack⟩
  obtain ⟨still, stores⟩ := apart_next (g := g) (i := i) slot off tail.sync0 tail.sync1 rest tail.stores
  have quiet : requested (step slot w i g).master = false := quiet_clock (by rw [state]; exact WbCtrl.noConfusion)
  have settles : Settles (step slot w i g).master 2 := tail.settles.step (by decide) quiet
  have accepted : (step slot w i g).accepted = w.accepted := by simp [step, none]
  have answers : (step slot w i g).answers = w.answers ++ [some w.master.rdData] := by
    simp [step, answerOf, clock, state, rdDataNext]
  refine ⟨.idle ?_ ?_ (tail.released.clock tail.settles) settles still.sync0 still.slave ?_, accepted, answers⟩
  · simp [step, clock, wbNext, state]
  · rw [accepted, answers, opened.accepted, List.length_append, List.length_append, opened.answers]
    rfl
  · rw [accepted, opened.accepted]
    exact stores

end

/-! ### Runs -/

/-- The answers that were given. -/
structure History (w : World sg) : Prop where
  acknowledged : ∀ answer ∈ w.answers, answer.isSome = true
  reads : ∀ k (q : Request) (dat : BitVec 16), w.accepted[k]? = some q → q.we = false →
    w.answers[k]? = some (some dat) →
    dat = shown q.adr (lastWritten (initial sg q.adr) q.adr (w.accepted.take k))

theorem History.grow {w' : World sg} {more : List Request} (history : History w)
    (accepted : w'.accepted = w.accepted ++ more)
    (answers : w'.answers = w.answers) (order : w.answers.length ≤ w.accepted.length) : History w' := by
  refine ⟨by rw [answers]; exact history.acknowledged, ?_⟩
  intro k q dat asked reads given
  rw [answers] at given
  obtain ⟨inside, _⟩ := List.getElem?_eq_some_iff.mp given
  rw [accepted, List.getElem?_append_left (by omega)] at asked
  rw [accepted, List.take_append_of_le_length (by omega)]
  exact history.reads k q dat asked reads given

theorem History.answer {w' : World sg} {past : List Request} {q : Request} {dat : BitVec 16} (history : History w)
    (opened : Open slot w past q) (accepted : w'.accepted = w.accepted) (answers : w'.answers = w.answers ++ [some dat])
    (shows : q.we = false → dat = shown q.adr (lastWritten (initial sg q.adr) q.adr past)) : History w' := by
  refine ⟨?_, ?_⟩
  · intro answer mem
    rw [answers, List.mem_append, List.mem_singleton] at mem
    rcases mem with old | rfl
    · exact history.acknowledged answer old
    · rfl
  · intro k asked dat' known reads given
    rw [accepted] at known ⊢
    rw [answers] at given
    rcases Nat.lt_or_ge k w.answers.length with old | new
    · rw [List.getElem?_append_left old] at given
      exact history.reads k asked dat' known reads given
    · obtain ⟨inside, _⟩ := List.getElem?_eq_some_iff.mp given
      rw [List.length_append, List.length_singleton] at inside
      have here : k = past.length := by
        rw [← opened.answers]
        omega
      subst here
      rw [opened.accepted, List.getElem?_concat_length, Option.some_inj] at known
      rw [← opened.answers, List.getElem?_concat_length, Option.some_inj, Option.some_inj] at given
      subst known given
      rw [opened.accepted, List.take_left]
      exact shows reads

theorem longest_eq (g : Generics) : longest g = (g.selDly - 1) + strobed g + 12 := rfl

theorem Open.same {past : List Request} {q : Request} (opened : Open slot w past q)
    (state : w.master.wbState = .cycStart ∨ w.master.wbState = .extStall) (history : History w) :
    (Pair.step slot w i g).accepted = w.accepted ∧ History (Pair.step slot w i g) := by
  have next := opened.next (g := g) (i := i) state
  have same : (Pair.step slot w i g).accepted = w.accepted := next.accepted.trans opened.accepted.symm
  refine ⟨same, history.grow (same.trans (List.append_nil _).symm) (answer_none (Or.inr state)) ?_⟩
  rw [opened.answers, opened.accepted, List.length_append]
  exact Nat.le_add_right _ _

theorem Phase.step {k : Nat} (phase : Phase g slot w k) (bound : k ≤ longest g) (delays : Delays g)
    (host : NonPipelined slot w i)
    (history : History w) :
    (∃ k' ≤ longest g, Phase g slot (Pair.step slot w i g) k' ∧
      (0 < k → k' < k ∧ (Pair.step slot w i g).accepted = w.accepted)) ∧ History (Pair.step slot w i g) := by
  rw [longest_eq] at *
  cases phase with
  | idle state answered released settles sync0 slave stores =>
    refine ⟨?_, history.grow rfl (answer_none (Or.inl state)) answered.le⟩
    rcases idle_step (g := g) host state answered released settles sync0 slave stores with next | next
    · exact ⟨0, Nat.zero_le _, next, fun positive => absurd positive (lt_irrefl 0)⟩
    · exact ⟨longest g, le_refl _, next, fun positive => absurd positive (lt_irrefl 0)⟩
  | decode opened state released settles sync0 sync1 slave stores =>
    obtain ⟨same, history'⟩ := opened.same (g := g) (i := i) (Or.inl state) history
    have next := decode_step (g := g) host opened state released settles sync0 sync1 slave stores
    exact ⟨⟨_, by omega, next, fun _ => ⟨by rw [longest_eq]; omega, same⟩⟩, history'⟩
  | asked waiting released sm startRd startWr still stores =>
    obtain ⟨same, history'⟩ := waiting.toOpen.same (g := g) (i := i) (Or.inr waiting.wbState) history
    have next := asked_step (g := g) (i := i) waiting released sm startRd startWr still stores
    exact ⟨⟨_, by omega, next, fun _ => ⟨by omega, same⟩⟩, history'⟩
  | setup waiting sm addr rdnwr scubSel ds selDly dValid release still stores =>
    obtain ⟨same, history'⟩ := waiting.toOpen.same (g := g) (i := i) (Or.inr waiting.wbState) history
    obtain ⟨k', less, next⟩ :=
      setup_step (g := g) (i := i) waiting sm addr rdnwr scubSel ds selDly dValid release still stores
    exact ⟨⟨k', by omega, next, fun _ => ⟨less, same⟩⟩, history'⟩
  | @data past q n k waiting data left =>
    obtain ⟨same, history'⟩ := waiting.toOpen.same (g := g) (i := i) (Or.inr waiting.wbState) history
    cases k with
    | zero =>
      have last : n = strobed g + 4 := by omega
      subst last
      obtain ⟨tail, shows⟩ := data.finish (i := i) waiting delays
      have outside : w.master.sm ≠ .toRdCyc ∧ w.master.sm ≠ .toWrCyc := by
        rw [data.sm]
        cases q.we <;> exact ⟨ScubSM.noConfusion, ScubSM.noConfusion⟩
      obtain ⟨waiting', _⟩ := waiting.next (g := g) (i := i) data.extAck outside.1 outside.2
      exact ⟨⟨4, by omega, .tail waiting' tail rfl shows, fun _ => ⟨by omega, same⟩⟩, history'⟩
    | succ k =>
      have outside : w.master.sm ≠ .toRdCyc ∧ w.master.sm ≠ .toWrCyc := by
        rw [data.sm]
        cases q.we <;> exact ⟨ScubSM.noConfusion, ScubSM.noConfusion⟩
      obtain ⟨waiting', _⟩ := waiting.next (g := g) (i := i) data.extAck outside.1 outside.2
      exact ⟨⟨k + 5, by omega, .data waiting' (data.next waiting delays (by omega)) (by omega),
        fun _ => ⟨by omega, same⟩⟩, history'⟩
  | @tail past q n k waiting tail left shows =>
    obtain ⟨same, history'⟩ := waiting.toOpen.same (g := g) (i := i) (Or.inr waiting.wbState) history
    have next := tail_step (g := g) (i := i) waiting tail left shows
    exact ⟨⟨k + 1, by omega, next, fun _ => ⟨by omega, same⟩⟩, history'⟩
  | taken opened state tail shows =>
    obtain ⟨next, same, answers⟩ := taken_step (g := g) (i := i) opened state tail
    exact ⟨⟨0, Nat.zero_le _, next, fun _ => ⟨Nat.zero_lt_one, same⟩⟩, history.answer opened same answers shows⟩

theorem Phase.outstanding {k : Nat} (phase : Phase g slot w k) :
    (if k = 0 then w.answers.length = w.accepted.length else w.accepted.length = w.answers.length + 1) := by
  have counts : ∀ {past q}, Open slot w past q → w.accepted.length = w.answers.length + 1 := by
    intro past q opened
    rw [opened.accepted, opened.answers, List.length_append, List.length_singleton]
  cases phase with
  | idle _ answered => exact answered
  | decode opened => exact counts opened
  | asked waiting => exact counts waiting.toOpen
  | setup waiting => exact counts waiting.toOpen
  | data waiting => exact counts waiting.toOpen
  | tail waiting => exact counts waiting.toOpen
  | taken opened => exact counts opened

theorem off_apart (off : w.master.scubSel = 0) : drives (busOf slot w) = false := by
  rw [drives, bus_off _ off]
  rfl

theorem Phase.apart {k : Nat} (phase : Phase g slot w k) :
    ¬(scubDataOut w.master ≠ none ∧ drives (busOf slot w) = true) := by
  have quiet : w.master.scubSel = 0 → ¬(scubDataOut w.master ≠ none ∧ drives (busOf slot w) = true) := by
    intro off both
    rw [off_apart off] at both
    exact Bool.false_ne_true both.2
  cases phase with
  | idle _ _ released => exact quiet released.scubSel
  | decode _ _ released => exact quiet released.scubSel
  | asked _ released => exact quiet released.scubSel
  | setup _ _ _ _ scubSel => exact quiet scubSel
  | @data past q n k waiting data left =>
    intro both
    cases we : q.we with
    | false => exact both.1 (by rw [scubDataOut, data.sm, we]; rfl)
    | true =>
      have write : (busOf slot w).rdnwr = false := by rw [busOf, data.rdnwr, we, Bool.not_true]
      rw [drives, write, Bool.and_false, Bool.false_and] at both
      exact Bool.false_ne_true both.2
  | tail _ tail => exact quiet tail.released.scubSel
  | taken _ _ tail => exact quiet tail.released.scubSel

structure Inv (g : Generics) (slot : Fin 12) (w : World sg) : Prop where
  phase : ∃ k ≤ longest g, Phase g slot w k
  history : History w

theorem Inv.step (inv : Inv g slot w) (delays : Delays g) (host : NonPipelined slot w i) :
    Inv g slot (Pair.step slot w i g) := by
  obtain ⟨k, bound, phase⟩ := inv.phase
  obtain ⟨⟨k', bound', phase', _⟩, history⟩ := phase.step bound delays host inv.history
  exact ⟨⟨k', bound', phase'⟩, history⟩

theorem Inv.run {inputs : List Pair.Inputs} (inv : Inv g slot w) (delays : Delays g)
    (along : Along g slot (NonPipelined slot) w inputs) :
    Inv g slot (Pair.run g slot w inputs) :=
  along.invariant (Inv g slot) inv fun inv host => inv.step delays host

end BelProject.ScuBus.Interlock
