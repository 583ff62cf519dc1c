import BelProject.Ftm.Emission

/-! When the queue pops by itself. A pop is requested when the entry kept in `r_reg_out` becomes
due. The request counts for whatever entry the heap has first when it is served, so that the
entry removed is due only if the request was for an entry that is still in the heap, and if it
is served once. -/

namespace BelProject.Ftm.DueTime
open Heap Library.Runs PriorityQueue Emission

variable {g : Generics}

/-- The keys that are due in a clock lie up to here. -/
def horizon (i : Inputs g) : Nat := i.time.toNat + i.control.tDue.toNat + i.control.tTrn.toNat

/-- An entry is removed before it is due. -/
def Early (w : World g) (i : Inputs g) : Prop := pop w i = true ∧ horizon i < w.heap.shown.key.toNat

instance (w : World g) (i : Inputs g) : Decidable (Early w i) := inferInstanceAs (Decidable (_ ∧ _))

/-- Pops are automatic only; the output machine takes each at once; a request is made for an
entry that is in the heap, and not while another one is pending; the heap sorts. -/
structure Punctual (w : World g) (i : Inputs g) : Prop where
  auto : i.control.forcePop = false
  taken : pop w i = true → w.out.state = .idle ∧ w.out.send = false ∧ rdy w = true
  fresh : w.auto.due0 = false → (autoPopNext w i).due0 = true → w.heap.shown ∈ w.heap.bag
  single : autoPop w = true → i.control.ena = true → w.popReq = 0
  silent : i.control.dbg = false
  alike : HeapTop.Alike w.heap (event w i)

instance (w : World g) (i : Inputs g) : Decidable (Punctual w i) :=
  decidable_of_iff
    (i.control.forcePop = false ∧ (pop w i = true → w.out.state = .idle ∧ w.out.send = false ∧ rdy w = true) ∧
      (w.auto.due0 = false → (autoPopNext w i).due0 = true → w.heap.shown ∈ w.heap.bag) ∧
      (autoPop w = true → i.control.ena = true → w.popReq = 0) ∧ i.control.dbg = false ∧
      HeapTop.Alike w.heap (event w i))
    ⟨fun ⟨auto, taken, fresh, single, silent, alike⟩ => ⟨auto, taken, fresh, single, silent, alike⟩,
      fun ⟨auto, taken, fresh, single, silent, alike⟩ => ⟨auto, taken, fresh, single, silent, alike⟩⟩

def SomeDue (w : World g) (now : Nat) : Prop := ∃ entry ∈ w.heap.bag, entry.key.toNat ≤ now

/-- Where the request of the entry on its way stands: it is counted until the entry is copied,
and taken back in the clock after. Until the acknowledgement is gone no other is made. -/
def Counted (w : World g) : Prop :=
  match w.out.state with
  | .ebmChk => w.out.popAck = true ∧ w.popReq = 1 ∧ w.out.popReqDec = false
  | .ebmCfg => w.out.popAck = true ∧ w.popReq = 1 ∧ w.out.popReqDec = false ∧ w.auto.due0 = false
  | .shiftOut => w.out.popAck = true ∧ (w.popReq = if w.out.popReqDec then 1 else 0) ∧ w.auto.due0 = false
  | _ => w.out.popReqDec = false ∧ (w.out.popAck = true → w.popReq = 0 ∧ w.auto.due0 = false) ∧
      (w.popReq = 0 ∨ w.popReq = 1)

structure Requesting (w : World g) (now : Nat) : Prop where
  phase : ∃ m, Runs.Phase g.idxWidth w.heap m
  room : w.input.push = true → HeapTop.busy w.heap = false → HeapTop.fullOut g.idxWidth w.heap = false
  presented : w.empty = false → w.out.regOut = w.heap.shown
  counted : Counted w
  pending : w.out.popAck = false → w.popReq ≠ 0 → SomeDue w now
  rising : w.auto.due0 = true → w.auto.due1 = false → w.popReq = 0 → SomeDue w now

theorem requesting_start (junk : Junk g) : Requesting (start junk) 0 :=
  { phase := ⟨1, Runs.start_phase junk.heap⟩
    room := fun on => Bool.noConfusion on
    presented := fun off => Bool.noConfusion off
    counted := ⟨rfl, fun on => Bool.noConfusion on, Or.inl rfl⟩
    pending := fun _ other => absurd rfl other
    rising := fun on => Bool.noConfusion on }

variable {w : World g} {i : Inputs g} {now : Nat}

theorem heap_pop : HeapTop.pop w.heap (event w i) = pop w i := by
  show (pop w i && !HeapTop.busy w.heap) = pop w i
  cases busy : HeapTop.busy w.heap with
  | true => simp only [pop, busy, Bool.not_true, Bool.and_false, Bool.false_and]
  | false => rw [Bool.not_false, Bool.and_true]

theorem pop_quiet (pops : pop w i = true) : HeapTop.busy w.heap = false ∧ HeapTop.emptyOut w.heap =
    false ∧ w.popReq ≠ 0 ∧ w.out.popAck = false := by
  simp only [pop, Bool.and_eq_true, Bool.not_eq_true', decide_eq_true_eq] at pops
  exact ⟨pops.1.1.1.2, pops.1.2, pops.1.1.1.1, pops.2⟩

theorem Requesting.queue (requesting : Requesting w now) (quiet : HeapTop.busy w.heap = false) :
    HeapTop.Queue g.idxWidth w.heap := by
  obtain ⟨m, phase⟩ := requesting.phase
  exact (phase.quiet quiet).queue

theorem Requesting.request (requesting : Requesting w now) (silent : i.control.dbg = false) :
    HeapTop.Request g.idxWidth w.heap (event w i) := by
  constructor
  · intro pops none
    rw [heap_pop] at pops
    obtain ⟨quiet, some, _⟩ := pop_quiet pops
    have empty := (requesting.queue quiet).empty.mpr none
    exact Bool.noConfusion (some.symm.trans empty)
  · intro pushes _ all
    have both : (w.input.push && !HeapTop.busy w.heap) = true := pushes
    rw [Bool.and_eq_true, Bool.not_eq_true'] at both
    have full := (requesting.queue both.2).full.mpr all
    exact Bool.noConfusion ((requesting.room both.1 both.2).symm.trans full)
  · show (i.control.dbg && !HeapTop.busy w.heap) = false
    rw [silent, Bool.false_and]

theorem Requesting.phase_step (requesting : Requesting w now) (punctual : Punctual w i) :
    ∃ m, Runs.Phase g.idxWidth (PriorityQueue.step w i).heap m := by
  obtain ⟨m, phase⟩ := requesting.phase
  exact phase.step (requesting.request punctual.silent) punctual.alike

theorem served_busy {h : HeapTop.World g.keyWidth g.valWidth} {e : HeapTop.Event g.keyWidth g.valWidth}
    (idle : Queue.Idle g.idxWidth h) (request : HeapTop.Request g.idxWidth h e)
    (asked : HeapTop.push h e = true ∨ HeapTop.pop h e = true) :
    HeapTop.busy (HeapTop.step g.idxWidth h e) = true := by
  have next : Pathfinder.nextState g.idxWidth h.pf (HeapTop.pfIn h e) ≠ .idle := by
    have notEmpty (pops : HeapTop.pop h e = true) : Pathfinder.empty h.pf = false :=
      eq_false_of_ne_true fun empty => request.some pops (idle.queue.empty.mp empty)
    have notFull (pushes : HeapTop.push h e = true) (noPop : HeapTop.pop h e = false) :
      Pathfinder.full g.idxWidth h.pf = false :=
      eq_false_of_ne_true fun full => request.room pushes noPop (idle.queue.full.mp full)
    cases pushes : HeapTop.push h e with
    | false =>
      have pops := asked.resolve_left (by rw [pushes]; exact Bool.false_ne_true)
      rw [Pathfinder.nextState_pop idle.state pushes pops (notEmpty pops)]
      split <;> exact Pathfinder.OpState.noConfusion
    | true =>
      cases pops : HeapTop.pop h e with
      | false =>
        rw [Pathfinder.nextState_push idle.state pushes pops (notFull pushes pops)]
        exact Pathfinder.OpState.noConfusion
      | true =>
        rw [Pathfinder.nextState_replace idle.state pushes pops]
        exact Pathfinder.OpState.noConfusion
  show (Pathfinder.nextState g.idxWidth h.pf (HeapTop.pfIn h e) != .idle || _) = true
  rw [bne_iff_ne.mpr next, Bool.true_or]

theorem push_step (pushes : (PriorityQueue.step w i).input.push = true) :
    HeapTop.fullOut g.idxWidth w.heap = false ∧ HeapTop.busy w.heap = false := by
  have accepted : (i.snk.cyc && i.snk.stb && !snkStall w i) = true := by
    by_contra idle
    have none : (dataIn w i).push = false := by rw [dataIn, if_neg idle]; rfl
    exact Bool.noConfusion (none.symm.trans pushes)
  simp only [snkStall, Bool.and_eq_true, Bool.not_eq_true', Bool.or_eq_false_iff] at accepted
  exact ⟨accepted.2.1.1.2, accepted.2.1.2⟩

theorem Requesting.room_step (requesting : Requesting w now) (punctual : Punctual w i)
    (pushes : (PriorityQueue.step w i).input.push = true) (quiet : HeapTop.busy (PriorityQueue.step w i).heap = false) :
    HeapTop.fullOut g.idxWidth (PriorityQueue.step w i).heap = false := by
  obtain ⟨room, before⟩ := push_step pushes
  obtain ⟨m, phase⟩ := requesting.phase
  have idle := phase.quiet before
  have request := requesting.request punctual.silent
  have noPush : HeapTop.push w.heap (event w i) = false :=
    eq_false_of_ne_true fun push => Bool.noConfusion (quiet.symm.trans (served_busy idle request (Or.inl push)))
  have noPop : HeapTop.pop w.heap (event w i) = false :=
    eq_false_of_ne_true fun pop => Bool.noConfusion (quiet.symm.trans (served_busy idle request (Or.inr pop)))
  obtain ⟨_, _, _, last, _⟩ := Queue.idle_registers (w := g.idxWidth) idle.state noPush noPop
  show (((PriorityQueue.step w i).heap.pf.last == 2 ^ g.idxWidth - 1) : Bool) = false
  rw [show (PriorityQueue.step w i).heap.pf.last = w.heap.pf.last from last]
  exact room

theorem Requesting.presented_step (requesting : Requesting w now) (some : (PriorityQueue.step w i).empty = false) :
    (PriorityQueue.step w i).out.regOut = (PriorityQueue.step w i).heap.shown := by
  have kept : flag w = false := some
  rw [regOut_step]
  show _ = if w.heap.wr.out then w.heap.wr.data else w.heap.shown
  split
  · rfl
  · next silent =>
    rw [flag, if_neg silent] at kept
    exact requesting.presented kept

theorem SomeDue.step {later : Nat} (some : SomeDue w now) (noPop : pop w i = false) (after : now ≤ later) :
    SomeDue (PriorityQueue.step w i) later := by
  obtain ⟨entry, member, due⟩ := some
  refine ⟨entry, ?_, due.trans after⟩
  show entry ∈ HeapTop.bagAfter w.heap (event w i)
  rw [HeapTop.bagAfter, heap_pop, noPop]
  cases HeapTop.push w.heap (event w i) with
  | false => exact member
  | true => exact Multiset.mem_cons_of_mem member

theorem toNat_le_sub_add {k : Nat} (a b : BitVec k) : a.toNat ≤ (a - b).toNat + b.toNat :=
  calc a.toNat = (a - b + b).toNat := by rw [BitVec.sub_add_cancel]
    _ ≤ (a - b).toNat + b.toNat := (BitVec.toNat_add (a - b) b).trans_le (Nat.mod_le _ _)

theorem due_horizon (isDue : due w i = true) : w.out.regOut.key.toNat ≤ horizon i := by
  have late : (duetime w i).toNat ≤ i.time.toNat := by
    rw [due, Bool.not_eq_true', decide_eq_false_iff_not, Nat.not_lt] at isDue
    exact isDue
  have widen (t : BitVec 64) : (t.setWidth g.keyWidth).toNat = t.toNat := BitVec.toNat_setWidth_of_le g.key_wide
  have first := toNat_le_sub_add w.out.regOut.key (i.control.tDue.setWidth g.keyWidth)
  have second := toNat_le_sub_add (w.out.regOut.key - i.control.tDue.setWidth g.keyWidth)
    (i.control.tTrn.setWidth g.keyWidth)
  rw [widen] at first second
  rw [duetime] at late
  rw [horizon]
  omega

theorem Requesting.rising_step (requesting : Requesting w now) (punctual : Punctual w i) (noPop : pop w i = false)
    (rises : (PriorityQueue.step w i).auto.due0 = true) (low : (PriorityQueue.step w i).auto.due1 = false) :
    SomeDue (PriorityQueue.step w i) (horizon i) := by
  have member := punctual.fresh low rises
  have parts : (due w i && i.control.autopop && !w.empty && !w.out.popAck) = true := rises
  simp only [Bool.and_eq_true, Bool.not_eq_true'] at parts
  have key := due_horizon parts.1.1.1
  rw [requesting.presented parts.1.2] at key
  exact SomeDue.step ⟨w.heap.shown, member, key⟩ noPop le_rfl

theorem popReq_step (punctual : Punctual w i) :
    (PriorityQueue.step w i).popReq = w.popReq - (if w.out.popReqDec then 1 else 0) +
    (if autoPop w && i.control.ena then 1 else 0) := by
  show w.popReq - (if w.out.popReqDec then 1 else 0) + (if (i.control.forcePop || autoPop w) &&
    i.control.ena then 1 else 0) = _
  rw [punctual.auto, Bool.false_or]

theorem no_request (punctual : Punctual w i) (either : w.auto.due0 = false ∨ w.popReq ≠ 0) :
    (autoPop w && i.control.ena) = false := by
  by_contra request
  have both := eq_true_of_ne_false request
  rw [Bool.and_eq_true] at both
  rcases either with low | some
  · rw [autoPop, low, Bool.false_and] at both
    exact Bool.noConfusion both.1
  · exact some (punctual.single both.1 both.2)

theorem due0_step (acked : w.out.popAck = true) : (PriorityQueue.step w i).auto.due0 = false := by
  show (due w i && i.control.autopop && !w.empty && !w.out.popAck) = false
  rw [acked, Bool.not_true, Bool.and_false]

theorem popReqDec_step : (PriorityQueue.step w i).out.popReqDec = (w.out.state == .ebmCfg && !i.srcStall) := by
  show (dataOutMain w i).popReqDec = _
  cases state : w.out.state with
  | ebmCfg => cases stall : i.srcStall <;> simp only [dataOutMain, state, stall, Bool.false_eq_true,
      if_false, if_true] <;> rfl
  | idle =>
    simp only [dataOutMain, state]
    cases w.out.send <;> cases takes w i <;> rfl
  | shiftOut =>
    simp only [dataOutMain, state]
    cases i.srcStall <;> cases lastWord w <;> rfl
  | ebmFlush =>
    simp only [dataOutMain, state]
    cases i.srcStall <;> rfl
  | ebmChk | waitIdle | error =>
    simp only [dataOutMain, state]
    rfl

theorem popAck_step (working : w.out.state ≠ .idle) : (PriorityQueue.step w i).out.popAck = w.out.popAck := by
  show (dataOutMain w i).popAck = (dataOutDefault w).popAck
  unfold dataOutMain
  split
  · next state => exact absurd state working
  · rfl
  · split <;> rfl
  · split
    · rfl
    · split <;> rfl
  · rfl
  · split <;> rfl
  · rfl

theorem popAck_idle (idle : w.out.state = .idle) : (PriorityQueue.step w i).out.popAck = takes w i := by
  show (dataOutMain w i).popAck = _
  simp only [dataOutMain, idle]
  cases sends : w.out.send with
  | true =>
    rw [takes, sends]
    rfl
  | false => cases takes w i <;> rfl

theorem counted_resting (resting : Resting w.out.state) :
    Counted w ↔ w.out.popReqDec = false ∧ (w.out.popAck = true → w.popReq = 0 ∧ w.auto.due0 = false) ∧
      (w.popReq = 0 ∨ w.popReq = 1) := by
  unfold Counted
  split
  · next state => exact absurd state resting.1
  · next state => exact absurd state resting.2.1
  · next state => exact absurd state resting.2.2
  · exact Iff.rfl

theorem popReq_resting (punctual : Punctual w i) (dec : w.out.popReqDec = false) (one : w.popReq = 0 ∨ w.popReq = 1) :
    (PriorityQueue.step w i).popReq = 0 ∨ (PriorityQueue.step w i).popReq = 1 := by
  rw [popReq_step punctual, dec]
  cases request : autoPop w && i.control.ena with
  | false => simpa using one
  | true =>
    rw [Bool.and_eq_true] at request
    rw [punctual.single request.1 request.2]
    simp

section
variable (requesting : Requesting w now)
include requesting

theorem Requesting.counted_step (punctual : Punctual w i) : Counted (PriorityQueue.step w i) := by
  have counted := requesting.counted
  have next : (PriorityQueue.step w i).out.state = nextState w i := rfl
  have held (some : w.popReq = 1) (dec : w.out.popReqDec = false) : (PriorityQueue.step w i).popReq = 1 := by
    have other : w.popReq ≠ 0 := by
      rw [some]
      simp
    rw [popReq_step punctual, no_request punctual (Or.inr other), some, dec]
    simp
  cases state : w.out.state with
  | idle =>
    obtain ⟨dec, _, one⟩ := (counted_resting (by rw [state]; decide)).mp counted
    have noDec : (PriorityQueue.step w i).out.popReqDec = false := by rw [popReqDec_step, state]; rfl
    cases pops : pop w i with
    | true =>
      obtain ⟨_, noSend, ready⟩ := punctual.taken pops
      have takes : takes w i = true := by rw [takes, noSend, pops, ready]; rfl
      have some : w.popReq = 1 := one.resolve_left (pop_quiet pops).2.2.1
      simp only [nextState, state, noSend, takes, Bool.false_eq_true, if_false, if_true] at next
      simp only [Counted, next]
      exact ⟨(popAck_idle state).trans takes, held some dec, noDec⟩
    | false =>
      have noTake : takes w i = false := by rw [takes, pops, Bool.and_false, Bool.false_and]
      rw [counted_resting (resting_step (by rw [state]; decide) pops)]
      exact ⟨noDec, fun acked => Bool.noConfusion (((popAck_idle state).trans noTake).symm.trans acked),
        popReq_resting punctual dec one⟩
  | ebmChk =>
    simp only [Counted, state] at counted
    obtain ⟨acked, some, dec⟩ := counted
    simp only [nextState, state] at next
    simp only [Counted, next]
    exact ⟨(popAck_step (by rw [state]; exact StateOut.noConfusion)).trans acked,
      held some dec, by rw [popReqDec_step, state]; rfl,
      due0_step acked⟩
  | ebmCfg =>
    simp only [Counted, state] at counted
    obtain ⟨acked, some, dec, _⟩ := counted
    have acked' := (popAck_step (i := i) (by rw [state]; exact StateOut.noConfusion)).trans acked
    have dec' : (PriorityQueue.step w i).out.popReqDec = !i.srcStall := by rw [popReqDec_step, state]; rfl
    cases stall : i.srcStall with
    | true =>
      simp only [nextState, state, stall, if_true] at next
      simp only [Counted, next]
      exact ⟨acked', held some dec, by rw [dec', stall]; rfl, due0_step acked⟩
    | false =>
      simp only [nextState, state, stall, Bool.false_eq_true, if_false] at next
      simp only [Counted, next]
      exact ⟨acked', by rw [held some dec, dec', stall]; rfl, due0_step acked⟩
  | shiftOut =>
    simp only [Counted, state] at counted
    obtain ⟨acked, count, low⟩ := counted
    have acked' := (popAck_step (i := i) (by rw [state]; exact StateOut.noConfusion)).trans acked
    have dec' : (PriorityQueue.step w i).out.popReqDec = false := by rw [popReqDec_step, state]; rfl
    have none : (PriorityQueue.step w i).popReq = 0 := by
      rw [popReq_step punctual, no_request punctual (Or.inl low), count]
      simp
    by_cases more : (PriorityQueue.step w i).out.state = .shiftOut
    · simp only [Counted, more]
      exact ⟨acked', by rw [none, dec']; rfl, due0_step acked⟩
    · have resting : Resting (PriorityQueue.step w i).out.state := by
        rw [next]
        simp only [nextState, state] at next ⊢
        rw [next] at more
        revert more
        cases i.srcStall <;> cases lastWord w <;> cases w.out.send <;> decide
      rw [counted_resting resting]
      exact ⟨dec', fun _ => ⟨none, due0_step acked⟩, Or.inl none⟩
  | waitIdle | ebmFlush | error =>
    obtain ⟨dec, quiet, one⟩ := (counted_resting (by rw [state]; decide)).mp counted
    have noPop : pop w i = false :=
      eq_false_of_ne_true fun pops => StateOut.noConfusion (state.symm.trans (punctual.taken pops).1)
    rw [counted_resting (resting_step (by rw [state]; decide) noPop),
      popAck_step (by rw [state]; exact StateOut.noConfusion)]
    refine ⟨by rw [popReqDec_step, state]; rfl, fun acked => ?_, popReq_resting punctual dec one⟩
    obtain ⟨none, low⟩ := quiet acked
    rw [popReq_step punctual, no_request punctual (Or.inl low), none, dec]
    exact ⟨by simp, due0_step acked⟩

theorem Requesting.pending_step (punctual : Punctual w i) (later : now ≤ horizon i)
    (noPop : pop w i = false) (unacked : (PriorityQueue.step w i).out.popAck = false)
    (asked : (PriorityQueue.step w i).popReq ≠ 0) :
    SomeDue (PriorityQueue.step w i) (horizon i) := by
  have counted := requesting.counted
  cases request : autoPop w && i.control.ena with
  | true =>
    rw [Bool.and_eq_true] at request
    have none := punctual.single request.1 request.2
    have edge := request.1
    rw [autoPop, Bool.and_eq_true, Bool.not_eq_true'] at edge
    exact (requesting.rising edge.1 edge.2 none).step noPop later
  | false =>
    rw [popReq_step punctual, request] at asked
    cases acked : w.out.popAck with
    | false =>
      by_cases none : w.popReq = 0
      · -- nothing is counted back while no entry is on its way
        have dec : w.out.popReqDec = false := by
          unfold Counted at counted
          split at counted
          · exact counted.2.2
          · exact counted.2.2.1
          · exact Bool.noConfusion (acked.symm.trans counted.1)
          · exact counted.1
        rw [none, dec] at asked
        simp at asked
      · exact (requesting.pending acked none).step noPop later
    | true =>
      by_cases idle : w.out.state = .idle
      · obtain ⟨dec, quiet, _⟩ := (counted_resting (by rw [idle]; decide)).mp counted
        rw [(quiet acked).1, dec] at asked
        simp at asked
      · exact Bool.noConfusion (acked.symm.trans ((popAck_step idle).symm.trans unacked))

theorem Requesting.step (punctual : Punctual w i) (later : now ≤ horizon i) :
    Requesting (PriorityQueue.step w i) (horizon i) := by
  have counted := requesting.counted_step punctual
  refine
    { phase := requesting.phase_step punctual
      room := requesting.room_step punctual
      presented := requesting.presented_step
      counted := counted
      pending := ?_
      rising := ?_ }
  all_goals cases pops : pop w i
  · exact requesting.pending_step punctual later pops
  · -- the machine acknowledges the pop
    obtain ⟨state, noSend, ready⟩ := punctual.taken pops
    intro unacked
    rw [popAck_idle state, takes, noSend, pops, ready] at unacked
    exact Bool.noConfusion unacked
  · exact fun rises low _ => requesting.rising_step punctual pops rises low
  · obtain ⟨state, noSend, ready⟩ := punctual.taken pops
    intro _ _ none
    have next : (PriorityQueue.step w i).out.state = .ebmChk := by
      show nextState w i = _
      have takes : takes w i = true := by rw [takes, noSend, pops, ready]; rfl
      simp only [nextState, state, noSend, takes, Bool.false_eq_true, if_false, if_true]
    simp only [Counted, next] at counted
    rw [none] at counted
    simp at counted

theorem Requesting.punctual_pop (later : now ≤ horizon i) : ¬Early w i := by
  rintro ⟨pops, early⟩
  obtain ⟨quiet, _, asked, unacked⟩ := pop_quiet pops
  obtain ⟨entry, member, due⟩ := requesting.pending unacked asked
  have some : w.heap.bag ≠ 0 := fun none => by
    rw [none] at member
    exact absurd member (Multiset.notMem_zero entry)
  have least : w.heap.shown.key.toNat ≤ entry.key.toNat := ((requesting.queue quiet).least some).2 entry member
  omega

theorem Requesting.run {inputs : List (Inputs g)}
    (along : Along PriorityQueue.step Punctual w inputs) (later : ∀ i ∈ inputs, now ≤ horizon i)
    (forward : inputs.Pairwise fun i j => horizon i ≤ horizon j) :
    Along PriorityQueue.step (fun w i => ¬Early w i) w inputs := by
  induction inputs generalizing w now with
  | nil => trivial
  | cons i inputs ih =>
    obtain ⟨punctual, along⟩ := along
    obtain ⟨here, rest⟩ := List.pairwise_cons.mp forward
    have first := later i List.mem_cons_self
    exact ⟨requesting.punctual_pop first, ih (requesting.step punctual first) along here rest⟩

end

/-- While the time and the windows do not go back, no entry is removed before it is due in any
run whose clocks are punctual. -/
theorem no_early_dispatch (junk : Junk g) (inputs : List (Inputs g))
    (along : Along PriorityQueue.step Punctual (start junk) inputs)
    (forward : inputs.Pairwise fun i j => horizon i ≤ horizon j) :
    Along PriorityQueue.step (fun w i => ¬Early w i) (start junk) inputs :=
  (requesting_start junk).run along (fun i _ => Nat.zero_le (horizon i)) forward

def automatic (i : Inputs small) : Inputs small :=
  { i with time := 100, control := { i.control with autopop := true } }

/-- An entry that is due goes in and out, and the source bus acknowledges what it takes. -/
def oneEntry : List (Inputs small) := (insert 5 ++ List.replicate 4 { wait with srcAck := true }).map automatic

theorem no_early_dispatch_one : Along PriorityQueue.step (fun w i => ¬Early w i) (start junk) oneEntry :=
  no_early_dispatch junk oneEntry (by decide +kernel) (by decide +kernel)

/-- After it comes one that is not due. It finds a request that was made for the first one, when
that had left the heap empty, and is removed as soon as it is in. -/
theorem stale_request_pops :
    ¬Along PriorityQueue.step (fun w i => ¬Early w i) (start junk)
      (oneEntry ++ (List.replicate 8 wait ++ insert 900).map automatic) := by
  decide +kernel

end BelProject.Ftm.DueTime
