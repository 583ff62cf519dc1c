import BelProject.Heap.Downward

/-! The heap is a priority queue. An operation runs through setup, walk, the writes that are
left, and the clocks in which the first entry is presented and the last one copied; every
clock leads from one of these phases into another, and the heap is not busy in one only. -/

namespace BelProject.Heap.Queue
open BelProject.Library.BinaryHeap
open Pathfinder (adr1 adrModeOf childGreParent clock dpramRead empty fGetParent full highestLevel
  lowestLevel main_idle main_pop main_push main_update nextState_pop parentLeChildren posFound valid)
open Writer (Entry done nextState rdAdrModeOf rdIdx wrVal)
open HeapTop Pipeline Upward Downward
open Pathfinder.OpState (heapDown heapUp idle noConfusion update)

variable {k v : Nat}

/-- The moving entry is about to be written. -/
structure Placing (w : Nat) (h : World k v) (s : Nat → Entry k v) (n c : Nat) (moving : Entry k v) : Prop where
  state : h.pf.state = .idle
  adrMode : h.pf.adrMode = .default
  pfBusy : h.pf.busy = false
  last : h.pf.last = n
  wrBusy : h.wr.busy = true
  writer : h.wr.state = .copy
  mov : h.wr.mov = moving
  en0 : h.wr.en0 = false
  en1 : h.wr.en1 = true
  idx1 : h.wr.wrIdx1 = c
  fin0 : h.wr.fin0 = false
  fin1 : h.wr.fin1 = true
  ram : h.wr.ram = s
  agree : ∀ i, 1 ≤ i → i ≤ n → i ≠ c → Agree h i
  result : Result w s n c moving h.bag

/-- The RAM holds the heap of the abstract queue and nothing is written any more. -/
structure Content (w : Nat) (h : World k v) : Prop where
  state : h.pf.state = .idle
  adrMode : h.pf.adrMode = .default
  pfBusy : h.pf.busy = false
  wrBusy : h.wr.busy = true
  en0 : h.wr.en0 = false
  en1 : h.wr.en1 = false
  positive : 1 ≤ h.pf.last
  fits : h.pf.last < 2 ^ w
  agree : ∀ i, 1 ≤ i → i ≤ h.pf.last → Agree h i
  ordered : Ordered rank h.wr.ram h.pf.last
  bag : h.bag = entries h.wr.ram h.pf.last

/-- The writer finishes: one clock to see the end of the walk, one to read the first entry, one
to read the last one, and one to keep it. -/
inductive Finishing (h : World k v) : Nat → Prop where
  | copied (writer : h.wr.state = .copy) (fin1 : h.wr.fin1 = false) (fin2 : h.wr.fin2 = true) : Finishing h 3
  | first (writer : h.wr.state = .setAdr1st) (mode : h.wr.rdAdrMode = .output)
      (qa1 : h.pf.qa1 = (h.wr.ram h.pf.last).key) : Finishing h 2
  | last (writer : h.wr.state = .setAdrLastCpy1st) (mode : h.wr.rdAdrMode = .update) (rdVal : h.wr.rdVal = h.wr.ram 1)
      (qa1 : h.pf.qa1 = (h.wr.ram h.pf.last).key) : Finishing h 1
  | kept (writer : h.wr.state = .cpyLast) (out : h.wr.out = true) (data : h.wr.data = h.wr.ram 1)
      (rdVal : h.wr.rdVal = h.wr.ram h.pf.last) (qa1 : h.pf.qa1 = (h.wr.ram h.pf.last).key)
      (mov : h.pf.mov = (h.wr.ram h.pf.last).key) : Finishing h 0

/-- Between operations. The copies of the last entry are at hand, and what the writer presented
is the first one. -/
structure Idle (w : Nat) (h : World k v) : Prop where
  state : h.pf.state = .idle
  adrMode : h.pf.adrMode = .default
  pfBusy : h.pf.busy = false
  writer : h.wr.state = .idle
  out : h.wr.out = false
  fits : h.pf.last < 2 ^ w
  still : 1 ≤ h.pf.last → h.wr.en0 = false ∧ h.wr.en1 = false
  agree : ∀ i, 1 ≤ i → i ≤ h.pf.last → Agree h i
  ordered : Ordered rank h.wr.ram h.pf.last
  bag : h.bag = entries h.wr.ram h.pf.last
  copies : 1 ≤ h.pf.last → h.pf.qa1 = (h.wr.ram h.pf.last).key ∧ h.pf.mov = (h.wr.ram h.pf.last).key ∧
    h.wr.mov = h.wr.ram h.pf.last ∧ h.shown = h.wr.ram 1

/-- A pop of the only entry needs no walk. -/
structure Emptying (h : World k v) : Prop where
  busy : h.pf.busy = true
  state : h.pf.state = .update
  newLast : h.pf.newLast = 0
  writer : h.wr.state = .idle
  bag : h.bag = 0

variable {w n p : Nat} {h : World k v} {e : Event k v} {a : Nat → Entry k v} {moving : Entry k v}
  {past : List Nat} {j : Nat}

theorem idle_registers (state : h.pf.state = .idle) (noPush : push h e = false) (noPop : pop h e = false) :
    (step w h e).pf.state = .idle ∧ (step w h e).pf.adrMode = .default ∧ (step w h e).pf.busy = false ∧
      (step w h e).pf.last = h.pf.last ∧ (step w h e).pf.mov = h.pf.qa1 := by
  have next : Pathfinder.nextState w h.pf (pfIn h e) = .idle := Pathfinder.nextState_wait state noPush noPop
  have main : Pathfinder.main w h.pf (pfIn h e) = _ := main_idle state noPush noPop
  refine ⟨next, ?_, ?_, ?_, ?_⟩
  · show adrModeOf (Pathfinder.nextState w h.pf (pfIn h e)) = _
    rw [next]
    rfl
  · show (Pathfinder.nextState w h.pf (pfIn h e) != .idle) = false
    rw [next]
    rfl
  all_goals simp only [step, clock, main]

theorem idle_signals (state : h.pf.state = .idle) : valid h.pf = false ∧ posFound w h.pf = false := by
  constructor
  · rw [valid, state]
    rfl
  · rw [posFound, parentLeChildren, lowestLevel, childGreParent, highestLevel, state]
    have up : (idle == heapUp) = false := rfl
    have down : (idle == heapDown) = false := rfl
    rw [up, down, Bool.and_false, Bool.and_false, Bool.and_false, Bool.and_false]
    rfl

theorem idle_reads (adrMode : h.pf.adrMode = .default) (still : h.wr.en1 = false) :
    (step w h e).pf.qa1 = h.pf.ram1 h.pf.last := by
  have address : adr1 w h.pf = some h.pf.last := by rw [adr1, adrMode]
  rw [step_qa1 address, read_clear (fun on => by rw [still] at on; cases on)]

theorem wrBusy_busy (busy : h.wr.busy = true) : HeapTop.busy h = true := by rw [HeapTop.busy, busy, Bool.or_true]

theorem Closing.step (closing : Closing w h a n moving p past) :
    Placing w (step w h e) (shift a (p :: past)) n p moving := by
  obtain ⟨⟨fin1, trail⟩, state, newLast, result⟩ := closing
  have next : Pathfinder.nextState w h.pf (pfIn h e) = .idle := by rw [Pathfinder.nextState, state]
  have main : Pathfinder.main w h.pf (pfIn h e) = _ := main_update state
  have signals : valid h.pf = false ∧ posFound w h.pf = false := by
    constructor
    · rw [valid, state]
      rfl
    · rw [posFound, parentLeChildren, lowestLevel, childGreParent, highestLevel, state]
      have up : (update == heapUp) = false := rfl
      have down : (update == heapDown) = false := rfl
      rw [up, down, Bool.and_false, Bool.and_false, Bool.and_false, Bool.and_false]
      rfl
  have copying : h.wr.state = .copy := trail.state
  have wrNext : nextState h.wr (wrIn w h e) = .copy := by
    have notDone : done h.wr = false := by rw [done, trail.fin2 (List.cons_ne_nil _ _)]; rfl
    rw [nextState, copying]
    simp only [notDone, Bool.false_eq_true, if_false]
  refine
    { state := next, adrMode := ?_, pfBusy := ?_, last := ?_, wrBusy := ?_, writer := wrNext, mov := ?_,
      en0 := signals.1
      en1 := trail.en0, idx1 := trail.idx0 p past rfl, fin0 := signals.2, fin1 := trail.fin0
      ram := trail.ram_step (fun _ => rfl), agree := ?_, result := ?_ }
  · show adrModeOf (Pathfinder.nextState w h.pf (pfIn h e)) = _
    rw [next]
    rfl
  · show (Pathfinder.nextState w h.pf (pfIn h e) != .idle) = false
    rw [next]
    rfl
  · show (Pathfinder.main w h.pf (pfIn h e)).last = n
    rw [main]
    exact newLast
  · show (nextState h.wr (wrIn w h e) != .idle) = true
    rw [wrNext]
    rfl
  · show (if h.wr.state = .idle && push h e then e.data else if h.wr.state = .cpyLast then h.wr.rdVal
      else h.wr.mov) = moving
    rw [copying]
    exact trail.mov
  · intro i one small other
    apply trail.agree_step one small
    simp [other]
  · rw [busy_bag trail.busy]
    exact result

theorem Placing.step {s : Nat → Entry k v} {c : Nat} (placing : Placing w h s n c moving) :
    Content w (step w h e) ∧ Finishing (step w h e) 3 := by
  have busy := wrBusy_busy placing.wrBusy
  obtain ⟨state, adrMode, pfBusy, last, _⟩ :=
    idle_registers (w := w) (e := e) placing.state (busy_push busy) (busy_pop busy)
  obtain ⟨notValid, notFound⟩ := idle_signals (w := w) placing.state
  have last : (HeapTop.step w h e).pf.last = n := last.trans placing.last
  have wrNext : nextState h.wr (wrIn w h e) = .copy := by
    have notDone : done h.wr = false := by rw [done, placing.fin1, Bool.not_true, Bool.and_false]
    rw [nextState, placing.writer]
    simp only [notDone, Bool.false_eq_true, if_false]
  have value : wrVal h.wr = moving := by
    rw [wrVal, placing.fin0, placing.fin1, placing.mov]
    rfl
  have ram : (HeapTop.step w h e).wr.ram = Function.update s c moving := by
    rw [ram_write placing.en1, value, placing.idx1, placing.ram]
  have result := placing.result
  constructor
  · refine
      { state := state, adrMode := adrMode, pfBusy := pfBusy, wrBusy := ?_, en0 := notValid,
        en1 := placing.en0, positive := ?_
        fits := ?_, agree := ?_, ordered := ?_, bag := ?_ }
    · show (nextState h.wr (wrIn w h e) != .idle) = true
      rw [wrNext]
      rfl
    · rw [last]
      exact result.positive.trans result.small
    · rw [last]
      exact result.fits
    · intro i one small
      rw [last] at small
      apply agree_step
      by_cases here : i = c
      · exact Or.inl ⟨placing.en1, placing.idx1.trans here.symm⟩
      · exact Or.inr (placing.agree i one small here)
    · rw [last, ram]
      exact result.ordered
    · rw [last, ram, entries_fill moving result.positive result.small, busy_bag busy]
      exact result.bag
  · exact .copied wrNext placing.fin0 placing.fin1

theorem Content.step (content : Content w h) (wrBusy : nextState h.wr (wrIn w h e) ≠ .idle) :
    Content w (step w h e) := by
  have busy := wrBusy_busy content.wrBusy
  obtain ⟨state, adrMode, pfBusy, last, _⟩ :=
    idle_registers (w := w) (e := e) content.state (busy_push busy) (busy_pop busy)
  obtain ⟨notValid, _⟩ := idle_signals (w := w) content.state
  have ram : (HeapTop.step w h e).wr.ram = h.wr.ram := ram_still content.en1
  refine
    { state := state, adrMode := adrMode, pfBusy := pfBusy, wrBusy := ?_, en0 := notValid,
      en1 := content.en0, positive := ?_
      fits := ?_, agree := ?_, ordered := ?_, bag := ?_ }
  · show (nextState h.wr (wrIn w h e) != .idle) = true
    simp [wrBusy]
  · rw [last]
    exact content.positive
  · rw [last]
    exact content.fits
  · intro i one small
    rw [last] at small
    exact agree_step (Or.inr (content.agree i one small))
  · rw [last, ram]
    exact content.ordered
  · rw [last, ram, busy_bag busy]
    exact content.bag

theorem Content.qa1 (content : Content w h) :
    (HeapTop.step w h e).pf.qa1 = ((HeapTop.step w h e).wr.ram (HeapTop.step w h e).pf.last).key := by
  have busy := wrBusy_busy content.wrBusy
  obtain ⟨_, _, _, last, _⟩ := idle_registers (w := w) (e := e) content.state (busy_push busy) (busy_pop busy)
  rw [idle_reads content.adrMode content.en1, last, ram_still content.en1]
  exact (content.agree _ content.positive le_rfl).2

theorem Content.rdVal (content : Content w h) {i : Nat} (address : rdIdx h.wr (wrIn w h e) = i) :
    (HeapTop.step w h e).wr.rdVal = (HeapTop.step w h e).wr.ram i := by
  show dpramRead h.wr.ram (rdIdx h.wr (wrIn w h e)) h.wr.en1 h.wr.wrIdx1 e.clash = _
  rw [address, ram_still content.en1, read_clear (fun on => by rw [content.en1] at on; cases on)]

/-- What the clocks after the last write lead to. -/
inductive Finished (w : Nat) (h : World k v) : Nat → Prop where
  | more {i : Nat} (content : Content w h) (finishing : Finishing h i) : Finished w h (i + 1)
  | idle (idle : Idle w h) (notBusy : h.wr.busy = false) : Finished w h 0

theorem Finishing.step {i : Nat} (finishing : Finishing h i) (content : Content w h) : Finished w (step w h e) i := by
  have busy := wrBusy_busy content.wrBusy
  obtain ⟨state, adrMode, pfBusy, last, mov⟩ :=
    idle_registers (w := w) (e := e) content.state (busy_push busy) (busy_pop busy)
  have ram : (HeapTop.step w h e).wr.ram = h.wr.ram := ram_still content.en1
  have qa1 := content.qa1 (e := e)
  cases finishing with
  | copied writer fin1 fin2 =>
    have next : nextState h.wr (wrIn w h e) = .setAdr1st := by
      have done : done h.wr = true := by rw [done, fin1, fin2]; rfl
      rw [nextState, writer]
      simp only [done, if_true]
    refine .more (content.step (by rw [next]; exact Writer.OpState.noConfusion)) (.first next ?_ qa1)
    show rdAdrModeOf (nextState h.wr (wrIn w h e)) = .output
    rw [next]
    rfl
  | first writer mode _ =>
    have next : nextState h.wr (wrIn w h e) = .setAdrLastCpy1st := by rw [nextState, writer]
    refine .more (content.step (by rw [next]; exact Writer.OpState.noConfusion)) (.last next ?_ (content.rdVal ?_) qa1)
    · show rdAdrModeOf (nextState h.wr (wrIn w h e)) = .update
      rw [next]
      rfl
    · rw [rdIdx, mode]
  | last writer mode rdVal old =>
    have next : nextState h.wr (wrIn w h e) = .cpyLast := by rw [nextState, writer]
    refine .more (content.step (by rw [next]; exact Writer.OpState.noConfusion))
      (.kept next ?_ ?_ (content.rdVal ?_) qa1 ?_)
    · show (h.wr.state == .setAdrLastCpy1st) = true
      rw [writer]
      rfl
    · show h.wr.rdVal = _
      rw [ram]
      exact rdVal
    · rw [rdIdx, mode, last]
      rfl
    · rw [mov, last, ram]
      exact old
  | kept writer out data rdVal old _ =>
    have next : nextState h.wr (wrIn w h e) = .idle := by rw [nextState, writer]
    obtain ⟨notValid, _⟩ := idle_signals (w := w) content.state
    refine .idle ?_ ?_
    · refine
        { state := state, adrMode := adrMode, pfBusy := pfBusy, writer := next, out := ?_, fits := ?_,
          still := ?_, agree := ?_
          ordered := ?_, bag := ?_, copies := ?_ }
      · show (h.wr.state == .setAdrLastCpy1st) = false
        rw [writer]
        rfl
      · rw [last]
        exact content.fits
      · exact fun _ => ⟨notValid, content.en0⟩
      · intro i one small
        rw [last] at small
        exact agree_step (Or.inr (content.agree i one small))
      · rw [last, ram]
        exact content.ordered
      · rw [last, ram, busy_bag busy]
        exact content.bag
      · intro _
        refine ⟨qa1, ?_, ?_, ?_⟩
        · rw [mov, last, ram]
          exact old
        · show (if h.wr.state = .idle && push h e then e.data
            else if h.wr.state = .cpyLast then h.wr.rdVal else h.wr.mov) = _
          rw [busy_push busy, Bool.and_false, if_neg Bool.false_ne_true, if_pos writer, last, ram]
          exact rdVal
        · show (if h.wr.out then h.wr.data else h.shown) = _
          rw [if_pos out, ram]
          exact data
    · show (nextState h.wr (wrIn w h e) != .idle) = false
      rw [next]
      rfl

theorem emptyOut_eq : emptyOut h = decide (h.pf.last = 0) := by
  rw [emptyOut, empty]
  exact (Bool.beq_eq_decide_eq _ _)

theorem writer_waits (writer : h.wr.state = .idle) (silent : dbg h e = false) (notValid : valid h.pf = false) :
    nextState h.wr (wrIn w h e) = .idle := by
  rw [nextState, writer]
  show (if dbg h e then _ else if valid h.pf then _ else Writer.OpState.idle) = .idle
  rw [silent, notValid]
  rfl

theorem Idle.card (idle : Idle w h) : h.bag.card = h.pf.last := by rw [idle.bag, card_entries]

theorem Idle.queue (idle : Idle w h) : HeapTop.Queue w h := by
  refine
    { ordered := idle.ordered, keys := idle.agree, entries := idle.bag.symm, empty := ?_, full := ?_, least := ?_ }
  · rw [idle.card, emptyOut_eq, decide_eq_true_iff]
  · rw [idle.card, fullOut, full, beq_iff_eq]
  · intro some
    have positive : 1 ≤ h.pf.last := by
      rw [← idle.card]
      exact Multiset.card_pos.mpr some
    rw [(idle.copies positive).2.2.2, idle.bag]
    constructor
    · exact mem_entries.mpr ⟨1, le_rfl, positive, rfl⟩
    · intro entry member
      obtain ⟨i, one, small, rfl⟩ := mem_entries.mp member
      exact idle.ordered.root_le one small

theorem Idle.shown (idle : Idle w h) (positive : 1 ≤ h.pf.last) : h.bag = h.shown ::ₘ others h.wr.ram h.pf.last 1 := by
  rw [idle.bag, (idle.copies positive).2.2.2, entries_hole le_rfl positive]

theorem Idle.wait (idle : Idle w h) (noPush : push h e = false) (noPop : pop h e = false) (silent : dbg h e = false) :
    Idle w (step w h e) ∧ (step w h e).wr.busy = false := by
  obtain ⟨state, adrMode, pfBusy, last, mov⟩ := idle_registers (w := w) (e := e) idle.state noPush noPop
  obtain ⟨notValid, _⟩ := idle_signals (w := w) idle.state
  have next := writer_waits (w := w) idle.writer silent notValid
  have bag : (step w h e).bag = h.bag := by
    show bagAfter h e = h.bag
    rw [bagAfter, noPush, noPop]
  have ram : 1 ≤ h.pf.last → (step w h e).wr.ram = h.wr.ram := fun some => ram_still (idle.still some).2
  refine ⟨?_, ?_⟩
  · refine
      { state := state, adrMode := adrMode, pfBusy := pfBusy, writer := next, out := ?_, fits := ?_,
        still := ?_, agree := ?_
        ordered := ?_, bag := ?_, copies := ?_ }
    · show (h.wr.state == .setAdrLastCpy1st) = false
      rw [idle.writer]
      rfl
    · rw [last]
      exact idle.fits
    · rw [last]
      exact fun some => ⟨notValid, (idle.still some).1⟩
    · intro i one small
      rw [last] at small
      exact agree_step (Or.inr (idle.agree i one small))
    · intro i big small
      rw [last] at small
      rw [ram (by omega)]
      exact idle.ordered i big small
    · rw [last, bag, idle.bag]
      rcases Nat.eq_zero_or_pos h.pf.last with none | some
      · rw [none]
        rfl
      · rw [ram some]
    · rw [last]
      intro some
      obtain ⟨qa1, _, wrMov, shown⟩ := idle.copies some
      refine ⟨?_, ?_, ?_, ?_⟩
      · rw [idle_reads idle.adrMode (idle.still some).2, ram some]
        exact (idle.agree _ some le_rfl).2
      · rw [mov, ram some]
        exact qa1
      · show (if h.wr.state = .idle && push h e then e.data
          else if h.wr.state = .cpyLast then h.wr.rdVal else h.wr.mov) = _
        rw [noPush, Bool.and_false, if_neg Bool.false_ne_true,
          if_neg (by rw [idle.writer]; exact Writer.OpState.noConfusion),
          ram some]
        exact wrMov
      · show (if h.wr.out then h.wr.data else h.shown) = _
        rw [idle.out, if_neg Bool.false_ne_true, ram some]
        exact shown
  · show (nextState h.wr (wrIn w h e) != .idle) = false
    rw [next]
    rfl

theorem Idle.contents (idle : Idle w h) :
    (step w h e).wr.fin0 = false ∧ (step w h e).wr.en0 = false ∧ ((step w h e).wr.en1 = true → h.pf.last = 0) ∧
      (∀ i, 1 ≤ i → i ≤ h.pf.last → Agree (step w h e) i) ∧
      (1 ≤ h.pf.last → (step w h e).wr.ram = h.wr.ram) := by
  obtain ⟨notValid, notFound⟩ := idle_signals (w := w) idle.state
  refine ⟨notFound, notValid, ?_, ?_, fun some => ram_still (idle.still some).2⟩
  · intro on
    by_contra some
    have off := (idle.still (Nat.pos_of_ne_zero some)).1
    rw [show (step w h e).wr.en1 = h.wr.en0 from rfl, off] at on
    cases on
  · exact fun i one small => agree_step (Or.inr (idle.agree i one small))

theorem request_registers {next : Pathfinder.OpState} (same : Pathfinder.nextState w h.pf (pfIn h e) = next)
    (served : next ≠ .idle) :
    (step w h e).pf.state = next ∧ (step w h e).pf.adrMode = adrModeOf next ∧ (step w h e).pf.busy = true := by
  refine ⟨same, ?_, ?_⟩
  · show adrModeOf (Pathfinder.nextState w h.pf (pfIn h e)) = _
    rw [same]
  · show (Pathfinder.nextState w h.pf (pfIn h e) != .idle) = true
    rw [same]
    simp [served]

theorem Idle.push (idle : Idle w h) (pushes : push h e = true) (noPop : pop h e = false) (request : Request w h e)
    (alike : Alike h e) : UpSetup w (step w h e) (h.pf.last + 1) e.data := by
  obtain ⟨notValid, _⟩ := idle_signals (w := w) idle.state
  obtain ⟨fin0, en0, en1, agree, ram⟩ := idle.contents (e := e)
  have room : h.pf.last ≠ 2 ^ w - 1 := by
    rw [← idle.card]
    exact request.room pushes noPop
  have less : h.pf.last + 1 < 2 ^ w := by have := idle.fits; omega
  have notFull : full w h.pf = false := by
    rw [full, beq_eq_false_iff_ne]
    exact room
  have next : Pathfinder.nextState w h.pf (pfIn h e) = .heapUpSetup :=
    Pathfinder.nextState_push idle.state pushes noPop notFull
  have main : Pathfinder.main w h.pf (pfIn h e) =
      { h.pf with mov := e.data.key, ptr := (h.pf.last + 1) % 2 ^ w, newLast := (h.pf.last + 1) % 2 ^ w } :=
    main_push idle.state pushes noPop notFull
  have new : (h.pf.last + 1) % 2 ^ w = h.pf.last + 1 := Nat.mod_eq_of_lt less
  obtain ⟨state, adrMode, busy⟩ := request_registers next noConfusion
  refine
    { busy := busy, state := state, adrMode := adrMode, ptr := ?_, last := ?_, newLast := ?_, mov := ?_,
      writer := ?_, wrMov := ?_
      en0 := en0, en1 := ?_, fin0 := fin0, fits := less, ordered := ?_, agree := ?_, bag := ?_, alike := ?_ }
  · show (Pathfinder.main w h.pf (pfIn h e)).ptr = _
    rw [main]
    exact new
  · show (Pathfinder.main w h.pf (pfIn h e)).last + 1 = _
    rw [main]
  · show (Pathfinder.main w h.pf (pfIn h e)).newLast = _
    rw [main]
    exact new
  · show (Pathfinder.main w h.pf (pfIn h e)).mov = _
    rw [main]
  · exact writer_waits idle.writer request.silent notValid
  · show (if h.wr.state = .idle && HeapTop.push h e then e.data else _) = _
    rw [idle.writer, pushes]
    rfl
  · exact fun on => by rw [en1 on]
  · intro i big small
    rw [ram (by omega)]
    exact idle.ordered i big small
  · exact fun i one small => agree i one (by omega)
  · show bagAfter h e = _
    rw [bagAfter, pushes, noPop, idle.bag, Nat.add_sub_cancel]
    rcases Nat.eq_zero_or_pos h.pf.last with none | some
    · rw [none]
      rfl
    · rw [ram some]
  · intro big
    rw [ram (by omega), Nat.add_sub_cancel]
    rcases Nat.lt_or_ge h.pf.last 2 with one | more
    · have two : h.pf.last = 1 := by omega
      rw [two]
      exact Iff.rfl
    · rw [fGetParent_eq more]
      rcases Nat.mod_two_eq_zero_or_one (h.pf.last + 1) with even | odd
      · have compare := alike pushes noPop (by omega) even
        rw [show (h.pf.last + 1) / 2 - 1 = h.pf.last / 2 by omega] at compare
        exact compare
      · rw [show (h.pf.last + 1) / 2 = h.pf.last / 2 by omega]

theorem Idle.rest (idle : Idle w h) (several : 2 ≤ h.pf.last) :
    h.bag.erase h.shown = h.wr.ram h.pf.last ::ₘ others h.wr.ram (h.pf.last - 1) 1 := by
  have pred : h.pf.last - 1 + 1 = h.pf.last := by omega
  have last := entries_succ (a := h.wr.ram) (n := h.pf.last - 1)
  rw [pred, entries_hole (a := h.wr.ram) (n := h.pf.last - 1) le_rfl (by omega), Multiset.cons_swap] at last
  rw [idle.bag, last, (idle.copies (by omega)).2.2.2, Multiset.erase_cons_head]

theorem Idle.empties (idle : Idle w h) (noPush : HeapTop.push h e = false) (pops : pop h e = true)
    (silent : dbg h e = false)
    (one : h.pf.last = 1) : Emptying (step w h e) := by
  obtain ⟨notValid, _⟩ := idle_signals (w := w) idle.state
  have notEmpty : empty h.pf = false := by rw [empty, one]; rfl
  have next : Pathfinder.nextState w h.pf (pfIn h e) = .update :=
    (nextState_pop idle.state noPush pops notEmpty).trans (if_pos one)
  have main : Pathfinder.main w h.pf (pfIn h e) = { h.pf with newLast := h.pf.last - 1, ptr := 1 } :=
    main_pop idle.state noPush pops notEmpty
  obtain ⟨state, _, busy⟩ := request_registers next noConfusion
  refine ⟨busy, state, ?_, writer_waits idle.writer silent notValid, ?_⟩
  · show (Pathfinder.main w h.pf (pfIn h e)).newLast = 0
    rw [main, one]
  · show bagAfter h e = 0
    have single : h.bag = h.shown ::ₘ 0 := by
      rw [idle.shown one.ge, one]
      rfl
    rw [bagAfter, noPush, pops, single]
    exact Multiset.erase_cons_head h.shown 0

theorem Idle.pop (idle : Idle w h) (noPush : HeapTop.push h e = false) (pops : pop h e = true)
    (silent : dbg h e = false)
    (several : 2 ≤ h.pf.last) : DownSetup w (step w h e) (h.pf.last - 1) (h.wr.ram h.pf.last) := by
  obtain ⟨notValid, _⟩ := idle_signals (w := w) idle.state
  obtain ⟨fin0, en0, en1, agree, ram⟩ := idle.contents (e := e)
  have ram := ram (by omega)
  have notEmpty : empty h.pf = false := by
    rw [empty, beq_eq_false_iff_ne]
    omega
  have next : Pathfinder.nextState w h.pf (pfIn h e) = .heapDownSetup :=
    (nextState_pop idle.state noPush pops notEmpty).trans (if_neg (by omega))
  have main : Pathfinder.main w h.pf (pfIn h e) = { h.pf with newLast := h.pf.last - 1, ptr := 1 } :=
    main_pop idle.state noPush pops notEmpty
  obtain ⟨_, mov, wrMov, _⟩ := idle.copies (by omega)
  obtain ⟨state, adrMode, busy⟩ := request_registers next noConfusion
  refine
    { busy := busy, state := state, adrMode := adrMode, ptr := ?_, newLast := ?_, mov := ?_, writer := ?_, wrMov := ?_
      en0 := en0, en1 := ?_, fin0 := fin0, fits := ?_, positive := by omega, hole := ?_, agree := ?_, bag := ?_ }
  · show (Pathfinder.main w h.pf (pfIn h e)).ptr = _
    rw [main]
  · show (Pathfinder.main w h.pf (pfIn h e)).newLast = _
    rw [main]
  · show (Pathfinder.main w h.pf (pfIn h e)).mov = _
    rw [main]
    exact mov
  · exact writer_waits idle.writer silent notValid
  · show (if h.wr.state = .idle && HeapTop.push h e then e.data
      else if h.wr.state = .cpyLast then h.wr.rdVal else h.wr.mov) = _
    rw [noPush, Bool.and_false, if_neg Bool.false_ne_true,
      if_neg (by rw [idle.writer]; exact Writer.OpState.noConfusion)]
    exact wrMov
  · exact (idle.still (by omega)).1
  · have := idle.fits
    omega
  · rw [ram]
    exact idle.ordered.downHole (Nat.sub_le _ _)
  · exact fun i one small => agree i one (by omega)
  · show bagAfter h e = _
    rw [bagAfter, noPush, pops, ram]
    exact idle.rest several

theorem Idle.replace (idle : Idle w h) (pushes : HeapTop.push h e = true)
    (pops : HeapTop.pop h e = true) (silent : dbg h e = false)
    (some : 1 ≤ h.pf.last) : DownSetup w (step w h e) h.pf.last e.data := by
  obtain ⟨notValid, _⟩ := idle_signals (w := w) idle.state
  obtain ⟨fin0, en0, en1, agree, ram⟩ := idle.contents (e := e)
  have ram := ram some
  have next : Pathfinder.nextState w h.pf (pfIn h e) = .heapDownSetup :=
    Pathfinder.nextState_replace idle.state pushes pops
  have main : Pathfinder.main w h.pf (pfIn h e) = { h.pf with mov := e.data.key, newLast := h.pf.last, ptr := 1 } :=
    Pathfinder.main_replace idle.state pushes pops
  obtain ⟨state, adrMode, busy⟩ := request_registers next noConfusion
  refine
    { busy := busy, state := state, adrMode := adrMode, ptr := ?_, newLast := ?_, mov := ?_, writer := ?_, wrMov := ?_
      en0 := en0, en1 := ?_, fin0 := fin0, fits := idle.fits, positive := some, hole := ?_, agree := agree, bag := ?_ }
  · show (Pathfinder.main w h.pf (pfIn h e)).ptr = _
    rw [main]
  · show (Pathfinder.main w h.pf (pfIn h e)).newLast = _
    rw [main]
  · show (Pathfinder.main w h.pf (pfIn h e)).mov = _
    rw [main]
  · exact writer_waits idle.writer silent notValid
  · show (if h.wr.state = .idle && HeapTop.push h e then e.data else _) = _
    rw [idle.writer, pushes]
    rfl
  · exact (idle.still some).1
  · rw [ram]
    exact idle.ordered.downHole le_rfl
  · show bagAfter h e = _
    rw [bagAfter, pushes, pops, ram, idle.shown some]
    exact congrArg (e.data ::ₘ ·) (Multiset.erase_cons_head h.shown _)

theorem Emptying.step (emptying : Emptying h) : Idle w (step w h e) ∧ (step w h e).wr.busy = false := by
  have busy := pfBusy_busy emptying.busy
  have next : Pathfinder.nextState w h.pf (pfIn h e) = .idle := by rw [Pathfinder.nextState, emptying.state]
  have main : Pathfinder.main w h.pf (pfIn h e) = _ := main_update emptying.state
  have wrNext : nextState h.wr (wrIn w h e) = .idle := by
    apply writer_waits emptying.writer (busy_dbg busy)
    rw [valid, emptying.state]
    rfl
  have last : (HeapTop.step w h e).pf.last = 0 := by
    show (Pathfinder.main w h.pf (pfIn h e)).last = 0
    rw [main]
    exact emptying.newLast
  refine ⟨?_, ?_⟩
  · refine
      { state := next, adrMode := ?_, pfBusy := ?_, writer := wrNext, out := ?_, fits := ?_, still := ?_, agree := ?_
        ordered := ?_, bag := ?_, copies := ?_ }
    · show adrModeOf (Pathfinder.nextState w h.pf (pfIn h e)) = _
      rw [next]
      rfl
    · show (Pathfinder.nextState w h.pf (pfIn h e) != .idle) = false
      rw [next]
      rfl
    · show (h.wr.state == .setAdrLastCpy1st) = false
      rw [emptying.writer]
      rfl
    · rw [last]
      exact Nat.two_pow_pos w
    · rw [last]
      exact fun some => absurd some (Nat.not_succ_le_zero 0)
    · rw [last]
      exact fun i one small => by omega
    · rw [last]
      exact fun i big small => by omega
    · rw [last, busy_bag busy, emptying.bag]
      rfl
    · rw [last]
      exact fun some => absurd some (Nat.not_succ_le_zero 0)
  · show (nextState h.wr (wrIn w h e) != .idle) = false
    rw [wrNext]
    rfl

end BelProject.Heap.Queue
