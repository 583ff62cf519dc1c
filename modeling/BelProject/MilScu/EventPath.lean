import BelProject.Mil.Pauses
import BelProject.MilScu.EventProcessing

/-! The way of an event: the decoder of the timing line keeps the word until `event_processing` has
read its filter entry, between two accesses of the host, and has decided on the event FIFO. The next
word takes longer than that. -/

namespace BelProject.MilScu.EventPath
open EventProcessing Mil.Decoder Mil.Soundness Mil.Pauses Library.Runs

structure Inputs where
  /-- the timing line -/
  timing : Bool
  -- the bus, and what the other registers answer
  cyc : Bool
  stb : Bool
  we : Bool
  adr : BitVec 32
  dat : BitVec 32
  sel : BitVec 4
  others : Option (Bool × BitVec 32)
  conflict : BitVec 6
  -- `wb_mil_scu`
  evFiltOn : Bool
  rdEvFifo : Bool
  clrEvFifo : Bool

structure Registers where
  ep : EventProcessing.Registers
  dec : Mil.Decoder.Registers
  eventFifo : List (BitVec 16)

section
variable (hz : Nat) (r : Registers) (i : Inputs)

def timingReceived : Bool := r.dec.rcvRdyDelayed && r.dec.isCmdMemory

def eventD : BitVec 16 := r.dec.rcvData

def epInputs : EventProcessing.Inputs :=
  { cyc := i.cyc, stb := i.stb, we := i.we, adr := i.adr, dat := i.dat, sel := i.sel
    timingReceived := timingReceived r, eventD := eventD r, eventO := r.eventFifo.headD 0
    others := i.others, conflict := i.conflict }

def evFifoFull : Bool := decide (256 ≤ r.eventFifo.length)

/-- `ev_direct_to_fifo`. -/
def directToFifo (event : BitVec 16) : Bool := decide (200 ≤ (event.extractLsb' 0 8).toNat)

def evToFifo : Bool := r.ep.eventFin && (r.ep.filtDataO.getLsbD 0 || !i.evFiltOn || directToFifo (eventD r))

/-- The FIFO takes an event if it is not full. A clear comes last. -/
def eventFifoNext : List (BitVec 16) :=
  if i.clrEvFifo then []
  else (if i.rdEvFifo then r.eventFifo.tail else r.eventFifo) ++ if evToFifo r i &&
    !evFifoFull r then [eventD r] else []

/-- One rising edge. The event that was served is taken off the decoder. -/
def clock : Registers where
  ep := EventProcessing.clock r.ep (epInputs r i)
  dec := Mil.Decoder.clock hz false r.dec ⟨i.timing, r.ep.eventFin, false⟩
  eventFifo := eventFifoNext r i

end

def eventAddr (event : BitVec 16) : BitVec 12 := event.extractLsb' 0 12

/-- An event with its own filter entry, and what else counts when it is served. -/
structure Decision where
  event : BitVec 16
  entry : BitVec 6
  filtOn : Bool
  full : Bool

def Decision.enters (d : Decision) : Bool := !d.full && (!d.filtOn || directToFifo d.event || d.entry.getLsbD 0)

structure World where
  regs : Registers
  /-- the commands on the timing line -/
  received : List (BitVec 16)
  decided : List Decision
  /-- what the FIFO has taken -/
  written : List (BitVec 16)
  /-- the clocks since the last word -/
  age : Nat
  /-- the clocks since the last edge of the timing line -/
  still : Nat

section
variable (hz : Nat) (w : World) (i : Inputs)

def completes : Bool :=
  (settle w.regs.dec false).machine.parityOk && (settle w.regs.dec false).machine.isCmd

def step : World where
  regs := clock hz w.regs i
  received := if completes w then w.received ++ [w.regs.dec.shift.extractLsb' 1 16] else w.received
  decided :=
    if w.regs.ep.eventFin then
      w.decided ++ [⟨eventD w.regs, w.regs.ep.ram (eventAddr (eventD w.regs)), i.evFiltOn, evFifoFull w.regs⟩]
    else w.decided
  written := if evToFifo w.regs i && !evFifoFull w.regs then w.written ++ [eventD w.regs] else w.written
  age := ageNext w.age w.regs.dec
  still := stillNext w.still w.regs.dec

/-- Two edges of the line are half a bit apart, ten clocks at the lowest frequency; six are enough. -/
def Spaced : Prop := edgeDetect w.regs.dec = true → 6 ≤ w.still

end

def start (hz : Nat) (junk : Mil.Decoder.Registers) (line rdMil : Bool) (ram : Ram) (filtDataO : BitVec 6) : World where
  regs := ⟨reset ram filtDataO, Mil.Decoder.clock hz false junk ⟨line, rdMil, true⟩, []⟩
  received := []
  decided := []
  written := []
  age := 0
  still := 6

/-- The clocks that an access of the host goes on. -/
def turn (flag : Bool) (r : EventProcessing.Registers) : Nat :=
  if !flag then 1 else if !r.exStall then 2 else if !r.fiStall then 3 else 4

/-- The clocks until an event that is there is served. -/
def due (r : Registers) : Nat :=
  match r.ep.sm with
  | .evRdFin => 0
  | .evRd => 1
  | .fiWr => turn r.ep.wrFiltRam r.ep + 2
  | .fiRd => turn r.ep.rdFiltRam r.ep + 2
  | .fiIdle => if timingReceived r then (if r.ep.lastAccEvent &&
      (r.ep.wrFiltRam || r.ep.rdFiltRam) then 7 else 2) else 8

structure Serving (w : World) : Prop where
  paced : Paced w.age w.still w.regs.dec
  order : w.received = w.decided.map Decision.event ++ if w.regs.dec.isCmdMemory then [eventD w.regs] else []
  writes : w.written = (w.decided.filter Decision.enters).map Decision.event
  rests : w.regs.dec.isCmdMemory = false → w.regs.ep.sm ≠ .evRd ∧ w.regs.ep.sm ≠ .evRdFin
  fin : w.regs.ep.eventFin = (w.regs.ep.sm == .evRdFin)
  ready : w.regs.dec.isCmdMemory = true → w.regs.dec.rcvRdy = true
  soon : w.regs.dec.isCmdMemory = true → w.age + due w.regs ≤ 8
  shows : w.regs.ep.sm = .evRdFin → w.regs.ep.filtDataO = w.regs.ep.ram (eventAddr (eventD w.regs))

variable {hz : Nat} {r : Registers} {w : World} {i : Inputs}

theorem turn_le (flag : Bool) (r : EventProcessing.Registers) : turn flag r ≤ 4 := by
  unfold turn
  split_ifs <;> omega

theorem due_le (r : Registers) : due r ≤ 8 := by
  have wr := turn_le r.ep.wrFiltRam r.ep
  have rd := turn_le r.ep.rdFiltRam r.ep
  unfold due
  split <;> try split_ifs
  all_goals omega

theorem turn_next {flag : Bool} (r : EventProcessing.Registers) (i : EventProcessing.Inputs)
    (serves : r.sm = .fiWr ∨ r.sm = .fiRd) (on : flag = true → filterAccess r i = true) :
    turn flag (EventProcessing.clock r i) + 1 ≤ if !r.exStall then 2 else if !r.fiStall then 3 else 4 := by
  have low : (EventProcessing.clock r i).fiStall = false := by
    change (!(r.sm == .fiWr || r.sm == .fiRd)) = false
    rcases serves with sm | sm
    · rw [sm]; rfl
    · rw [sm]; rfl
  cases up : flag with
  | false =>
    change 1 + 1 ≤ _
    split_ifs <;> omega
  | true =>
    have takes := on up
    have strobe : begins r i = true ∧ inFilter i.adr = true ∧ (i.sel == 15) = true := by
      rw [filterAccess, Bool.and_eq_true, Bool.and_eq_true] at takes
      exact ⟨takes.1.1, takes.1.2, takes.2⟩
    have waits : r.exStall = true := by
      have begun := strobe.1
      rw [begins, Bool.and_eq_true] at begun
      exact begun.2
    have answered : (EventProcessing.clock r i).exStall = r.fiStall := by
      change (answer r i).1 = r.fiStall
      rw [answer, strobe.1, if_pos rfl, strobe.2.1, if_pos rfl, strobe.2.2, if_pos rfl]
    rw [turn, answered, low, waits]
    cases r.fiStall <;> decide

theorem idle_next {last : Bool} (sm : r.ep.sm = .fiIdle)
    (last_eq : (r.ep.lastAccEvent && (r.ep.wrFiltRam || r.ep.rdFiltRam)) = last)
    (waits : timingReceived r = true) :
    smNext r.ep (epInputs r i) = if last then (if r.ep.wrFiltRam then .fiWr else .fiRd) else .evRd := by
  have there : (epInputs r i).timingReceived = true := waits
  rw [smNext, sm, there, ← last_eq]
  cases r.ep.lastAccEvent <;> cases r.ep.wrFiltRam <;> cases r.ep.rdFiltRam <;> rfl

theorem due_access (sm : (clock hz r i).ep.sm = .fiWr ∨ (clock hz r i).ep.sm = .fiRd) : due (clock hz r i) ≤ 6 := by
  have wr := turn_le (clock hz r i).ep.wrFiltRam (clock hz r i).ep
  have rd := turn_le (clock hz r i).ep.rdFiltRam (clock hz r i).ep
  rw [due]
  rcases sm with sm | sm
  · rw [sm]
    change turn _ _ + 2 ≤ 6
    omega
  · rw [sm]
    change turn _ _ + 2 ≤ 6
    omega

theorem due_serving {flag flag' : Bool} (sm : r.ep.sm = .fiWr ∨ r.ep.sm = .fiRd)
    (next : (clock hz r i).ep.sm = if flag then r.ep.sm else .fiIdle) (before : due r = turn flag r.ep + 2)
    (after : (clock hz r i).ep.sm = r.ep.sm → due (clock hz r i) = turn flag' (clock hz r i).ep + 2)
    (takes : flag' = true → filterAccess r.ep (epInputs r i) = true) (waits : timingReceived (clock hz r i) = true) :
    due (clock hz r i) + 1 ≤ due r := by
  cases up : flag with
  | false =>
    have ends : (clock hz r i).ep.sm = .fiIdle := by rw [next, up]; rfl
    have last : (clock hz r i).ep.lastAccEvent = false := by
      have clocked := lastAccEvent_clock r.ep (epInputs r i)
      rcases sm with sm | sm
      · rw [sm] at clocked
        exact clocked
      · rw [sm] at clocked
        exact clocked
    have then_two : due (clock hz r i) = 2 := by
      rw [due, ends]
      dsimp only
      rw [if_pos waits, last]
      rfl
    rw [then_two, before, up]
    exact Nat.le_refl 3
  | true =>
    have less := turn_next r.ep (epInputs r i) sm takes
    rw [after (by rw [next, up]; rfl), before, up]
    exact Nat.add_le_add_right less 2

theorem due_next (waits : timingReceived (clock hz r i) = true) (busy : r.ep.sm ≠ .evRdFin) :
    due (clock hz r i) + 1 ≤ due r := by
  have next : (clock hz r i).ep.sm = smNext r.ep (epInputs r i) := rfl
  cases sm : r.ep.sm with
  | evRdFin => exact absurd sm busy
  | evRd =>
    have fin : (clock hz r i).ep.sm = .evRdFin := by rw [next, smNext, sm]
    rw [due, fin, due, sm]
  | fiIdle =>
    cases there : timingReceived r with
    | true =>
      cases last : r.ep.lastAccEvent && (r.ep.wrFiltRam || r.ep.rdFiltRam) with
      | false =>
        have goes : (clock hz r i).ep.sm = .evRd := by
          rw [next, idle_next sm last there]
          rfl
        have before : due r = 2 := by
          rw [due, sm]
          dsimp only
          rw [there, last]
          rfl
        rw [due, goes, before]
      | true =>
        have access : (clock hz r i).ep.sm = .fiWr ∨ (clock hz r i).ep.sm = .fiRd := by
          rw [next, idle_next sm last there, if_pos rfl]
          cases r.ep.wrFiltRam with
          | true => exact Or.inl rfl
          | false => exact Or.inr rfl
        have before : due r = 7 := by
          rw [due, sm]
          dsimp only
          rw [there, last]
          rfl
        have short := due_access access
        omega
    | false =>
      have before : due r = 8 := by
        rw [due, sm]
        dsimp only
        rw [there]
        rfl
      have absent : (epInputs r i).timingReceived = false := there
      cases wr : r.ep.wrFiltRam with
      | true =>
        have access : (clock hz r i).ep.sm = .fiWr ∨ (clock hz r i).ep.sm = .fiRd := by
          left
          rw [next, smNext, sm, absent, wr]
          rfl
        have short := due_access access
        omega
      | false =>
        cases rd : r.ep.rdFiltRam with
        | true =>
          have access : (clock hz r i).ep.sm = .fiWr ∨ (clock hz r i).ep.sm = .fiRd := by
            right
            rw [next, smNext, sm, absent, wr, rd]
            rfl
          have short := due_access access
          omega
        | false =>
          have stays : (clock hz r i).ep.sm = .fiIdle := by
            rw [next, smNext, sm, absent, wr, rd]
            rfl
          have short : due (clock hz r i) ≤ 7 := by
            rw [due, stays]
            dsimp only
            rw [if_pos waits]
            split_ifs <;> omega
          omega
  | fiWr =>
    apply due_serving (Or.inl sm)
    · rw [next, smNext, sm]
    · rw [due, sm]
    · intro stays
      rw [due, stays, sm]
    · exact fun up => (Bool.and_eq_true_iff.mp up).1
    · exact waits
  | fiRd =>
    apply due_serving (Or.inr sm)
    · rw [next, smNext, sm]
    · rw [due, sm]
    · intro stays
      rw [due, stays, sm]
    · exact fun up => (Bool.and_eq_true_iff.mp up).1
    · exact waits

theorem isCmdMemory_next : (clock hz r i).dec.isCmdMemory =
    if r.ep.eventFin || (settle r.dec false).machine.state == .err then false
    else if (settle r.dec false).machine.parityOk then (settle r.dec false).machine.isCmd else r.dec.isCmdMemory := rfl

theorem rcvRdy_next : (clock hz r i).dec.rcvRdy =
    if r.ep.eventFin || (settle r.dec false).machine.state == .err then false
    else if (settle r.dec false).machine.parityOk then true else r.dec.rcvRdy := rfl

theorem eventD_next : eventD (clock hz r i) =
    if (settle r.dec false).machine.parityOk then r.dec.shift.extractLsb' 1 16 else eventD r := rfl

theorem Serving.alone (serving : Serving w) (there : w.regs.dec.isCmdMemory = true) :
    (settle w.regs.dec false).machine.parityOk = false ∧ ((settle w.regs.dec false).machine.state == .err) = false := by
  have paced := serving.paced.settle
  have soon := serving.soon there
  constructor
  · by_contra ok
    have := (paced.ok (Bool.eq_true_of_not_eq_false ok)).2
    omega
  · rw [beq_eq_false_iff_ne]
    intro err
    have := paced.err err
    omega

theorem Serving.waits (serving : Serving w) (there : w.regs.dec.isCmdMemory = true)
    (busy : w.regs.ep.eventFin = false) :
    timingReceived (clock hz w.regs i) = true := by
  obtain ⟨none, fine⟩ := serving.alone there
  change (w.regs.dec.rcvRdy && (clock hz w.regs i).dec.isCmdMemory) = true
  rw [isCmdMemory_next, busy, fine, none, serving.ready there, there]
  rfl

theorem Serving.fin_iff (serving : Serving w) : w.regs.ep.eventFin = true ↔ w.regs.ep.sm = .evRdFin := by
  rw [serving.fin, beq_iff_eq]

theorem Serving.served (serving : Serving w) (fin : w.regs.ep.eventFin = true) : w.regs.dec.isCmdMemory = true := by
  by_contra none
  exact (serving.rests (Bool.eq_false_of_not_eq_true none)).2 (serving.fin_iff.mp fin)

theorem sm_rests (none : timingReceived r = false) (away : r.ep.sm ≠ .evRd ∧ r.ep.sm ≠ .evRdFin) :
    (clock hz r i).ep.sm ≠ .evRd ∧ (clock hz r i).ep.sm ≠ .evRdFin := by
  change smNext r.ep (epInputs r i) ≠ .evRd ∧ smNext r.ep (epInputs r i) ≠ .evRdFin
  have absent : (epInputs r i).timingReceived = false := none
  rw [smNext]
  cases sm : r.ep.sm with
  | fiIdle =>
    rw [absent]
    cases r.ep.wrFiltRam <;> cases r.ep.rdFiltRam <;> simp
  | fiWr => cases r.ep.wrFiltRam <;> simp
  | fiRd => cases r.ep.rdFiltRam <;> simp
  | evRd => exact absurd sm away.1
  | evRdFin => exact absurd sm away.2

theorem Serving.decides (serving : Serving w) (fin : w.regs.ep.eventFin = true) :
    (evToFifo w.regs i && !evFifoFull w.regs) =
      Decision.enters ⟨eventD w.regs, w.regs.ep.ram (eventAddr (eventD w.regs)), i.evFiltOn, evFifoFull w.regs⟩ := by
  rw [evToFifo, fin, serving.shows (serving.fin_iff.mp fin), Decision.enters]
  cases evFifoFull w.regs <;> cases i.evFiltOn <;> cases directToFifo (eventD w.regs) <;> simp

theorem smNext_fin (r : EventProcessing.Registers) (i : EventProcessing.Inputs) :
    smNext r i = .evRdFin ↔ r.sm = .evRd := by
  rw [smNext]
  cases r.sm with
  | fiIdle => split_ifs <;> simp
  | fiWr => split_ifs <;> simp
  | fiRd => split_ifs <;> simp
  | evRd => simp
  | evRdFin => simp

section
variable (serving : Serving w)
include serving

theorem Serving.order_step :
    (step hz w i).received = (step hz w i).decided.map Decision.event ++
      if (step hz w i).regs.dec.isCmdMemory then [eventD (step hz w i).regs] else [] := by
  change (if completes w then w.received ++ [w.regs.dec.shift.extractLsb' 1 16] else w.received) =
    (if w.regs.ep.eventFin then w.decided ++ [_] else w.decided).map Decision.event ++
      if (clock hz w.regs i).dec.isCmdMemory then [eventD (clock hz w.regs i)] else []
  rw [isCmdMemory_next, eventD_next, completes]
  cases there : w.regs.dec.isCmdMemory with
  | true =>
    obtain ⟨none, fine⟩ := serving.alone there
    have order := serving.order
    rw [there, if_pos rfl] at order
    rw [none, fine]
    cases w.regs.ep.eventFin with
    | true => simp [order]
    | false => simpa using order
  | false =>
    have idle : w.regs.ep.eventFin = false := by
      by_contra fin
      exact absurd (there.symm.trans (serving.served (Bool.eq_true_of_not_eq_false fin))) Bool.noConfusion
    have order := serving.order
    rw [there, if_neg Bool.false_ne_true, List.append_nil] at order
    rw [idle]
    cases complete : (settle w.regs.dec false).machine.parityOk with
    | false => simpa using order
    | true =>
      have fine : ((settle w.regs.dec false).machine.state == .err) = false := by
        rw [(serving.paced.settle.ok complete).1]
        rfl
      rw [fine]
      cases (settle w.regs.dec false).machine.isCmd with
      | true => simp [order]
      | false => simpa using order

theorem Serving.writes_step :
    (step hz w i).written = ((step hz w i).decided.filter Decision.enters).map Decision.event := by
  change (if evToFifo w.regs i && !evFifoFull w.regs then w.written ++ [eventD w.regs] else w.written) =
    ((if w.regs.ep.eventFin then w.decided ++ [_] else w.decided).filter Decision.enters).map Decision.event
  cases fin : w.regs.ep.eventFin with
  | false =>
    have off : evToFifo w.regs i = false := by rw [evToFifo, fin, Bool.false_and]
    rw [off]
    exact serving.writes
  | true =>
    rw [serving.decides fin, if_pos rfl, List.filter_append, List.map_append, ← serving.writes]
    cases enters : Decision.enters ⟨eventD w.regs, w.regs.ep.ram (eventAddr (eventD w.regs)),
      i.evFiltOn, evFifoFull w.regs⟩ with
    | true => simp [enters]
    | false => simp [enters]

theorem Serving.soon_step (there : (clock hz w.regs i).dec.isCmdMemory = true) :
    ageNext w.age w.regs.dec + due (clock hz w.regs i) ≤ 8 := by
  have short := due_le (clock hz w.regs i)
  cases before : w.regs.dec.isCmdMemory with
  | true =>
    obtain ⟨none, fine⟩ := serving.alone before
    have busy : w.regs.ep.eventFin = false := by
      by_contra fin
      rw [isCmdMemory_next, Bool.eq_true_of_not_eq_false fin] at there
      cases there
    have waits : timingReceived (clock hz w.regs i) = true := serving.waits before busy
    have closer := due_next waits fun fin => absurd (busy.symm.trans (serving.fin_iff.mpr fin)) Bool.noConfusion
    have soon := serving.soon before
    rw [ageNext, none, if_neg Bool.false_ne_true]
    omega
  | false =>
    have complete : (settle w.regs.dec false).machine.parityOk = true := by
      by_contra none
      rw [isCmdMemory_next, Bool.eq_false_of_not_eq_true none, if_neg Bool.false_ne_true, before, ite_self] at there
      cases there
    rw [ageNext, complete, if_pos rfl]
    omega

theorem Serving.rests_step (none : (clock hz w.regs i).dec.isCmdMemory = false) :
    (clock hz w.regs i).ep.sm ≠ .evRd ∧ (clock hz w.regs i).ep.sm ≠ .evRdFin := by
  cases before : w.regs.dec.isCmdMemory with
  | true =>
    obtain ⟨alone, fine⟩ := serving.alone before
    have fin : w.regs.ep.sm = .evRdFin := by
      apply serving.fin_iff.mp
      by_contra busy
      rw [isCmdMemory_next, Bool.eq_false_of_not_eq_true busy, fine, alone, before] at none
      cases none
    have idle : (clock hz w.regs i).ep.sm = .fiIdle := by
      change smNext w.regs.ep (epInputs w.regs i) = .fiIdle
      rw [smNext, fin]
    rw [idle]
    exact ⟨FiltCntrl.noConfusion, FiltCntrl.noConfusion⟩
  | false =>
    have absent : timingReceived w.regs = false := by rw [timingReceived, before, Bool.and_false]
    exact sm_rests absent (serving.rests before)

theorem Serving.shows_step (fin : (clock hz w.regs i).ep.sm = .evRdFin) :
    (clock hz w.regs i).ep.filtDataO = (clock hz w.regs i).ep.ram (eventAddr (eventD (clock hz w.regs i))) := by
  have sm : w.regs.ep.sm = .evRd := (smNext_fin w.regs.ep (epInputs w.regs i)).mp fin
  have there : w.regs.dec.isCmdMemory = true := by
    by_contra none
    exact (serving.rests (Bool.eq_false_of_not_eq_true none)).1 sm
  rw [eventD_next, (serving.alone there).1]
  change (if filtWr w.regs.ep then i.conflict else w.regs.ep.ram (filterAddr w.regs.ep (epInputs w.regs i))) =
    (if filtWr w.regs.ep then _ else w.regs.ep.ram) (eventAddr (eventD w.regs))
  rw [filtWr, filterAddr, sm]
  rfl

theorem Serving.step (spaced : Spaced w) : Serving (step hz w i) where
  paced := serving.paced.clock rfl spaced
  order := serving.order_step
  writes := serving.writes_step
  rests := serving.rests_step
  fin := by
    change (w.regs.ep.sm == .evRd) = (smNext w.regs.ep (epInputs w.regs i) == .evRdFin)
    rw [Bool.eq_iff_iff, beq_iff_eq, beq_iff_eq, smNext_fin]
  ready := by
    intro there
    change (clock hz w.regs i).dec.isCmdMemory = true at there
    change (clock hz w.regs i).dec.rcvRdy = true
    rw [isCmdMemory_next] at there
    rw [rcvRdy_next]
    split_ifs at there ⊢
    · rfl
    · exact serving.ready there
  soon := serving.soon_step
  shows := serving.shows_step

end

theorem serving_start (hz : Nat) (junk : Mil.Decoder.Registers) (line rdMil : Bool) (ram : Ram) (filtDataO : BitVec 6) :
    Serving (start hz junk line rdMil ram filtDataO) := by
  have none : (start hz junk line rdMil ram filtDataO).regs.dec.isCmdMemory = false := by
    have off : (settle junk true).machine.parityOk = false := by
      rw [settle_stopped rfl]
      rfl
    change (if rdMil || (settle junk true).machine.state == .err then false
      else if (settle junk true).machine.parityOk then (settle junk true).machine.isCmd else false) = false
    rw [off, if_neg Bool.false_ne_true, ite_self]
  exact
    { paced := paced_reset hz false junk rfl 0 6
      order := by
        rw [none]
        rfl
      writes := rfl
      rests := fun _ => ⟨FiltCntrl.noConfusion, FiltCntrl.noConfusion⟩
      fin := rfl
      ready := fun there => absurd (there.symm.trans none) Bool.noConfusion
      soon := fun there => absurd (there.symm.trans none) Bool.noConfusion
      shows := by
        intro fin
        cases fin }

theorem fifo_written (w : World) (i : Inputs) (taken : w.regs.eventFifo <:+ w.written) :
    (step hz w i).regs.eventFifo <:+ (step hz w i).written := by
  change eventFifoNext w.regs i <:+ (if evToFifo w.regs i && !evFifoFull w.regs then w.written ++
    [eventD w.regs] else w.written)
  have left : (if i.rdEvFifo then w.regs.eventFifo.tail else w.regs.eventFifo) <:+ w.written := by
    cases i.rdEvFifo with
    | true => exact (List.tail_suffix _).trans taken
    | false => exact taken
  rw [eventFifoNext]
  cases i.clrEvFifo with
  | true => exact List.nil_suffix
  | false =>
    cases evToFifo w.regs i && !evFifoFull w.regs with
    | true =>
      obtain ⟨front, split⟩ := left
      refine ⟨front, ?_⟩
      change front ++ (_ ++ [eventD w.regs]) = w.written ++ [eventD w.regs]
      rw [← List.append_assoc, split]
    | false =>
      change _ ++ [] <:+ _
      rw [List.append_nil]
      exact left

/-- From the reset on each event is decided once, in the order of reception, and by its own filter
entry; the FIFO takes those that are to enter it, and no others. The last event may be undecided for
nine clocks. -/
theorem events_once (hz : Nat) (junk : Mil.Decoder.Registers) (line rdMil : Bool) (ram : Ram) (filtDataO : BitVec 6)
    (inputs : List Inputs) (spaced : Along (step hz) (fun w _ => Spaced w)
      (start hz junk line rdMil ram filtDataO) inputs) :
    (inputs.foldl (step hz) (start hz junk line rdMil ram filtDataO)).written =
        ((inputs.foldl (step hz) (start hz junk line rdMil ram filtDataO)).decided.filter
          Decision.enters).map Decision.event ∧
      (∃ waiting, (inputs.foldl (step hz) (start hz junk line rdMil ram filtDataO)).received =
          (inputs.foldl (step hz) (start hz junk line rdMil ram filtDataO)).decided.map Decision.event ++ waiting ∧
        waiting.length ≤ 1 ∧ (waiting ≠ [] → (inputs.foldl (step hz)
          (start hz junk line rdMil ram filtDataO)).age ≤ 8)) ∧
      (inputs.foldl (step hz) (start hz junk line rdMil ram filtDataO)).regs.eventFifo <:+
        (inputs.foldl (step hz) (start hz junk line rdMil ram filtDataO)).written := by
  have serving := spaced.invariant Serving (serving_start hz junk line rdMil ram filtDataO) fun serving
    here => serving.step here
  refine ⟨serving.writes, ⟨_, serving.order, ?_, ?_⟩, ?_⟩
  · split_ifs <;> simp
  · intro waiting
    have there : (inputs.foldl (step hz) (start hz junk line rdMil ram filtDataO)).regs.dec.isCmdMemory = true := by
      by_contra none
      rw [if_neg none] at waiting
      exact waiting rfl
    have soon := serving.soon there
    omega
  · exact spaced.invariant (fun w => w.regs.eventFifo <:+ w.written) List.nil_suffix fun taken _ =>
      fifo_written _ _ taken

def held (level : Bool) (clocks : Nat) : List Inputs :=
  List.replicate clocks ⟨!level, false, false, false, 0x4014, 0, 15, none, 0, true, false, false⟩

def command (word : BitVec 16) (parity : Bool) : List Inputs :=
  held true 5 ++ held false 30 ++ ((Mil.Message.messageBits word parity).flatMap fun bit =>
    held bit 10 ++ held (!bit) 10) ++
    held true 15

instance (w : World) : Decidable (Spaced w) := inferInstanceAs (Decidable (edgeDetect w.regs.dec = true → 6 ≤ w.still))

theorem events_once_command :
    ((command 0x00c8 false).foldl (step 20000000)
      (start 20000000 powerUp.regs false false (fun _ => 0) 0)).received = [0x00c8] ∧
      ((command 0x00c8 false).foldl (step 20000000) (start 20000000 powerUp.regs false false (fun _ => 0) 0)).written =
        (((command 0x00c8 false).foldl (step 20000000)
          (start 20000000 powerUp.regs false false (fun _ => 0) 0)).decided.filter
          Decision.enters).map Decision.event :=
  ⟨by decide +kernel, (events_once 20000000 powerUp.regs false false (fun _ => 0) 0
    (command 0x00c8 false) (by decide +kernel)).1⟩

end BelProject.MilScu.EventPath
