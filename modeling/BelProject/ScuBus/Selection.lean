import BelProject.ScuBus.Pair

/-! An access of the pair up to the clock in which the master selects the slave. Until then the
slave is at rest. -/

namespace BelProject.ScuBus.Interlock
open Master Starts Pair
open Bridge (Request requestOf)

variable {g : Generics} {sg : Slave.Generics} {slot : Fin 12} {w : World sg} {i : Pair.Inputs}

/-! ### The slave at rest -/

structure Rest (s : Slave.Registers sg) : Prop where
  board : s.nSyncBoardSel = (true, true)
  ds : s.nSyncDS = (true, true)
  dtack : s.dtack = false

theorem Rest.clock {s : Slave.Registers sg} {bus : Slave.Bus} (user : Slave.User) (data : BitVec 16) (rest : Rest s)
    (off : bus.nSlaveSel = true) :
    Rest (Slave.clock s bus user data) ∧ (Slave.clock s bus user data).echo = s.echo ∧
      (Slave.clock s bus user data).intrEnable = s.intrEnable := by
  have unselected : Slave.selected s = false := by
    rw [Slave.selected, rest.board]
    rfl
  have nothing : Slave.stores s bus = none := by
    rw [Slave.stores, unselected]
    rfl
  refine ⟨⟨?_, ?_, ?_⟩, ?_, ?_⟩
  · simp only [Slave.clock, rest.board, off]
  · simp only [Slave.clock, unselected, Bool.false_eq_true, if_false]
  · simp only [Slave.clock, unselected, Bool.false_and]
  · simp only [Slave.clock, nothing, reduceCtorEq, if_false]
  · simp only [Slave.clock, nothing, reduceCtorEq, if_false]

/-! ### The registers -/

theorem lastWritten_append (initial adr : BitVec 16) (past : List Request) (q : Request) :
    lastWritten initial adr (past ++ [q]) = if q.we ∧ q.adr = adr then q.dat else lastWritten initial adr past :=
  List.foldl_concat ..

/-- The registers hold the last values written to them. -/
structure Stores (s : Slave.Registers sg) (requests : List Request) : Prop where
  echo : s.echo = lastWritten 0 echoAdr requests
  intrEnable : s.intrEnable = (lastWritten sg.intrEnable intrEnaAdr requests).extractLsb' 1 15

variable {requests : List Request}

theorem Stores.congr {s s' : Slave.Registers sg} (stores : Stores s requests) (echo : s'.echo = s.echo)
    (intrEnable : s'.intrEnable = s.intrEnable) : Stores s' requests :=
  ⟨echo.trans stores.echo, intrEnable.trans stores.intrEnable⟩

theorem append_one (x : BitVec 16) : (x.extractLsb' 1 15 ++ 1#1 : BitVec 16) = x ||| 1 := by
  apply BitVec.eq_of_getLsbD_eq
  intro k inside
  have one : (1 : BitVec 16).getLsbD k = decide (k = 0) := by
    show (1#16).getLsbD k = _
    rw [BitVec.getLsbD_one]
    simp
  rw [BitVec.getLsbD_append, BitVec.getLsbD_or, one]
  cases k with
  | zero => simp
  | succ k => simp [Nat.add_comm, show k < 15 by omega]

theorem Stores.value {s : Slave.Registers sg} (user : Slave.User) {adr : BitVec 16}
    (stores : Stores s requests) (known : adr = echoAdr ∨ adr = intrEnaAdr) :
    Slave.value s user (Slave.standardReg adr) = some (shown adr (lastWritten (initial sg adr) adr requests)) := by
  rcases known with rfl | rfl
  · exact congrArg some stores.echo
  · have enabled := stores.intrEnable
    show some (s.intrEnable ++ 1#1 : BitVec 16) = _
    rw [enabled, append_one]
    rfl

/-! ### The machine of the master at its end -/

/-- The machine is idle or on its way, and selects no slave. -/
structure Released (r : Registers) : Prop where
  sm : r.sm = .idle ∨ r.sm = .eRdCyc ∨ r.sm = .eWrCyc ∨ r.sm = .fRdCyc ∨ r.sm = .fWrCyc
  scubSel : r.scubSel = 0
  ds : r.ds = false

theorem settles_still {r : Registers} {n : Int} (settles : Settles r n) (idle : r.sm = .idle) :
    requested r = false := by
  obtain ⟨left, known, _⟩ := settles
  rw [clocksLeft, idle] at known
  cases asks : requested r with
  | false => rfl
  | true => simp [asks] at known

theorem Released.clock {r : Registers} {j : Master.Inputs} {n : Int} (released : Released r) (settles : Settles r n) :
    Released (Master.clock g r j) := by
  have still := settles_still settles
  obtain ⟨sm, scubSel, ds⟩ := released
  rw [requested, Bool.or_eq_false_iff] at still
  refine ⟨?_, ?_, ?_⟩
  · show smNext r = _ ∨ smNext r = _ ∨ smNext r = _ ∨ smNext r = _ ∨ smNext r = _
    rcases sm with state | state | state | state | state <;> rw [smNext, state]
    · simp only [(still state).1, (still state).2, Bool.false_eq_true, if_false, true_or]
    · simp only
      split_ifs <;> simp
    · simp only
      split_ifs <;> simp
    · exact Or.inl rfl
    · exact Or.inl rfl
  · show scubSelNext r = 0
    rcases sm with state | state | state | state | state <;> rw [scubSelNext, state]
    all_goals exact scubSel
  · show dsNext r = false
    rcases sm with state | state | state | state | state <;> rw [dsNext, state]
    all_goals exact ds

/-! ### An open access -/

def strobed (g : Generics) : Nat := max g.dValidToDS 2

def line (slot : Fin 12) : BitVec 12 := 1#12 <<< (slot : Nat)

theorem line_slot (slot : Fin 12) : (line slot).getLsbD slot = true := by
  revert slot
  decide

theorem slot_external (slot : Fin 12) : external (BitVec.ofNat 4 (slot + 1)) = true := by
  revert slot
  decide

theorem slot_single (slot : Fin 12) : multicast (BitVec.ofNat 4 (slot + 1)) = false ∧ BitVec.ofNat 4
    (slot + 1) ≠ 0 := by
  revert slot
  decide

theorem slot_line (slot : Fin 12) : 1#12 <<< ((BitVec.ofNat 4 (slot + 1)).toNat - 1) = line slot := by
  revert slot
  decide

/-- The last access is not answered, and its slave number and address are kept. -/
structure Open (slot : Fin 12) (w : World sg) (past : List Request) (q : Request) : Prop where
  accepted : w.accepted = past ++ [q]
  answers : w.answers.length = past.length
  slaveNr : w.master.slaveNr = BitVec.ofNat 4 (slot + 1)
  adr : w.master.adr = q.adr
  known : q.adr = echoAdr ∨ q.adr = intrEnaAdr

/-- The Wishbone side waits for the end of the access. -/
structure Waiting (slot : Fin 12) (w : World sg) (past : List Request) (q : Request) :
    Prop extends Open slot w past q where
  wbState : w.master.wbState = .extStall
  rdErr : w.master.rdErr = false
  wrErr : w.master.wrErr = false
  wrData : q.we = true → w.master.wrData = q.dat
  multiWr : w.master.multiWr = false
  slaveSel : w.master.slaveSel = line slot

/-- Nothing is on its way between the two machines. -/
structure Apart (w : World sg) : Prop where
  sync0 : w.master.sync0 = true
  sync1 : w.master.sync1 = true
  extAck : w.master.extAck = false
  slave : Rest w.slave

/-- The master has selected the slave for n clocks. -/
structure Data (g : Generics) (slot : Fin 12) (w : World sg) (past : List Request) (q : Request) (n : Nat) : Prop where
  sm : w.master.sm = if q.we then .wrCyc else .rdCyc
  addr : w.master.scubAddr = q.adr
  rdnwr : w.master.rdnwr = !q.we
  scubSel : w.master.scubSel = line slot
  dValid : w.master.dValidCnt = g.dValidToDS - 2 - n ∨ (w.master.dValidCnt < 0 ∧ g.dValidToDS ≤ n + 1)
  timeOut : w.master.timeOutCnt = g.timeOut - 2 - n
  release : w.master.releaseCnt = cntStart g.selRelease
  ds : w.master.ds = decide (max g.dValidToDS 1 ≤ n)
  sync0 : w.master.sync0 = decide (n < strobed g + 4)
  sync1 : w.master.sync1 = true
  extAck : w.master.extAck = false
  board : w.slave.nSyncBoardSel = (decide (n < 2), decide (n < 1))
  dsSync : w.slave.nSyncDS = (decide (n < strobed g + 2), decide (n < strobed g + 1))
  adrLA : 2 ≤ n → w.slave.adrLA = q.adr
  dataLA : strobed g + 2 ≤ n → q.we = true → w.slave.dataLA = q.dat
  dtack : w.slave.dtack = decide (strobed g + 3 ≤ n)
  readOut : 3 ≤ n → q.we = false → w.slave.readOut = some (shown q.adr (lastWritten (initial sg q.adr) q.adr past))
  stores : Stores w.slave (if strobed g + 3 ≤ n then past ++ [q] else past)

/-- The master has released the slave for n clocks. -/
structure Tail (slot : Fin 12) (w : World sg) (past : List Request) (q : Request) (n : Nat) : Prop where
  released : Released w.master
  quiet : requested w.master = false
  settles : Settles w.master (6 - n)
  sync0 : w.master.sync0 = decide (1 ≤ n)
  sync1 : w.master.sync1 = decide (2 ≤ n)
  extAck : w.master.extAck = decide (n = 2)
  board : w.slave.nSyncBoardSel = (decide (2 ≤ n), decide (1 ≤ n))
  dsSync : w.slave.nSyncDS = (decide (2 ≤ n), decide (1 ≤ n))
  dtack : w.slave.dtack = decide (n ≤ 1)
  latched : n = 0 → w.slave.adrLA = q.adr ∧ w.master.rdnwr = !q.we ∧ (q.we = true → w.slave.dataLA = q.dat)
  stores : Stores w.slave (past ++ [q])

/-- The delays let the slave answer before the time-out, and the master settle before its next
access. -/
structure Delays (g : Generics) : Prop where
  release : g.selRelease ≤ 5
  timeOut : strobed g + 6 ≤ g.timeOut

/-- Where the two machines are, and the clocks until an open access is answered. -/
inductive Phase (g : Generics) (slot : Fin 12) (w : World sg) : Nat → Prop
  | idle (wbState : w.master.wbState = .idle) (answered : w.answers.length = w.accepted.length)
      (released : Released w.master)
      (settles : Settles w.master 2) (sync0 : w.master.sync0 = true) (slave : Rest w.slave)
      (stores : Stores w.slave w.accepted) :
      Phase g slot w 0
  | decode {past : List Request} {q : Request} (opened : Open slot w past q) (wbState : w.master.wbState = .cycStart)
      (released : Released w.master) (settles : Settles w.master 1) (sync0 : w.master.sync0 = true)
      (sync1 : w.master.sync1 = true) (slave : Rest w.slave) (stores : Stores w.slave past) : Phase g slot w (longest g)
  | asked {past : List Request} {q : Request} (waiting : Waiting slot w past q) (released : Released w.master)
      (sm : w.master.sm = .idle) (startRd : w.master.startRd = !q.we)
      (startWr : w.master.startWr = q.we) (still : Apart w)
      (stores : Stores w.slave past) : Phase g slot w ((g.selDly - 1) + strobed g + 11)
  | setup {past : List Request} {q : Request} {k : Nat} (waiting : Waiting slot w past q)
      (sm : w.master.sm = if q.we then .sWrCyc else .sRdCyc) (addr : w.master.scubAddr = q.adr)
      (rdnwr : w.master.rdnwr = !q.we)
      (scubSel : w.master.scubSel = 0) (ds : w.master.ds = false) (selDly : w.master.selDlyCnt + 1 ≤ k)
      (dValid : w.master.dValidCnt = cntStart g.dValidToDS) (release : w.master.releaseCnt = cntStart g.selRelease)
      (still : Apart w) (stores : Stores w.slave past) : Phase g slot w (k + strobed g + 10)
  | data {past : List Request} {q : Request} {n k : Nat} (waiting : Waiting slot w past q)
      (data : Data g slot w past q n)
      (left : n + k = strobed g + 4) : Phase g slot w (k + 5)
  | tail {past : List Request} {q : Request} {n k : Nat} (waiting : Waiting slot w past q) (tail : Tail slot w past q n)
      (left : n + k = 2) (shows : q.we = false →
        w.master.extRdData = shown q.adr (lastWritten (initial sg q.adr) q.adr past)) :
      Phase g slot w (k + 2)
  | taken {past : List Request} {q : Request} (opened : Open slot w past q) (wbState : w.master.wbState = .extAcc)
      (tail : Tail slot w past q 3)
      (shows : q.we = false → w.master.rdData =
        shown q.adr (lastWritten (initial sg q.adr) q.adr past)) : Phase g slot w 1

/-! ### The Wishbone side -/

section
variable {past : List Request} {q : Request}

theorem answer_none (state : w.master.wbState = .idle ∨ w.master.wbState = .cycStart ∨ w.master.wbState = .extStall) :
    (step slot w i g).answers = w.answers := by
  have ack : (clock g w.master (masterIn slot w i)).ack = false := by
    rcases state with state | state | state <;> simp [clock, state]
  have err : (clock g w.master (masterIn slot w i)).err = false := by
    rcases state with state | state | state <;> simp [clock, state]
  simp [step, answerOf, ack, err]

theorem accepts_busy {r : Registers} {j : Master.Inputs} (busy : r.wbState ≠ .idle) : accepts r j = false := by
  have other : (r.wbState == .idle) = false := beq_eq_false_iff_ne.mpr busy
  rw [accepts, other]
  rfl

theorem Open.next (opened : Open slot w past q) (state : w.master.wbState = .cycStart ∨ w.master.wbState = .extStall) :
    Open slot (step slot w i g) past q := by
  have busy : w.master.wbState ≠ .idle := by
    rcases state with state | state
    · rw [state]
      exact WbCtrl.noConfusion
    · rw [state]
      exact WbCtrl.noConfusion
  have none := accepts_busy (j := i.wb) busy
  have none' := accepts_busy (j := masterIn slot w i) busy
  refine ⟨?_, ?_, ?_, ?_, opened.known⟩
  · simp only [step, none, Bool.false_eq_true, if_false, List.append_nil]
    exact opened.accepted
  · rw [answer_none (Or.inr state)]
    exact opened.answers
  · simp only [step, clock, none', Bool.false_eq_true, if_false]
    exact opened.slaveNr
  · simp only [step, clock, none', Bool.false_eq_true, if_false]
    exact opened.adr

theorem Open.boardSel (opened : Open slot w past q) : boardSel w.master = line slot := by
  rw [Master.boardSel, opened.slaveNr, slot_external, if_pos rfl, slot_line]

theorem Waiting.next (waiting : Waiting slot w past q) (none : w.master.extAck = false) (read : w.master.sm ≠ .toRdCyc)
    (write : w.master.sm ≠ .toWrCyc) :
    Waiting slot (step slot w i g) past q ∧ requested (step slot w i g).master = false := by
  have opened := waiting.toOpen.next (g := g) (i := i) (Or.inr waiting.wbState)
  have state := waiting.wbState
  have noRd : (w.master.sm == .toRdCyc) = false := beq_eq_false_iff_ne.mpr read
  have noWr : (w.master.sm == .toWrCyc) = false := beq_eq_false_iff_ne.mpr write
  refine ⟨{ toOpen := opened, wbState := ?_, rdErr := ?_, wrErr := ?_, wrData := ?_, multiWr := ?_, slaveSel := ?_ }, ?_⟩
  · simp [step, clock, wbNext, state, waiting.rdErr, waiting.wrErr, none]
  · simp only [step, clock, noRd, Bool.false_and]
  · simp only [step, clock, noWr, Bool.false_and]
  · intro writes
    simp only [step, clock, raisesWr, state]
    exact waiting.wrData writes
  · simp [step, clock, raisesWr, state]
  · exact waiting.toOpen.boardSel
  · simp [step, requested, clock, raisesRd, raisesWr, state]

end

/-! ### Before the slave is selected -/

section
variable {past : List Request} {q : Request}

variable (slot) in
theorem bus_off (off : w.master.scubSel = 0) : (busOf slot w).nSlaveSel = true := by
  rw [busOf, off]
  simp

variable (slot) in
theorem apart_next (off : w.master.scubSel = 0) (sync0 : w.master.sync0 = true)
    (sync1 : w.master.sync1 = true) (rest : Rest w.slave)
    (stores : Stores w.slave requests) :
    Apart (step slot w i g) ∧ Stores (step slot w i g).slave requests := by
  obtain ⟨slave, echo, intrEnable⟩ := rest.clock i.user (scubData slot w i) (bus_off slot off)
  refine ⟨⟨?_, sync0, ?_, slave⟩, stores.congr echo intrEnable⟩
  · simp [step, clock, masterIn, Slave.nDtack, rest.dtack]
  · simp [step, clock, sync1]

theorem idle_step (host : NonPipelined slot w i) (state : w.master.wbState = .idle)
    (answered : w.answers.length = w.accepted.length)
    (released : Released w.master) (settles : Settles w.master 2) (sync0 : w.master.sync0 = true) (slave : Rest w.slave)
    (stores : Stores w.slave w.accepted) : Phase g slot (step slot w i g) 0 ∨ Phase g slot
    (step slot w i g) (longest g) := by
  have released' : Released (step slot w i g).master := released.clock settles
  have still : requested (step slot w i g).master = false := quiet_clock (by rw [state]; exact WbCtrl.noConfusion)
  have settles' : Settles (step slot w i g).master 1 := settles.step (by decide) still
  obtain ⟨slave', echo, intrEnable⟩ := slave.clock i.user (scubData slot w i) (bus_off slot released.scubSel)
  have stores' : Stores (step slot w i g).slave w.accepted := stores.congr echo intrEnable
  have dtack : (step slot w i g).master.sync0 = true := by simp [step, clock, masterIn, Slave.nDtack, slave.dtack]
  have none : (step slot w i g).answers = w.answers := answer_none (Or.inl state)
  have next : (step slot w i g).master.wbState = if i.wb.cyc && i.wb.stb then .cycStart else .idle := by
    simp [step, clock, wbNext, state, masterIn]
  have takes : accepts w.master i.wb = (i.wb.cyc && i.wb.stb) := by
    rw [accepts, state]
    rfl
  cases strobe : i.wb.cyc && i.wb.stb with
  | false =>
    rw [strobe] at next takes
    have same : (step slot w i g).accepted = w.accepted := by simp [step, takes]
    left
    refine .idle next (by rw [none, same, answered]) released' (settles'.mono (by decide)) dtack slave' ?_
    rw [same]
    exact stores'
  | true =>
    rw [strobe] at next takes
    have more : (step slot w i g).accepted = w.accepted ++ [requestOf i.wb] := by simp [step, takes]
    have takes' : accepts w.master (masterIn slot w i) = true := takes
    obtain ⟨slaveNr, known⟩ := host.known takes
    right
    refine .decode ⟨more, by rw [none, answered], ?_, ?_, known⟩ next released' settles' dtack sync0 slave' stores'
    · simp only [step, clock, takes', if_true]
      exact slaveNr
    · simp only [step, clock, takes', if_true]
      rfl

theorem decode_step (host : NonPipelined slot w i) (opened : Open slot w past q) (state : w.master.wbState = .cycStart)
    (released : Released w.master) (settles : Settles w.master 1) (sync0 : w.master.sync0 = true)
    (sync1 : w.master.sync1 = true)
    (slave : Rest w.slave) (stores : Stores w.slave past) :
    Phase g slot (step slot w i g) ((g.selDly - 1) + strobed g + 11) := by
  have same : requestOf i.wb = q := by
    apply host.kept
    rw [opened.accepted, opened.answers, List.getElem?_concat_length]
    rfl
  have we : i.wb.we = q.we := congrArg Request.we same
  have dat : wrDataIn i.wb = q.dat := congrArg Request.dat same
  have single := slot_single slot
  have own := slot_external slot
  have opened' := opened.next (g := g) (i := i) (Or.inl state)
  obtain ⟨still, stores'⟩ := apart_next (g := g) (i := i) slot released.scubSel sync0 sync1 slave stores
  have idle : (step slot w i g).master.sm = .idle := settles.idle
  have noRd : (w.master.sm == .toRdCyc) = false := by
    rcases released.sm with sm | sm | sm | sm | sm <;> rw [sm] <;> rfl
  have noWr : (w.master.sm == .toWrCyc) = false := by
    rcases released.sm with sm | sm | sm | sm | sm <;> rw [sm] <;> rfl
  have waiting : Waiting slot (step slot w i g) past q := by
    refine { toOpen := opened', wbState := ?_, rdErr := ?_, wrErr := ?_, wrData := ?_, multiWr := ?_
             slaveSel := opened.boardSel }
    · simp only [step, clock, wbNext, state, opened.slaveNr, single.2, if_false, own, if_true]
    · simp only [step, clock, noRd, Bool.false_and]
    · simp only [step, clock, noWr, Bool.false_and]
    · intro writes
      have raises : raisesWr w.master (masterIn slot w i) = true := by
        rw [raisesWr, state, opened.slaveNr, own]
        show (true && i.wb.we && true) = true
        rw [we, writes]
        rfl
      simp only [step, clock, raises, if_true]
      exact dat
    · simp only [step, clock, opened.slaveNr, single.1, Bool.and_false]
  refine .asked waiting (released.clock settles) idle ?_ ?_ still stores'
  · show raisesRd w.master (masterIn slot w i) = _
    rw [raisesRd, state, opened.slaveNr, own, ← we]
    exact Bool.and_true _
  · show raisesWr w.master (masterIn slot w i) = _
    rw [raisesWr, state, opened.slaveNr, own, ← we]
    exact Bool.and_true _

theorem asked_step (waiting : Waiting slot w past q) (released : Released w.master) (sm : w.master.sm = .idle)
    (startRd : w.master.startRd = !q.we) (startWr : w.master.startWr = q.we) (still : Apart w)
    (stores : Stores w.slave past) :
    Phase g slot (step slot w i g) ((g.selDly - 1) + strobed g + 10) := by
  obtain ⟨waiting', _⟩ :=
    waiting.next (g := g) (i := i) still.extAck (by rw [sm]; exact ScubSM.noConfusion)
    (by rw [sm]; exact ScubSM.noConfusion)
  obtain ⟨still', stores'⟩ :=
    apart_next (g := g) (i := i) slot released.scubSel still.sync0 still.sync1 still.slave stores
  refine .setup waiting' ?_ ?_ ?_ ?_ ?_ ?_ ?_ ?_ still' stores'
  · show smNext w.master = _
    rw [smNext, sm, startRd, startWr]
    cases q.we <;> rfl
  · show scubAddrNext w.master = _
    rw [scubAddrNext, sm, startRd, startWr, ← waiting.adr]
    cases q.we <;> rfl
  · show rdnwrNext w.master = _
    rw [rdnwrNext, sm, startRd, startWr]
    cases q.we <;> rfl
  · show scubSelNext w.master = _
    rw [scubSelNext, sm]
  · show dsNext w.master = _
    rw [dsNext, sm]
  · simp only [step, clock, sm, cntStart]
    omega
  · simp only [step, clock, sm]
  · simp only [step, clock, sm]

end

section
variable {past : List Request} {q : Request}

theorem setup_step {k : Nat} (waiting : Waiting slot w past q) (sm : w.master.sm = if q.we then .sWrCyc else .sRdCyc)
    (addr : w.master.scubAddr = q.adr) (rdnwr : w.master.rdnwr = !q.we) (scubSel : w.master.scubSel = 0)
    (ds : w.master.ds = false)
    (selDly : w.master.selDlyCnt + 1 ≤ k) (dValid : w.master.dValidCnt = cntStart g.dValidToDS)
    (release : w.master.releaseCnt = cntStart g.selRelease) (still : Apart w) (stores : Stores w.slave past) :
    ∃ k' < k + strobed g + 10, Phase g slot (step slot w i g) k' := by
  have either : w.master.sm = .sWrCyc ∨ w.master.sm = .sRdCyc := by
    rw [sm]
    cases q.we
    · exact Or.inr rfl
    · exact Or.inl rfl
  obtain ⟨waiting', _⟩ :=
    waiting.next (g := g) (i := i) still.extAck (by rcases either with sm | sm <;> rw [sm] <;> exact ScubSM.noConfusion)
    (by rcases either with sm | sm <;> rw [sm] <;> exact ScubSM.noConfusion)
  obtain ⟨still', stores'⟩ := apart_next (g := g) (i := i) slot scubSel still.sync0 still.sync1 still.slave stores
  have addr' : (step slot w i g).master.scubAddr = q.adr := by
    show scubAddrNext w.master = _
    rw [scubAddrNext]
    rcases either with sm | sm <;> rw [sm] <;> exact addr
  have rdnwr' : (step slot w i g).master.rdnwr = !q.we := by
    show rdnwrNext w.master = _
    rw [rdnwrNext]
    rcases either with sm | sm <;> rw [sm] <;> exact rdnwr
  have ds' : (step slot w i g).master.ds = false := by
    show dsNext w.master = _
    rw [dsNext]
    rcases either with sm | sm <;> rw [sm] <;> exact ds
  have dValid' : (step slot w i g).master.dValidCnt = cntStart g.dValidToDS := by
    rcases either with sm | sm <;> simp only [step, clock, sm] <;> exact dValid
  have release' : (step slot w i g).master.releaseCnt = cntStart g.selRelease := by
    rcases either with sm | sm <;> simp only [step, clock, sm] <;> exact release
  by_cases last : high w.master.selDlyCnt = true
  · refine ⟨_, ?_, @Phase.data _ _ _ _ past q 0 (strobed g + 4) waiting' ?_ (Nat.zero_add _)⟩
    · omega
    · refine { sm := ?_, addr := addr', rdnwr := rdnwr', scubSel := ?_, dValid := Or.inl ?_, timeOut := ?_, release := release'
               ds := ?_, sync0 := ?_, sync1 := still'.sync1, extAck := still'.extAck, board := still'.slave.board
               dsSync := ?_, adrLA := ?_, dataLA := ?_, dtack := ?_, readOut := ?_, stores := ?_ }
      · show smNext w.master = _
        rw [smNext, sm]
        cases q.we <;> exact if_pos last
      · show scubSelNext w.master = _
        rw [scubSelNext]
        rcases either with sm | sm <;> rw [sm] <;> exact (if_pos last).trans waiting.slaveSel
      · rw [dValid', cntStart]
        exact (Int.sub_zero _).symm
      · have other : (w.master.sm == .rdCyc || w.master.sm == .wrCyc) = false := by
          rcases either with sm | sm <;> rw [sm] <;> rfl
        simp only [step, clock, other, Bool.false_eq_true, if_false, cntStart]
        exact (Int.sub_zero _).symm
      · rw [ds']
        exact (decide_eq_false (by omega)).symm
      · rw [still'.sync0]
        exact (decide_eq_true (by omega)).symm
      · rw [still'.slave.ds, decide_eq_true (by omega : 0 < strobed g + 2),
          decide_eq_true (by omega : 0 < strobed g + 1)]
      · intro late
        omega
      · intro late
        omega
      · rw [still'.slave.dtack]
        exact (decide_eq_false (by omega)).symm
      · intro late
        omega
      · rw [if_neg (by omega)]
        exact stores'
  · have high' := last
    rw [high, decide_eq_true_iff] at high'
    obtain ⟨k, rfl⟩ : ∃ k', k = k' + 1 := ⟨k - 1, by omega⟩
    refine ⟨k + strobed g + 10, by omega, .setup waiting' ?_ addr' rdnwr' ?_ ds' ?_ dValid' release' still' stores'⟩
    · show smNext w.master = _
      rw [smNext, sm]
      cases q.we <;> exact if_neg last
    · show scubSelNext w.master = _
      rw [scubSelNext]
      rcases either with sm | sm <;> rw [sm] <;> exact (if_neg last).trans scubSel
    · have counts : (step slot w i g).master.selDlyCnt = w.master.selDlyCnt - 1 := by
        rcases either with sm | sm <;> simp [step, clock, sm, countDown, last]
      rw [counts]
      omega

end

end BelProject.ScuBus.Interlock
