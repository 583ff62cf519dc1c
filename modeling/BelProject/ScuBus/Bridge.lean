import BelProject.ScuBus.Starts

/-! The bridge as a whole. Beside the registers runs an account of the strobes that were
accepted, of the data strobes on the SCU bus, and of the answers. -/

namespace BelProject.ScuBus.Bridge
open Master Starts

structure Request where
  slaveNr : BitVec 4
  adr : BitVec 16
  we : Bool
  dat : BitVec 16
  deriving DecidableEq

/-- A data strobe on the SCU bus: the slaves selected, the address, the direction and what the
master drives, and the slave number the access is for. -/
structure Cycle where
  slaveNr : BitVec 4
  scubSel : BitVec 12
  scubAddr : BitVec 16
  rdnwr : Bool
  scubData : Option (BitVec 16)
  deriving DecidableEq

def Request.cycle (q : Request) : Cycle :=
  { slaveNr := q.slaveNr
    scubSel := 1#12 <<< (q.slaveNr.toNat - 1)
    scubAddr := q.adr
    rdnwr := !q.we
    scubData := if q.we then some q.dat else none }

/-- The cycles of the accesses to external slaves. -/
def cycles (requests : List Request) : List Cycle := (requests.filter fun q => external q.slaveNr).map Request.cycle

structure World where
  regs : Registers
  accepted : List Request
  executed : List Cycle
  /-- true for an ack, false for an err -/
  answers : List Bool

def requestOf (i : Inputs) : Request := ⟨slaveNrIn i, adrIn i, i.we, wrDataIn i⟩

/-- The data strobe of an access to an external slave rises. -/
def strobes (r r' : Registers) : List Cycle :=
  if r'.ds && !r.ds && external r'.slaveNr then [⟨r'.slaveNr, r'.scubSel, r'.scubAddr, r'.rdnwr,
    scubDataOut r'⟩] else []

def answersOf (r' : Registers) : List Bool := (if r'.ack then [true] else []) ++ if r'.err then [false] else []

def step (g : Generics) (w : World) (i : Inputs) : World :=
  { regs := clock g w.regs i
    accepted := w.accepted ++ if accepts w.regs i then [requestOf i] else []
    executed := w.executed ++ strobes w.regs (clock g w.regs i)
    answers := w.answers ++ answersOf (clock g w.regs i) }

def run (g : Generics) (w : World) (inputs : List Inputs) : World := inputs.foldl (step g) w

def start (g : Generics) (junk : Junk) : World := ⟨Master.start g junk, [], [], []⟩

/-- Every accepted access to an external slave has been executed as it was accepted, in order,
but for the last one while it is not answered; and every access has got one answer, but for the
last one while the Wishbone side is busy. -/
structure Faithful (w : World) : Prop where
  executed : w.executed = cycles w.accepted ∨
    (∃ past q, w.accepted = past ++ [q] ∧ w.executed = cycles past ∧ w.answers.length = past.length)
  answers : w.answers.length + (if w.regs.wbState = .idle then 0 else 1) = w.accepted.length
  one : ¬(w.regs.ack = true ∧ w.regs.err = true)

/-- The direction and the data to be written are still there in the clock after the acceptance. -/
def Held (w : World) (i : Inputs) : Prop :=
  w.regs.wbState = .cycStart → external w.regs.slaveNr = true →
    ∀ q ∈ w.accepted.getLast?, i.we = q.we ∧ (q.we = true → wrDataIn i = q.dat)

/-- When the data strobe of an access to an external slave is due, `dtack` is not active and the
time-out is not over. -/
def Due (r : Registers) : Prop :=
  external r.slaveNr = true → (r.sm = .rdCyc ∨ r.sm = .wrCyc) → high r.dValidCnt = true → r.ds = false →
    r.sync0 = true ∧ high r.timeOutCnt = false

structure Orderly (w : World) (i : Inputs) : Prop where
  inTime : InTime w.regs i
  held : Held w i
  due : Due w.regs

/-! ### The machine after the data strobe -/

def Beyond (r : Registers) : Prop :=
  match r.sm with
  | .idle => requested r = false
  | .sRdCyc | .sWrCyc => False
  | .rdCyc | .wrCyc => r.ds = true ∨ smNext r ≠ r.sm
  | _ => True

variable {g : Generics} {r : Registers} {i : Inputs} {w : World}

theorem settles_beyond {n : Int} (settles : Settles r n) : Beyond r := by
  obtain ⟨left, known, _⟩ := settles
  unfold clocksLeft afterData at known
  unfold Beyond
  cases state : r.sm with
  | idle =>
    cases asks : requested r with
    | false => rfl
    | true => simp [state, asks] at known
  | sRdCyc => rw [state] at known; cases known
  | sWrCyc => rw [state] at known; cases known
  | rdCyc =>
    right
    intro same
    rw [state] at known
    simp only [same] at known
    cases known
  | wrCyc =>
    right
    intro same
    rw [state] at known
    simp only [same] at known
    cases known
  | _ => trivial

theorem strobes_none (still : (clock g r i).ds = true → r.ds = true) : strobes r (clock g r i) = [] := by
  rw [strobes, if_neg]
  intro rises
  rw [Bool.and_eq_true, Bool.and_eq_true, Bool.not_eq_true'] at rises
  rw [still rises.1.1] at rises
  cases rises.1.2

theorem ds_clock : (clock g r i).ds = dsNext r := rfl

theorem sm_clock : (clock g r i).sm = smNext r := rfl

theorem ends_low (data : r.sm = .rdCyc ∨ r.sm = .wrCyc) (ends : smNext r ≠ r.sm) : dsNext r = false := by
  have valid : high r.dValidCnt = true := by
    by_contra waits
    apply ends
    rcases data with state | state
    · rw [smNext, state]
      exact if_neg waits
    · rw [smNext, state]
      simp [waits]
  have over' : endsData r = true := by
    rw [endsData, bne_iff_ne.mpr ends, Bool.and_true]
    rcases data with state | state
    · rw [state]; rfl
    · rw [state]; rfl
  rw [dsNext, valid, over']
  rcases data with state | state
  · rw [state]; rfl
  · rw [state]; rfl

theorem Beyond.data (beyond : Beyond r) (data : r.sm = .rdCyc ∨ r.sm = .wrCyc) : r.ds = true ∨ smNext r ≠ r.sm := by
  unfold Beyond at beyond
  rcases data with state | state
  · rw [state] at beyond
    rw [state]
    exact beyond
  · rw [state] at beyond
    rw [state]
    exact beyond

theorem Beyond.strobes (beyond : Beyond r) : strobes r (clock g r i) = [] := by
  apply strobes_none
  rw [ds_clock]
  by_cases data : r.sm = .rdCyc ∨ r.sm = .wrCyc
  · rcases beyond.data data with on | ends
    · exact fun _ => on
    · rw [ends_low data ends]
      exact fun on => by cases on
  · rw [dsNext]
    cases state : r.sm with
    | idle => exact fun on => by cases on
    | rdCyc => exact absurd (Or.inl state) data
    | wrCyc => exact absurd (Or.inr state) data
    | _ => exact id

theorem on_clock (data : r.sm = .rdCyc ∨ r.sm = .wrCyc) (on : r.ds = true) (same : smNext r = r.sm) :
    (clock g r i).ds = true := by
  have goes : endsData r = false := by
    rw [endsData, same]
    simp
  rw [ds_clock, dsNext]
  rcases data with state | state
  · rw [state]
    simp [goes, on]
  · rw [state]
    simp [goes, on]

variable {past : List Request} {q : Request}

theorem Beyond.step (beyond : Beyond r) (still : requested (clock g r i) = false) : Beyond (clock g r i) := by
  have keeps : (r.sm = .rdCyc ∨ r.sm = .wrCyc) → smNext r = r.sm → Beyond (clock g r i) := by
    intro data same
    have on := on_clock (g := g) (i := i) data ((beyond.data data).resolve_right fun ends => ends same) same
    unfold Beyond
    rw [sm_clock, same]
    rcases data with state | state
    · rw [state]
      exact Or.inl on
    · rw [state]
      exact Or.inl on
  cases state : r.sm with
  | idle =>
    unfold Beyond at beyond ⊢
    rw [state] at beyond
    have quiet : requested r = false := beyond
    rw [requested, Bool.or_eq_false_iff] at quiet
    have next : smNext r = .idle := by rw [smNext, state]; simp [quiet.1, quiet.2]
    rw [sm_clock, next]
    exact still
  | sRdCyc =>
    unfold Beyond at beyond
    rw [state] at beyond
    exact beyond.elim
  | sWrCyc =>
    unfold Beyond at beyond
    rw [state] at beyond
    exact beyond.elim
  | rdCyc =>
    by_cases same : smNext r = r.sm
    · exact keeps (Or.inl state) same
    · unfold Beyond
      rw [sm_clock]
      rw [smNext, state] at same ⊢
      simp only at same ⊢
      split_ifs at same ⊢ <;> trivial
  | wrCyc =>
    by_cases same : smNext r = r.sm
    · exact keeps (Or.inr state) same
    · unfold Beyond
      rw [sm_clock]
      rw [smNext, state] at same ⊢
      simp only at same ⊢
      split_ifs at same ⊢ <;> trivial
  | eRdCyc =>
    unfold Beyond
    rw [sm_clock, smNext, state]
    by_cases last : high r.releaseCnt = true <;> simp [last]
  | eWrCyc =>
    unfold Beyond
    rw [sm_clock, smNext, state]
    by_cases last : high r.releaseCnt = true <;> simp [last]
  | fRdCyc => unfold Beyond; rw [sm_clock, smNext, state]; exact still
  | fWrCyc => unfold Beyond; rw [sm_clock, smNext, state]; exact still
  | toRdCyc => unfold Beyond; rw [sm_clock, smNext, state]; trivial
  | toWrCyc => unfold Beyond; rw [sm_clock, smNext, state]; trivial

/-! ### The phases of an access -/

/-- The bus cycle of the access: asked for, selecting the slave, waiting for the strobe, or past it. -/
inductive Stage (w : World) (past : List Request) (q : Request) : Prop where
  | asked (rd : w.regs.startRd = !q.we) (wr : w.regs.startWr = q.we) (sm : w.regs.sm = .idle)
      (executed : w.executed = cycles past)
  | setup (sm : w.regs.sm = if q.we then .sWrCyc else .sRdCyc) (addr : w.regs.scubAddr = q.adr)
      (rdnwr : w.regs.rdnwr = !q.we)
      (ds : w.regs.ds = false) (executed : w.executed = cycles past)
  | data (sm : w.regs.sm = if q.we then .wrCyc else .rdCyc) (addr : w.regs.scubAddr = q.adr)
      (rdnwr : w.regs.rdnwr = !q.we)
      (ds : w.regs.ds = false) (sel : w.regs.scubSel = 1#12 <<< (q.slaveNr.toNat - 1))
      (executed : w.executed = cycles past)
  | beyond (beyond : Beyond w.regs) (executed : w.executed = cycles (past ++ [q]))

/-- The last access is not answered, and its slave number and address are kept. -/
structure Open (w : World) (past : List Request) (q : Request) : Prop where
  accepted : w.accepted = past ++ [q]
  slaveNr : w.regs.slaveNr = q.slaveNr
  adr : w.regs.adr = q.adr
  answers : w.answers.length = past.length

inductive Phase (w : World) : Prop where
  | idle (state : w.regs.wbState = .idle) (beyond : Beyond w.regs) (executed : w.executed = cycles w.accepted)
      (answers : w.answers.length = w.accepted.length)
  | decode {past : List Request} {q : Request} (state : w.regs.wbState = .cycStart) (beyond : Beyond w.regs)
      (open' : Open w past q) (executed : w.executed = cycles past)
  | stall {past : List Request} {q : Request} (state : w.regs.wbState = .extStall) (open' : Open w past q)
      (own : external q.slaveNr = true) (sel : w.regs.slaveSel = 1#12 <<< (q.slaveNr.toNat - 1))
      (dat : q.we = true → w.regs.wrData = q.dat) (stage : Stage w past q)
  | multi {past : List Request} {q : Request} (state : w.regs.wbState = .extStall) (open' : Open w past q)
      (other : external q.slaveNr = false) (executed : w.executed = cycles past)
  | closing (state : w.regs.wbState = .intAcc ∨ w.regs.wbState = .extErr ∨ w.regs.wbState = .extAcc ∨
      w.regs.wbState = .invalidSlave)
      (known : w.regs.wbState = .intAcc → (w.regs.invalidIntern || w.regs.intAck) = true) (beyond : Beyond w.regs)
      (executed : w.executed = cycles w.accepted) (answers : w.answers.length + 1 = w.accepted.length)

theorem cycles_append (past : List Request) (q : Request) :
    cycles (past ++ [q]) = cycles past ++ if external q.slaveNr then [q.cycle] else [] := by
  rw [cycles, List.filter_append, List.map_append, ← cycles]
  congr 1
  cases own : external q.slaveNr <;> simp [own]

theorem one_answer : ¬((clock g r i).ack = true ∧ (clock g r i).err = true) := by
  rintro ⟨ack, err⟩
  have acks : ((r.wbState == .intAcc && !r.invalidIntern && r.intAck) || r.wbState == .extAcc) = true := ack
  have errs : ((r.wbState == .intAcc && r.invalidIntern) || r.wbState == .extErr || r.wbState ==
    .invalidSlave) = true := err
  cases state : r.wbState <;> rw [state] at acks errs <;> simp_all

theorem no_answer (state : r.wbState = .idle ∨ r.wbState = .cycStart ∨ r.wbState = .extStall) :
    answersOf (clock g r i) = [] := by
  have ack : (clock g r i).ack = ((r.wbState == .intAcc && !r.invalidIntern && r.intAck) || r.wbState == .extAcc) := rfl
  have err : (clock g r i).err = ((r.wbState == .intAcc && r.invalidIntern) || r.wbState == .extErr ||
    r.wbState == .invalidSlave) := rfl
  rw [answersOf, ack, err]
  rcases state with state | state | state
  · rw [state]; rfl
  · rw [state]; rfl
  · rw [state]; rfl

theorem an_answer (state : r.wbState = .intAcc ∨ r.wbState = .extErr ∨ r.wbState = .extAcc ∨ r.wbState = .invalidSlave)
    (known : r.wbState = .intAcc → (r.invalidIntern || r.intAck) = true) : (answersOf (clock g r i)).length = 1 := by
  have ack : (clock g r i).ack = ((r.wbState == .intAcc && !r.invalidIntern && r.intAck) || r.wbState == .extAcc) := rfl
  have err : (clock g r i).err = ((r.wbState == .intAcc && r.invalidIntern) || r.wbState == .extErr ||
    r.wbState == .invalidSlave) := rfl
  rw [answersOf, ack, err]
  rcases state with state | state | state | state
  · have some := known state
    rw [state]
    cases invalid : r.invalidIntern with
    | true => rfl
    | false =>
      rw [invalid] at some
      rw [show r.intAck = true from some]
      rfl
  · rw [state]; rfl
  · rw [state]; rfl
  · rw [state]; rfl

theorem intern_known (state : r.wbState = .cycStart) :
    ((clock g r i).invalidIntern || (clock g r i).intAck) = true := by
  have here : (r.wbState == .cycStart) = true := by rw [state]; rfl
  show (invalidInternNext r i || intAckNext r i) = true
  unfold invalidInternNext intAckNext rdAcc wrAcc
  rw [here]
  cases i.we with
  | true => cases internReg r.adr <;> simp [readOnly]
  | false => cases internReg r.adr <;> simp

theorem accepts_none (busy : r.wbState ≠ .idle) : accepts r i = false := by
  rw [accepts, beq_eq_false_iff_ne.mpr busy]
  rfl

theorem Open.step (open' : Open w past q) (busy : w.regs.wbState ≠ .idle)
    (silent : answersOf (clock g w.regs i) = []) : Open (Bridge.step g w i) past q := by
  have none := accepts_none (i := i) busy
  refine ⟨?_, ?_, ?_, ?_⟩
  · show w.accepted ++ (if accepts w.regs i then [requestOf i] else []) = _
    rw [none, open'.accepted]
    exact List.append_nil _
  · show (if accepts w.regs i then slaveNrIn i else w.regs.slaveNr) = _
    rw [none]
    exact open'.slaveNr
  · show (if accepts w.regs i then adrIn i else w.regs.adr) = _
    rw [none]
    exact open'.adr
  · show (w.answers ++ answersOf (clock g w.regs i)).length = _
    rw [silent, List.append_nil]
    exact open'.answers

theorem accepted_busy (busy : w.regs.wbState ≠ .idle) : (Bridge.step g w i).accepted = w.accepted := by
  show w.accepted ++ (if accepts w.regs i then [requestOf i] else []) = _
  rw [accepts_none busy]
  exact List.append_nil _

theorem executed_none (none : strobes w.regs (clock g w.regs i) = []) : (Bridge.step g w i).executed = w.executed := by
  show w.executed ++ strobes w.regs (clock g w.regs i) = _
  rw [none, List.append_nil]

/-! ### One clock -/

theorem wbState_clock : (clock g r i).wbState = wbNext r i := rfl

theorem idle_step (state : w.regs.wbState = .idle) (beyond : Beyond w.regs) (executed : w.executed = cycles w.accepted)
    (answers : w.answers.length = w.accepted.length) : Phase (Bridge.step g w i) := by
  have still := quiet_clock (g := g) (i := i) (r := w.regs) (by rw [state]; exact WbCtrl.noConfusion)
  have done := executed_none (g := g) (i := i) beyond.strobes
  have silent := no_answer (g := g) (i := i) (Or.inl state)
  have next : (Bridge.step g w i).regs.wbState = if i.cyc && i.stb then .cycStart else .idle := by
    show wbNext w.regs i = _
    rw [wbNext, state]
  have takes : accepts w.regs i = (i.cyc && i.stb) := by
    rw [accepts, state]
    rfl
  have accepted : (Bridge.step g w i).accepted = w.accepted ++ if i.cyc && i.stb then [requestOf i] else [] := by
    rw [← takes]
    rfl
  have count : (Bridge.step g w i).answers.length = w.accepted.length := by
    show (w.answers ++ answersOf (clock g w.regs i)).length = _
    rw [silent, List.append_nil]
    exact answers
  cases strobe : i.cyc && i.stb with
  | false =>
    rw [strobe, if_neg Bool.false_ne_true] at next
    rw [strobe, if_neg Bool.false_ne_true, List.append_nil] at accepted
    refine .idle next (beyond.step still) ?_ ?_
    · rw [done, accepted]
      exact executed
    · rw [accepted]
      exact count
  | true =>
    rw [strobe, if_pos rfl] at next accepted
    rw [strobe] at takes
    have opened : Open (Bridge.step g w i) w.accepted (requestOf i) := by
      refine ⟨accepted, ?_, ?_, count⟩
      · show (if accepts w.regs i then slaveNrIn i else w.regs.slaveNr) = _
        rw [takes]
        rfl
      · show (if accepts w.regs i then adrIn i else w.regs.adr) = _
        rw [takes]
        rfl
    refine .decode next (beyond.step still) opened ?_
    rw [done]
    exact executed

theorem decode_step (state : w.regs.wbState = .cycStart) (beyond : Beyond w.regs)
    (open' : Open w past q) (executed : w.executed = cycles past) (settles : Settles w.regs 1) (held : Held w i) :
    Phase (Bridge.step g w i) := by
  have here : (w.regs.wbState == .cycStart) = true := by rw [state]; rfl
  have busy : w.regs.wbState ≠ .idle := by rw [state]; exact WbCtrl.noConfusion
  have next : Open (Bridge.step g w i) past q := open'.step busy (no_answer (Or.inr (Or.inl state)))
  have done := executed_none (g := g) (i := i) beyond.strobes
  have idle : (Bridge.step g w i).regs.sm = .idle := settles.idle
  cases own : external q.slaveNr with
  | true =>
    have ext : external w.regs.slaveNr = true := by
      rw [open'.slaveNr]
      exact own
    have other : ¬w.regs.slaveNr = 0 := by
      intro zero
      rw [zero] at ext
      cases ext
    obtain ⟨dir, dat⟩ := held state ext q (by rw [open'.accepted]; exact List.getLast?_concat ..)
    have raisesRd' : (Bridge.step g w i).regs.startRd = !q.we := by
      show raisesRd w.regs i = _
      rw [raisesRd, here, ext, dir, Bool.true_and, Bool.and_true]
    have raisesWr' : raisesWr w.regs i = q.we := by rw [raisesWr, here, ext, dir, Bool.true_and, Bool.true_or, Bool.and_true]
    refine .stall ?_ next own ?_ ?_ (.asked raisesRd' raisesWr' idle (done.trans executed))
    · show wbNext w.regs i = _
      rw [wbNext, state]
      simp only [other, ext, if_false, if_true]
    · show boardSel w.regs = _
      rw [boardSel, ext, open'.slaveNr]
      rfl
    · intro writes
      show (if raisesWr w.regs i then wrDataIn i else w.regs.wrData) = _
      rw [raisesWr', writes]
      exact dat writes
  | false =>
    have ext : external w.regs.slaveNr = false := by
      rw [open'.slaveNr]
      exact own
    have all : (Bridge.step g w i).executed = cycles (past ++ [q]) := by
      rw [done, executed, cycles_append, own, if_neg Bool.false_ne_true, List.append_nil]
    rcases cycStart_next (g := g) (i := i) state with stall | ⟨still, ends⟩
    · exact .multi stall next own (done.trans executed)
    · refine .closing (ends.imp_right fun rest => rest.imp_right Or.inr) ?_ (beyond.step still) ?_ ?_
      · exact fun _ => intern_known state
      · rw [next.accepted]
        exact all
      · rw [next.answers, next.accepted, List.length_append]
        rfl

theorem closing_step
    (state : w.regs.wbState = .intAcc ∨ w.regs.wbState = .extErr ∨ w.regs.wbState = .extAcc ∨
      w.regs.wbState = .invalidSlave)
    (known : w.regs.wbState = .intAcc → (w.regs.invalidIntern || w.regs.intAck) = true) (beyond : Beyond w.regs)
    (executed : w.executed = cycles w.accepted) (answers : w.answers.length + 1 = w.accepted.length) :
    Phase (Bridge.step g w i) := by
  have answer := an_answer (g := g) (i := i) state known
  have busy : w.regs.wbState ≠ .idle ∧ w.regs.wbState ≠ .cycStart ∧ wbNext w.regs i = .idle := by
    rcases state with state | state | state | state
    all_goals
      rw [wbNext, state]
      exact ⟨WbCtrl.noConfusion, WbCtrl.noConfusion, rfl⟩
  have same := accepted_busy (g := g) (i := i) busy.1
  refine .idle busy.2.2 (beyond.step (quiet_clock busy.2.1)) ?_ ?_
  · rw [executed_none beyond.strobes, same]
    exact executed
  · rw [same]
    show (w.answers ++ answersOf (clock g w.regs i)).length = _
    rw [List.length_append, answer]
    exact answers

theorem stall_next (state : r.wbState = .extStall) :
    (clock g r i).wbState = if answered r then (if r.rdErr || r.wrErr then .extErr else .extAcc) else .extStall := by
  rw [wbState_clock, wbNext, answered, state]
  cases r.rdErr <;> cases r.wrErr <;> cases r.extAck <;> rfl

theorem answered_step (state : w.regs.wbState = .extStall) (open' : Open w past q)
    (beyond : Beyond w.regs) (executed : w.executed = cycles (past ++ [q])) (ends : answered w.regs = true) :
    Phase (Bridge.step g w i) := by
  have still := quiet_clock (g := g) (i := i) (r := w.regs) (by rw [state]; exact WbCtrl.noConfusion)
  have next := open'.step (g := g) (i := i) (by rw [state]; exact WbCtrl.noConfusion)
    (no_answer (Or.inr (Or.inr state)))
  have goes := stall_next (g := g) (i := i) state
  rw [ends, if_pos rfl] at goes
  have closes : (clock g w.regs i).wbState = .extErr ∨ (clock g w.regs i).wbState = .extAcc := by
    rw [goes]
    cases w.regs.rdErr || w.regs.wrErr with
    | true => exact Or.inl rfl
    | false => exact Or.inr rfl
  refine .closing (Or.inr (closes.imp_right Or.inl)) ?_ (beyond.step still) ?_ ?_
  · intro other
    rcases closes with closes | closes
    · exact WbCtrl.noConfusion (closes.symm.trans other)
    · exact WbCtrl.noConfusion (closes.symm.trans other)
  · rw [executed_none beyond.strobes, next.accepted]
    exact executed
  · rw [next.answers, next.accepted, List.length_append]
    rfl

theorem multi_step (state : w.regs.wbState = .extStall) (open' : Open w past q)
    (other : external q.slaveNr = false) (executed : w.executed = cycles past) (orderly : Orderly w i) :
    Phase (Bridge.step g w i) := by
  have next := open'.step (g := g) (i := i) (by rw [state]; exact WbCtrl.noConfusion)
    (no_answer (Or.inr (Or.inr state)))
  cases ends : answered w.regs with
  | true =>
    refine answered_step state open' (settles_beyond (orderly.inTime ends)) ?_ ends
    rw [cycles_append, other, if_neg Bool.false_ne_true, List.append_nil]
    exact executed
  | false =>
    have goes := stall_next (g := g) (i := i) state
    rw [ends, if_neg Bool.false_ne_true] at goes
    have none : strobes w.regs (clock g w.regs i) = [] := by
      have kept : (clock g w.regs i).slaveNr = q.slaveNr := next.slaveNr
      rw [strobes, kept, other, Bool.and_false, if_neg Bool.false_ne_true]
    refine .multi goes next other ?_
    rw [executed_none none]
    exact executed

theorem due_goes (own : external r.slaveNr = true) (due : Due r) (data : r.sm = .rdCyc ∨ r.sm = .wrCyc)
    (off : r.ds = false) :
    smNext r = r.sm := by
  by_cases valid : high r.dValidCnt = true
  · obtain ⟨sync, time⟩ := due own data valid off
    rcases data with state | state
    · rw [smNext, state]
      simp [valid, sync, time]
    · rw [smNext, state]
      simp [valid, wrDtack, sync, time]
  · rcases data with state | state
    · rw [smNext, state]
      exact if_neg valid
    · rw [smNext, state]
      simp [valid]

theorem Stage.step (stage : Stage w past q) (state : w.regs.wbState = .extStall)
    (open' : Open w past q) (own : external q.slaveNr = true) (sel : w.regs.slaveSel = 1#12 <<< (q.slaveNr.toNat - 1))
    (dat : q.we = true → w.regs.wrData = q.dat) (due : Due w.regs) : Stage (Bridge.step g w i) past q := by
  have still := quiet_clock (g := g) (i := i) (r := w.regs) (by rw [state]; exact WbCtrl.noConfusion)
  cases stage with
  | asked rd wr sm executed =>
    have none : strobes w.regs (clock g w.regs i) = [] := strobes_none (fun on => by
      rw [ds_clock, dsNext, sm] at on
      cases on)
    refine .setup ?_ ?_ ?_ ?_ ((executed_none none).trans executed)
    · show smNext w.regs = _
      rw [smNext, sm]
      simp only [rd, wr]
      cases q.we <;> rfl
    · show scubAddrNext w.regs = _
      rw [scubAddrNext, sm]
      simp only [rd, wr, Bool.not_or_self, if_true]
      exact open'.adr
    · show rdnwrNext w.regs = _
      rw [rdnwrNext, sm]
      simp only [rd, wr, Bool.not_not, Bool.and_self]
    · show dsNext w.regs = _
      rw [dsNext, sm]
  | setup sm addr rdnwr ds executed =>
    have keeps : dsNext w.regs = w.regs.ds ∧ scubAddrNext w.regs = w.regs.scubAddr ∧
      rdnwrNext w.regs = w.regs.rdnwr := by
      rw [dsNext, scubAddrNext, rdnwrNext, sm]
      cases q.we <;> exact ⟨rfl, rfl, rfl⟩
    have none : strobes w.regs (clock g w.regs i) = [] := strobes_none (fun on => keeps.1.symm.trans on)
    have executed := (executed_none none).trans executed
    by_cases over' : high w.regs.selDlyCnt = true
    · refine .data ?_ (keeps.2.1.trans addr) (keeps.2.2.trans rdnwr) (keeps.1.trans ds) ?_ executed
      · show smNext w.regs = _
        rw [smNext, sm]
        cases q.we <;> exact if_pos over'
      · show scubSelNext w.regs = _
        rw [scubSelNext, sm, ← sel]
        cases q.we <;> exact if_pos over'
    · refine .setup ?_ (keeps.2.1.trans addr) (keeps.2.2.trans rdnwr) (keeps.1.trans ds) executed
      show smNext w.regs = _
      rw [smNext, sm]
      cases q.we <;> exact if_neg over'
  | data sm addr rdnwr ds sel' executed =>
    have here : w.regs.sm = .rdCyc ∨ w.regs.sm = .wrCyc := by
      rw [sm]
      cases q.we with
      | true => exact Or.inr rfl
      | false => exact Or.inl rfl
    have goes : smNext w.regs = w.regs.sm := due_goes (by rw [open'.slaveNr]; exact own) due here ds
    have open'' : endsData w.regs = false := by
      rw [endsData, goes]
      simp
    have keeps : scubAddrNext w.regs = w.regs.scubAddr ∧ rdnwrNext w.regs = w.regs.rdnwr ∧
      scubSelNext w.regs = w.regs.scubSel := by
      rw [scubAddrNext, rdnwrNext, scubSelNext, open'']
      rcases here with here | here <;> rw [here] <;> exact ⟨rfl, rfl, rfl⟩
    by_cases valid : high w.regs.dValidCnt = true
    · have rises : (clock g w.regs i).ds = true := by
        rw [ds_clock, dsNext, open'']
        rcases here with here | here <;> rw [here] <;> exact if_pos valid
      have number : (clock g w.regs i).slaveNr = q.slaveNr :=
        (open'.step (g := g) (i := i) (by rw [state]; exact WbCtrl.noConfusion)
        (no_answer (Or.inr (Or.inr state)))).slaveNr
      refine .beyond ?_ ?_
      · unfold Beyond
        show match smNext w.regs with | .idle => _ | .sRdCyc | .sWrCyc => _ | .rdCyc | .wrCyc => _ | _ => _
        rw [goes]
        rcases here with here | here <;> rw [here] <;> exact Or.inl rises
      · show w.executed ++ strobes w.regs (clock g w.regs i) = _
        have drives : scubDataOut (clock g w.regs i) = if q.we then some q.dat else none := by
          have kept : (clock g w.regs i).wrData = w.regs.wrData := by
            show (if raisesWr w.regs i then _ else _) = _
            rw [raisesWr, state]
            rfl
          rw [scubDataOut, kept, sm_clock, goes, sm]
          cases writes : q.we with
          | true => rw [dat writes]; rfl
          | false => rfl
        have same : strobes w.regs (clock g w.regs i) = [q.cycle] := by
          rw [strobes, rises, ds, number, own, drives]
          have addr' : (clock g w.regs i).scubAddr = q.adr := keeps.1.trans addr
          have rdnwr' : (clock g w.regs i).rdnwr = !q.we := keeps.2.1.trans rdnwr
          have scubSel' : (clock g w.regs i).scubSel = 1#12 <<< (q.slaveNr.toNat - 1) := keeps.2.2.trans sel'
          rw [addr', rdnwr', scubSel']
          rfl
        rw [same, executed, cycles_append, own, if_pos rfl]
    · have low : dsNext w.regs = false := by
        rw [dsNext]
        rcases here with here | here <;> rw [here] <;> exact (if_neg valid).trans ds
      have none : strobes w.regs (clock g w.regs i) = [] :=
        strobes_none (fun on => absurd (low.symm.trans on) Bool.false_ne_true)
      exact .data (goes.trans sm) (keeps.1.trans addr) (keeps.2.1.trans rdnwr) low
        (keeps.2.2.trans sel') ((executed_none none).trans executed)
  | beyond beyond executed => exact .beyond (beyond.step still) ((executed_none beyond.strobes).trans executed)

theorem Stage.ended (stage : Stage w past q) (beyond : Beyond w.regs) (due : Due w.regs)
    (own : external w.regs.slaveNr = true) : w.executed = cycles (past ++ [q]) := by
  cases stage with
  | asked rd wr sm _ =>
    unfold Beyond at beyond
    rw [sm] at beyond
    have quiet : requested w.regs = false := beyond
    rw [requested, rd, wr, Bool.not_or_self] at quiet
    cases quiet
  | setup sm _ _ _ _ =>
    unfold Beyond at beyond
    rw [sm] at beyond
    cases writes : q.we <;> rw [writes] at beyond <;> exact beyond.elim
  | data sm _ _ ds _ _ =>
    have here : w.regs.sm = .rdCyc ∨ w.regs.sm = .wrCyc := by
      rw [sm]
      cases q.we with
      | true => exact Or.inr rfl
      | false => exact Or.inl rfl
    rcases beyond.data here with on | ends
    · rw [ds] at on
      cases on
    · exact absurd (due_goes own due here ds) ends
  | beyond _ executed => exact executed

theorem stall_step (state : w.regs.wbState = .extStall) (open' : Open w past q)
    (own : external q.slaveNr = true) (sel : w.regs.slaveSel = 1#12 <<< (q.slaveNr.toNat - 1))
    (dat : q.we = true → w.regs.wrData = q.dat)
    (stage : Stage w past q) (orderly : Orderly w i) : Phase (Bridge.step g w i) := by
  cases ends : answered w.regs with
  | true =>
    have beyond := settles_beyond (orderly.inTime ends)
    exact answered_step state open' beyond (stage.ended beyond orderly.due (by rw [open'.slaveNr]; exact own)) ends
  | false =>
    have goes := stall_next (g := g) (i := i) state
    rw [ends, if_neg Bool.false_ne_true] at goes
    have next := open'.step (g := g) (i := i) (by rw [state]; exact WbCtrl.noConfusion)
      (no_answer (Or.inr (Or.inr state)))
    refine .stall goes next own ?_ ?_ (stage.step state open' own sel dat orderly.due)
    · show boardSel w.regs = _
      rw [boardSel, open'.slaveNr, own]
      rfl
    · intro writes
      show (if raisesWr w.regs i then _ else w.regs.wrData) = _
      rw [raisesWr, state]
      exact dat writes

theorem Phase.step (phase : Phase w) (coupled : Coupled w.regs) (orderly : Orderly w i) :
    Phase (Bridge.step g w i) := by
  cases phase with
  | idle state beyond executed answers => exact idle_step state beyond executed answers
  | decode state beyond open' executed =>
    have settles : Settles w.regs 1 := by
      unfold Coupled at coupled
      rw [state] at coupled
      exact coupled
    exact decode_step state beyond open' executed settles orderly.held
  | stall state open' own sel dat stage => exact stall_step state open' own sel dat stage orderly
  | multi state open' other executed => exact multi_step state open' other executed orderly
  | closing state known beyond executed answers => exact closing_step state known beyond executed answers

theorem Open.counts (open' : Open w past q) (busy : w.regs.wbState ≠ .idle) :
    w.answers.length + (if w.regs.wbState = .idle then 0 else 1) = w.accepted.length := by
  rw [if_neg busy, open'.answers, open'.accepted, List.length_append]
  rfl

theorem Phase.faithful (phase : Phase w) (one : ¬(w.regs.ack = true ∧ w.regs.err = true)) : Faithful w := by
  cases phase with
  | idle state _ executed answers => exact ⟨Or.inl executed, by rw [if_pos state, answers]; rfl, one⟩
  | decode state _ open' executed =>
    exact ⟨Or.inr ⟨_, _, open'.accepted, executed, open'.answers⟩,
      open'.counts (by rw [state]; exact WbCtrl.noConfusion), one⟩
  | stall state open' _ _ _ stage =>
    have counts := open'.counts (by rw [state]; exact WbCtrl.noConfusion)
    cases stage with
    | asked _ _ _ executed => exact ⟨Or.inr ⟨_, _, open'.accepted, executed, open'.answers⟩, counts, one⟩
    | setup _ _ _ _ executed => exact ⟨Or.inr ⟨_, _, open'.accepted, executed, open'.answers⟩, counts, one⟩
    | data _ _ _ _ _ executed => exact ⟨Or.inr ⟨_, _, open'.accepted, executed, open'.answers⟩, counts, one⟩
    | beyond _ executed => exact ⟨Or.inl (by rw [open'.accepted]; exact executed), counts, one⟩
  | multi state open' other executed =>
    refine ⟨Or.inl ?_, open'.counts (by rw [state]; exact WbCtrl.noConfusion), one⟩
    rw [open'.accepted, cycles_append, other, if_neg Bool.false_ne_true, List.append_nil]
    exact executed
  | closing state _ _ executed answers =>
    have busy : w.regs.wbState ≠ .idle := by
      rcases state with state | state | state | state <;> rw [state] <;> exact WbCtrl.noConfusion
    exact ⟨Or.inl executed, by rw [if_neg busy]; exact answers, one⟩

end BelProject.ScuBus.Bridge
