import BelProject.Library.Traces
import BelProject.ScuBus.InternalRegs

/-! Multicasts. The start request and the flag for a multicast are up for one clock. What they
select passes a register that is loaded from them in every clock, and the delay for the slower
slaves runs only while the flag is up. -/

namespace BelProject.ScuBus.Multicast
open Master Library.Traces Library.Runs
open Starts (defaults junk)
open ScubSM (noConfusion)

/-! ### A multicast and its environment -/

/-- `set_ge_1` gives one clock at least. -/
structure Valid (g : Generics) : Prop where
  selDly : 1 ≤ g.selDly
  dValidToDS : 1 ≤ g.dValidToDS
  timeOut : 1 ≤ g.timeOut
  dlyMulticastDt : 1 ≤ g.dlyMulticastDt

/-- The request for a multicast meets the idle machine, and `dtack` of earlier cycles is gone. -/
structure Begins (r : Registers) : Prop where
  asks : r.multiWr = true
  meets : r.sm = .idle
  sync0 : r.sync0 = true
  sync1 : r.sync1 = true
  extAck : r.extAck = false

/-- The slaves give `dtack` while the data strobe is active, and may hold it. -/
def Answered (s : ℕ → Registers) (inputs : ℕ → Inputs) : Prop :=
  ∀ n, (inputs n).nDtack = false → (s n).ds = true ∨ ∃ m, n = m + 1 ∧ (inputs m).nDtack = false

/-- The machine is in the write that the request in the first state has started. -/
def Writing (s : ℕ → Registers) (n : ℕ) : Prop := ∀ m, 0 < m → m ≤ n → (s m).sm = .sWrCyc ∨ (s m).sm = .wrCyc

/-- From the end of the select delay until the data strobe is released. -/
def DataPhase (s : ℕ → Registers) (n : ℕ) : Prop := Writing s n ∧ (s n).sm = .wrCyc

structure Performed (g : Generics) (s : ℕ → Registers) (inputs : ℕ → Inputs) : Prop where
  selects : ∀ n, DataPhase s n → (s n).scubSel = (s 0).multiSel
  strobes : ∃ first, ∀ k < g.dlyMulticastDt, DataPhase s (first + k) ∧ (s (first + k)).ds = true
  acknowledged : ∀ n, (inputs n).nDtack = false → DataPhase s (n + 1) → high (s (n + 1)).timeOutCnt = false →
    (∃ m > n, (inputs m).nDtack = true) → ∃ m, (s m).ack = true ∧ ∀ k ≤ m, (s k).err = false

def dataClock (g : Generics) : ℕ := g.selDly + 1

/-- Nothing is to be selected, or the select delay is a single clock, the time-out leaves room for
the delay, and no slave answers before it. -/
structure Favourable (g : Generics) (r : Registers) (inputs : ℕ → Inputs) : Prop where
  selected : r.multiSel = 0 ∨ g.selDly = 1
  room : g.dValidToDS + g.dlyMulticastDt ≤ g.timeOut
  late : ∀ k, g.dValidToDS ≤ k → k + 2 < g.dValidToDS + g.dlyMulticastDt → (inputs (dataClock g + k)).nDtack = true

variable {g : Generics} {r : Registers} {i : Inputs} {inputs : ℕ → Inputs}

/-! ### The state of a request -/

structure Inv (r : Registers) : Prop where
  errors : InternalRegs.Inv r
  strobe : r.ds = true → r.sm = .rdCyc ∨ r.sm = .wrCyc
  state : r.multiWr = true → r.wbState = .extStall
  slaveNr : r.multiWr = true → r.slaveNr = 13
  startRd : r.multiWr = true → r.startRd = false
  startWr : r.multiWr = true → r.startWr = true
  err : r.multiWr = true → r.err = false

theorem start_inv (g : Generics) (junk : Junk) : Inv (start g junk) where
  errors := InternalRegs.start_inv g junk
  strobe := Bool.noConfusion
  state := Bool.noConfusion
  slaveNr := Bool.noConfusion
  startRd := Bool.noConfusion
  startWr := Bool.noConfusion
  err := Bool.noConfusion

theorem strobe_clock (strobe : r.ds = true → r.sm = .rdCyc ∨ r.sm = .wrCyc) (next : (clock g r i).ds = true) :
    (clock g r i).sm = .rdCyc ∨ (clock g r i).sm = .wrCyc := by
  change dsNext r = true at next
  change smNext r = _ ∨ smNext r = _
  have data : r.sm = .rdCyc ∨ r.sm = .wrCyc := by
    rw [dsNext] at next
    cases state : r.sm with
    | rdCyc => exact Or.inl rfl
    | wrCyc => exact Or.inr rfl
    | idle => rw [state] at next; cases next
    | _ =>
      rw [state] at next
      rw [state] at strobe
      rcases strobe next with other | other
      · cases other
      · cases other
  have stays : smNext r = r.sm := by
    cases valid : high r.dValidCnt with
    | false =>
      rcases data with state | state
      · rw [smNext, state]; simp only [valid, Bool.false_eq_true, if_false]
      · rw [smNext, state]; simp only [valid, Bool.false_and, Bool.false_eq_true, if_false]
    | true =>
      have on : endsData r = false := by
        rw [dsNext] at next
        rcases data with state | state
        · rw [state] at next; simpa [valid] using next
        · rw [state] at next; simpa [valid] using next
      by_contra leaves
      have ends : endsData r = true := by
        rw [endsData, bne_iff_ne.mpr leaves, Bool.and_true]
        rcases data with state | state
        · rw [state]; rfl
        · rw [state]; rfl
      exact absurd (on.symm.trans ends) Bool.noConfusion
  rw [stays]
  exact data

theorem Inv.clock (inv : Inv r) : Inv (clock g r i) := by
  have raises : (Master.clock g r i).multiWr = true → r.wbState = .cycStart ∧ i.we = true ∧ r.slaveNr = 13 := by
    intro asks
    change (raisesWr r i && multicast r.slaveNr) = true at asks
    obtain ⟨asks, multi⟩ := Bool.and_eq_true_iff.mp asks
    rw [raisesWr, Bool.and_eq_true_iff, Bool.and_eq_true_iff] at asks
    exact ⟨beq_iff_eq.mp asks.1.1, asks.1.2, beq_iff_eq.mp multi⟩
  constructor
  · exact InternalRegs.inv_clock
  · exact strobe_clock inv.strobe
  · intro asks
    obtain ⟨state, write, nr⟩ := raises asks
    change wbNext r i = _
    rw [wbNext, state, nr, write]
    rfl
  · intro asks
    obtain ⟨state, _, nr⟩ := raises asks
    change (if accepts r i then slaveNrIn i else r.slaveNr) = _
    have busy : accepts r i = false := by rw [accepts, state]; rfl
    rw [busy]
    exact nr
  · intro asks
    obtain ⟨_, write, _⟩ := raises asks
    change raisesRd r i = false
    rw [raisesRd, write, Bool.not_true, Bool.and_false, Bool.false_and]
  · intro asks
    change (raisesWr r i && multicast r.slaveNr) = true at asks
    exact (Bool.and_eq_true_iff.mp asks).1
  · intro asks
    obtain ⟨state, _, _⟩ := raises asks
    change ((r.wbState == .intAcc && r.invalidIntern) || r.wbState == .extErr || r.wbState == .invalidSlave) = false
    rw [state]
    rfl

theorem Inv.run {past : List Inputs} (inv : Inv r) : Inv (run g r past) :=
  (along_true (Master.clock g) r past).invariant Inv inv fun inv _ => inv.clock

/-! ### The phases of the write -/

/-- The Wishbone side waits for the end of the multicast. -/
structure Waiting (r : Registers) : Prop where
  state : r.wbState = .extStall
  slaveNr : r.slaveNr = 13
  startRd : r.startRd = false
  startWr : r.startWr = false
  multiWr : r.multiWr = false
  rdErr : r.rdErr = false
  wrErr : r.wrErr = false
  ack : r.ack = false
  err : r.err = false

structure Setup (g : Generics) (sel : BitVec 12) (n : ℕ) (r : Registers) : Prop where
  waiting : Waiting r
  state : r.sm = .sWrCyc
  selDlyCnt : r.selDlyCnt = g.selDly - 1 - n
  dValidCnt : r.dValidCnt = cntStart g.dValidToDS
  timeOutCnt : r.timeOutCnt = cntStart g.timeOut
  slaveSel : r.slaveSel = if n = 1 then sel else 0
  ds : r.ds = false
  sync1 : r.sync1 = true
  extAck : r.extAck = false

structure Data (g : Generics) (sel : BitVec 12) (k : ℕ) (r : Registers) : Prop where
  waiting : Waiting r
  state : r.sm = .wrCyc
  dValidCnt : r.dValidCnt = max ((g.dValidToDS : Int) - 2 - k) (-1)
  timeOutCnt : r.timeOutCnt = max ((g.timeOut : Int) - 2 - k) (-1)
  scubSel : r.scubSel = sel
  ds : r.ds = decide (g.dValidToDS ≤ k)
  sync1 : r.sync1 = true
  extAck : r.extAck = false

theorem waiting_clock (state : r.wbState = .extStall) (slaveNr : r.slaveNr = 13)
    (rdErr : r.rdErr = false) (wrErr : r.wrErr = false)
    (extAck : r.extAck = false) (inTime : r.sm ≠ .toRdCyc ∧ r.sm ≠ .toWrCyc) : Waiting (clock g r i) := by
  constructor
  · change wbNext r i = _
    rw [wbNext, state, rdErr, wrErr, extAck]
    rfl
  · change (if accepts r i then slaveNrIn i else r.slaveNr) = _
    have busy : accepts r i = false := by rw [accepts, state]; rfl
    rw [busy]
    exact slaveNr
  · change raisesRd r i = _
    rw [raisesRd, state]
    rfl
  · change raisesWr r i = _
    rw [raisesWr, state]
    rfl
  · change (raisesWr r i && multicast r.slaveNr) = _
    rw [raisesWr, state]
    rfl
  · change (r.sm == .toRdCyc && !clears r i 1) = _
    rw [beq_eq_false_iff_ne.mpr inTime.1, Bool.false_and]
  · change (r.sm == .toWrCyc && !clears r i 0) = _
    rw [beq_eq_false_iff_ne.mpr inTime.2, Bool.false_and]
  · change ((r.wbState == .intAcc && !r.invalidIntern && r.intAck) || r.wbState == .extAcc) = _
    rw [state]
    rfl
  · change ((r.wbState == .intAcc && r.invalidIntern) || r.wbState == .extErr || r.wbState == .invalidSlave) = _
    rw [state]
    rfl

theorem Waiting.clock (waiting : Waiting r) (extAck : r.extAck = false) (inTime : r.sm ≠ .toRdCyc ∧ r.sm ≠ .toWrCyc) :
    Waiting (clock g r i) :=
  waiting_clock waiting.state waiting.slaveNr waiting.rdErr waiting.wrErr extAck inTime

theorem setup_first (inv : Inv r) (begins : Begins r) : Setup g r.multiSel 1 (clock g r i) := by
  have asks := inv.startWr begins.asks
  have off : r.startRd = false := inv.startRd begins.asks
  have idle := begins.meets
  have rdErr : r.rdErr = false := by
    by_contra up
    exact absurd (idle.symm.trans (inv.errors.rdErr (Bool.eq_true_of_not_eq_false up))) noConfusion
  have wrErr : r.wrErr = false := by
    by_contra up
    exact absurd (idle.symm.trans (inv.errors.wrErr (Bool.eq_true_of_not_eq_false up))) noConfusion
  have inTime : r.sm ≠ .toRdCyc ∧ r.sm ≠ .toWrCyc := by
    rw [idle]
    exact ⟨noConfusion, noConfusion⟩
  constructor
  · exact waiting_clock (inv.state begins.asks) (inv.slaveNr begins.asks) rdErr wrErr begins.extAck inTime
  · change smNext r = _
    rw [smNext, idle, off, asks]
    rfl
  · have loads : (clock g r i).selDlyCnt = cntStart g.selDly := by
      rw [selDlyCnt_clock, idle]
    rw [loads, cntStart]
    omega
  · rw [dValidCnt_clock, idle]
  · change (if r.sm == .rdCyc || r.sm == .wrCyc then _ else cntStart g.timeOut) = _
    rw [idle]
    rfl
  · change boardSel r = _
    rw [boardSel, inv.slaveNr begins.asks, asks]
    rfl
  · change dsNext r = _
    rw [dsNext, idle]
  · exact begins.sync0
  · change (!r.sync1 && r.sync0) = _
    rw [begins.sync1]
    rfl

variable {sel : BitVec 12}

variable {n : ℕ}

theorem Setup.clock (setup : Setup g sel n r) (more : n < g.selDly) (first : 1 ≤ n) (sync0 : r.sync0 = true) :
    Setup g sel (n + 1) (Master.clock g r i) := by
  have state := setup.state
  have goes : high r.selDlyCnt = false := by
    rw [high, setup.selDlyCnt]
    exact decide_eq_false (by omega)
  have inTime : r.sm ≠ .toRdCyc ∧ r.sm ≠ .toWrCyc := by
    rw [state]
    exact ⟨noConfusion, noConfusion⟩
  constructor
  · exact setup.waiting.clock setup.extAck inTime
  · change smNext r = _
    rw [smNext, state]
    simp only [goes, Bool.false_eq_true, if_false]
  · have counts : (Master.clock g r i).selDlyCnt = countDown r.selDlyCnt := by
      rw [selDlyCnt_clock, state]
    rw [counts, countDown, goes, if_neg Bool.false_ne_true, setup.selDlyCnt]
    omega
  · rw [dValidCnt_clock, state]
    exact setup.dValidCnt
  · change (if r.sm == .rdCyc || r.sm == .wrCyc then _ else cntStart g.timeOut) = _
    rw [state]
    rfl
  · change boardSel r = _
    rw [boardSel, setup.waiting.slaveNr, setup.waiting.startWr, if_neg (by omega : ¬n + 1 = 1)]
    rfl
  · change dsNext r = _
    rw [dsNext, state]
    exact setup.ds
  · exact sync0
  · change (!r.sync1 && r.sync0) = _
    rw [setup.sync1]
    rfl

theorem Setup.ends (setup : Setup g sel n r) (valid : Valid g) (last : n = g.selDly) (sync0 : r.sync0 = true) :
    Data g (if n = 1 then sel else 0) 0 (Master.clock g r i) := by
  have state := setup.state
  have elapsed : high r.selDlyCnt = true := by
    rw [high, setup.selDlyCnt]
    exact decide_eq_true (by omega)
  have inTime : r.sm ≠ .toRdCyc ∧ r.sm ≠ .toWrCyc := by
    rw [state]
    exact ⟨noConfusion, noConfusion⟩
  have someDelay := valid.dValidToDS
  have someTime := valid.timeOut
  constructor
  · exact setup.waiting.clock setup.extAck inTime
  · change smNext r = _
    rw [smNext, state]
    exact if_pos elapsed
  · have keeps : (Master.clock g r i).dValidCnt = r.dValidCnt := by
      rw [dValidCnt_clock, state]
    rw [keeps, setup.dValidCnt, cntStart]
    omega
  · have loads : (Master.clock g r i).timeOutCnt = cntStart g.timeOut := by
      change (if r.sm == .rdCyc || r.sm == .wrCyc then _ else cntStart g.timeOut) = _
      rw [state]
      rfl
    rw [loads, cntStart]
    omega
  · change scubSelNext r = _
    rw [scubSelNext, state, ← setup.slaveSel]
    exact if_pos elapsed
  · change dsNext r = _
    rw [dsNext, state, decide_eq_false (by omega)]
    exact setup.ds
  · exact sync0
  · change (!r.sync1 && r.sync0) = _
    rw [setup.sync1]
    rfl

def Ending (g : Generics) (k : ℕ) (r : Registers) : Prop := g.dValidToDS ≤ k + 1 ∧ (r.sync0 = false ∨ g.timeOut ≤ k + 1)

variable {k : ℕ}

theorem Data.high_valid (data : Data g sel k r) : high r.dValidCnt = decide (g.dValidToDS ≤ k + 1) := by
  rw [high, data.dValidCnt]
  exact decide_eq_decide.mpr (by omega)

theorem Data.high_timeOut (data : Data g sel k r) : high r.timeOutCnt = decide (g.timeOut ≤ k + 1) := by
  rw [high, data.timeOutCnt]
  exact decide_eq_decide.mpr (by omega)

theorem Data.next (data : Data g sel k r) :
    smNext r = if g.dValidToDS ≤ k + 1 ∧ (r.sync0 = false ∨ g.timeOut ≤ k + 1) then (if g.timeOut ≤
      k + 1 then .toWrCyc else .eWrCyc)
      else .wrCyc := by
  rw [smNext, data.state]
  simp only [data.high_valid, data.high_timeOut, wrDtack, data.waiting.multiWr, Bool.not_false,
    Bool.true_or, Bool.and_true,
    Bool.and_eq_true, Bool.or_eq_true, decide_eq_true_eq, Bool.not_eq_true']

theorem Data.clock (data : Data g sel k r) (goes : ¬Ending g k r) (sync0 : r.sync0 = true) :
    Data g sel (k + 1) (Master.clock g r i) := by
  have state := data.state
  have stays : smNext r = .wrCyc := data.next.trans (if_neg goes)
  have on : endsData r = false := by
    rw [endsData, stays, state]
    rfl
  have inTime : r.sm ≠ .toRdCyc ∧ r.sm ≠ .toWrCyc := by
    rw [state]
    exact ⟨noConfusion, noConfusion⟩
  constructor
  · exact data.waiting.clock data.extAck inTime
  · exact stays
  · have counts : (Master.clock g r i).dValidCnt = countDown r.dValidCnt := by
      rw [dValidCnt_clock, state]
    rw [counts, countDown, data.high_valid, data.dValidCnt]
    by_cases done : g.dValidToDS ≤ k + 1
    · rw [decide_eq_true done, if_pos rfl]
      omega
    · rw [decide_eq_false done, if_neg Bool.false_ne_true]
      omega
  · have counts : (Master.clock g r i).timeOutCnt = countDown r.timeOutCnt := by
      change (if r.sm == .rdCyc || r.sm == .wrCyc then _ else cntStart g.timeOut) = _
      rw [state]
      rfl
    rw [counts, countDown, data.high_timeOut, data.timeOutCnt]
    by_cases done : g.timeOut ≤ k + 1
    · rw [decide_eq_true done, if_pos rfl]
      omega
    · rw [decide_eq_false done, if_neg Bool.false_ne_true]
      omega
  · change scubSelNext r = _
    rw [scubSelNext, state]
    simp only [on, Bool.false_eq_true, if_false]
    exact data.scubSel
  · change dsNext r = _
    rw [dsNext, state]
    simp only [on, data.high_valid, data.ds, Bool.not_false]
    by_cases valid : g.dValidToDS ≤ k + 1
    · simp only [valid, decide_true, if_true]
    · simp only [valid, decide_false, Bool.false_eq_true, if_false]
      exact decide_eq_false (by omega)
  · exact sync0
  · change (!r.sync1 && r.sync0) = _
    rw [data.sync1]
    rfl

/-! ### The course of a multicast -/

/-- A multicast that begins in a reachable state, with slaves that answer the data strobe. -/
structure Course (g : Generics) (r : Registers) (inputs : ℕ → Inputs) : Prop where
  valid : Valid g
  inv : Inv r
  begins : Begins r
  answered : Answered (trace (clock g) r inputs) inputs

def selection (g : Generics) (r : Registers) : BitVec 12 := if g.selDly = 1 then r.multiSel else 0

/-- No slave has answered by the time `dtack` takes to get into the k-th clock of the data phase. -/
def Unanswered (g : Generics) (inputs : ℕ → Inputs) (k : ℕ) :
    Prop := ∀ j, j + 1 < k → (inputs (dataClock g + j)).nDtack = true

section
variable (course : Course g r inputs)
include course

theorem Course.released (before : ∀ m, n = m + 1 → (inputs m).nDtack = true)
    (off : (trace (Master.clock g) r inputs n).ds = false) : (inputs n).nDtack = true := by
  by_contra given
  rcases course.answered n (Bool.eq_false_iff.mpr given) with on | ⟨m, next, held⟩
  · exact absurd (on.symm.trans off) Bool.noConfusion
  · exact absurd (held.symm.trans (before m next)) Bool.noConfusion

theorem Course.setup (more : n + 1 ≤ g.selDly) :
    Setup g r.multiSel (n + 1) (trace (Master.clock g) r inputs (n + 1)) ∧ (inputs n).nDtack = true := by
  induction n with
  | zero =>
    have idle := course.begins.meets
    have off : r.ds = false := by
      by_contra on
      rcases course.inv.strobe (Bool.eq_true_of_not_eq_false on) with state | state
      · exact absurd (idle.symm.trans state) noConfusion
      · exact absurd (idle.symm.trans state) noConfusion
    exact ⟨setup_first course.inv course.begins,
      course.released (fun m next => absurd next (Nat.succ_ne_zero m).symm) off⟩
  | succ n ih =>
    obtain ⟨setup, quiet⟩ := ih (by omega)
    constructor
    · exact setup.clock (by omega) (by omega) quiet
    · apply course.released
      · intro m next
        rw [← Nat.succ.inj next]
        exact quiet
      · exact setup.ds

theorem Course.first :
    Data g (selection g r) 0 (trace (Master.clock g) r inputs (dataClock g)) ∧ (inputs g.selDly).nDtack = true := by
  have some := course.valid.selDly
  obtain ⟨n, last⟩ : ∃ n, g.selDly = n + 1 := ⟨g.selDly - 1, by omega⟩
  obtain ⟨setup, quiet⟩ := course.setup (n := n) last.ge
  constructor
  · have first := setup.ends (i := inputs (n + 1)) course.valid last.symm quiet
    rw [← last] at first
    exact first
  · rw [last]
    apply course.released
    · intro m next
      rw [← Nat.succ.inj next]
      exact quiet
    · exact setup.ds

theorem Course.sync0 (unanswered : Unanswered g inputs (k + 1)) :
    (trace (Master.clock g) r inputs (dataClock g + k)).sync0 = true := by
  cases k with
  | zero => exact course.first.2
  | succ k => exact unanswered k (Nat.lt_succ_self _)

theorem Course.data (unanswered : Unanswered g inputs k)
    (room : k + 1 ≤ max g.dValidToDS g.timeOut) :
    Data g (selection g r) k (trace (Master.clock g) r inputs (dataClock g + k)) := by
  induction k with
  | zero => exact course.first.1
  | succ k ih =>
    have data := ih (fun j before => unanswered j (by omega)) (by omega)
    have sync0 := course.sync0 unanswered
    apply data.clock _ sync0
    rintro ⟨validData, answer | late⟩
    · exact absurd (answer.symm.trans sync0) Bool.noConfusion
    · omega

theorem Course.silent (early : k < g.dValidToDS) : (inputs (dataClock g + k)).nDtack = true := by
  induction k using Nat.strong_induction_on with
  | _ k ih =>
    have data := course.data (k := k) (fun j before => ih j (by omega) (by omega)) (by omega)
    apply course.released
    · intro m next
      cases k with
      | zero =>
        rw [← Nat.succ.inj next]
        exact course.first.2
      | succ k =>
        rw [← Nat.succ.inj next]
        exact ih k (Nat.lt_succ_self k) (by omega)
    · rw [data.ds]
      exact decide_eq_false (by omega)

theorem Course.dataPhase (unanswered : Unanswered g inputs k)
    (room : k + 1 ≤ max g.dValidToDS g.timeOut) : DataPhase (trace (Master.clock g) r inputs) (dataClock g + k) := by
  constructor
  · intro m pos upto
    by_cases early : m ≤ g.selDly
    · obtain ⟨n, rfl⟩ : ∃ n, m = n + 1 := ⟨m - 1, by omega⟩
      exact Or.inl (course.setup early).1.state
    · obtain ⟨j, rfl⟩ : ∃ j, m = dataClock g + j := ⟨m - dataClock g, by unfold dataClock; omega⟩
      exact Or.inr (course.data (fun l before => unanswered l (by omega)) (by omega)).state
  · exact (course.data unanswered room).state

theorem Course.writing (writing : Writing (trace (Master.clock g) r inputs) (dataClock g + k)) :
    Unanswered g inputs k ∧ k + 1 ≤ max g.dValidToDS g.timeOut := by
  induction k with
  | zero => exact ⟨fun j before => absurd before (Nat.not_lt_zero _),
      (Nat.le_max_left _ _).trans' course.valid.dValidToDS⟩
  | succ k ih =>
    obtain ⟨unanswered, room⟩ := ih fun m pos upto => writing m pos (by omega)
    have data := course.data unanswered room
    have goes : ¬Ending g k (trace (Master.clock g) r inputs (dataClock g + k)) := by
      intro ends
      have next : (trace (Master.clock g) r inputs (dataClock g + (k + 1))).sm = _ := data.next.trans (if_pos ends)
      rcases writing (dataClock g + (k + 1)) (Nat.succ_pos _) (le_refl _) with state | state
      · rw [next] at state
        split_ifs at state
      · rw [next] at state
        split_ifs at state
    have waits : (trace (Master.clock g) r inputs (dataClock g + k)).sync0 = true := by
      by_cases strobe : g.dValidToDS ≤ k + 1
      · by_contra answer
        exact goes ⟨strobe, Or.inl (Bool.eq_false_of_not_eq_true answer)⟩
      · exact course.sync0 fun j before => course.silent (by omega)
    constructor
    · intro j before
      by_cases earlier : j + 1 < k
      · exact unanswered j earlier
      · obtain rfl : k = j + 1 := by omega
        exact waits
    · by_contra elapsed
      exact goes ⟨by omega, Or.inr (by omega)⟩

theorem Course.dataPhase_iff :
    DataPhase (trace (Master.clock g) r inputs) n ↔
      ∃ k, n = dataClock g + k ∧ Unanswered g inputs k ∧ k + 1 ≤ max g.dValidToDS g.timeOut := by
  constructor
  · rintro ⟨writing, state⟩
    by_cases early : n < dataClock g
    · unfold dataClock at early
      cases n with
      | zero => exact absurd (course.begins.meets.symm.trans state) noConfusion
      | succ n => exact absurd ((course.setup (by omega)).1.state.symm.trans state) noConfusion
    · obtain ⟨k, rfl⟩ : ∃ k, n = dataClock g + k := ⟨n - dataClock g, by omega⟩
      exact ⟨k, rfl, course.writing writing⟩
  · rintro ⟨k, rfl, unanswered, room⟩
    exact course.dataPhase unanswered room

end

/-! ### The acknowledge -/

/-- The machine is through with the write, and the Wishbone side waits for the release of `dtack`. -/
structure Closing (r : Registers) : Prop where
  waiting : Waiting r
  state : r.sm = .eWrCyc ∨ r.sm = .fWrCyc ∨ r.sm = .idle
  extAck : r.extAck = false
  sync1 : r.sync1 = false

theorem Closing.waits (closing : Closing r) : Waiting (Master.clock g r i) := by
  apply closing.waiting.clock closing.extAck
  rcases closing.state with state | state | state
  · rw [state]; exact ⟨noConfusion, noConfusion⟩
  · rw [state]; exact ⟨noConfusion, noConfusion⟩
  · rw [state]; exact ⟨noConfusion, noConfusion⟩

theorem Closing.sm_clock (closing : Closing r) : smNext r = .eWrCyc ∨ smNext r = .fWrCyc ∨ smNext r = .idle := by
  rcases closing.state with state | state | state
  · rw [smNext, state]
    cases released : high r.releaseCnt with
    | false => exact Or.inl rfl
    | true => exact Or.inr (Or.inl rfl)
  · rw [smNext, state]
    exact Or.inr (Or.inr rfl)
  · rw [smNext, state, closing.waiting.startRd, closing.waiting.startWr]
    exact Or.inr (Or.inr rfl)

theorem Closing.clock (closing : Closing r) (held : r.sync0 = false) : Closing (Master.clock g r i) where
  waiting := closing.waits
  state := closing.sm_clock
  extAck := by
    change (!r.sync1 && r.sync0) = false
    rw [held, Bool.and_false]
  sync1 := held

theorem Closing.acknowledges (closing : Closing r) (released : r.sync0 = true) (inputs : ℕ → Inputs) :
    (trace (Master.clock g) r inputs 3).ack = true ∧ ∀ k ≤ 3, (trace (Master.clock g) r inputs k).err = false := by
  have flag : (trace (Master.clock g) r inputs 1).extAck = true := by
    change (!r.sync1 && r.sync0) = true
    rw [closing.sync1, released]
    rfl
  have stalled : Waiting (trace (Master.clock g) r inputs 1) := closing.waits
  have taken : (trace (Master.clock g) r inputs 2).wbState = .extAcc := by
    change wbNext (trace (Master.clock g) r inputs 1) (inputs 1) = _
    rw [wbNext, stalled.state, stalled.rdErr, stalled.wrErr, flag]
    rfl
  have err : ∀ k, ((trace (Master.clock g) r inputs k).wbState = .extStall ∨
    (trace (Master.clock g) r inputs k).wbState = .extAcc) →
      (trace (Master.clock g) r inputs (k + 1)).err = false := by
    intro k state
    rw [trace_succ]
    generalize trace (Master.clock g) r inputs k = r' at state
    change ((r'.wbState == .intAcc && r'.invalidIntern) || r'.wbState == .extErr || r'.wbState == .invalidSlave) = false
    rcases state with state | state
    · rw [state]; rfl
    · rw [state]; rfl
  constructor
  · rw [trace_succ]
    generalize trace (Master.clock g) r inputs 2 = r' at taken
    change ((r'.wbState == .intAcc && !r'.invalidIntern && r'.intAck) || r'.wbState == .extAcc) = true
    rw [taken]
    rfl
  · intro k upto
    have few : k = 0 ∨ k = 1 ∨ k = 2 ∨ k = 3 := by omega
    rcases few with rfl | rfl | rfl | rfl
    · exact closing.waiting.err
    · exact stalled.err
    · exact err 1 (Or.inl stalled.state)
    · exact err 2 (Or.inr taken)

theorem Closing.answers (closing : Closing r) {m : ℕ} (inputs : ℕ → Inputs) (held : m = 0 → r.sync0 = true)
    (before : 0 < m → r.sync0 = false) (holds : ∀ k, k + 1 < m → (inputs k).nDtack = false)
    (released : ∀ k, k + 1 = m → (inputs k).nDtack = true) :
    (trace (Master.clock g) r inputs (m + 3)).ack = true ∧
      ∀ k ≤ m + 3, (trace (Master.clock g) r inputs k).err = false := by
  induction m generalizing r inputs with
  | zero => exact closing.acknowledges (held rfl) inputs
  | succ m ih =>
    have next := closing.clock (g := g) (i := inputs 0) (before (Nat.succ_pos m))
    have rest := ih next (fun k => inputs (1 + k)) (fun last => released 0 (by omega)) (fun more => holds 0 (by omega))
      (fun k more => holds (1 + k) (by omega)) (fun k last => released (1 + k) (by omega))
    have shift : ∀ k, trace (Master.clock g) r inputs (k + 1) =
      trace (Master.clock g) (Master.clock g r (inputs 0)) (fun k => inputs (1 + k)) k := by
      intro k
      rw [Nat.add_comm, trace_add]
      rfl
    constructor
    · rw [show m + 1 + 3 = m + 3 + 1 by omega, shift]
      exact rest.1
    · intro k upto
      cases k with
      | zero => exact closing.waiting.err
      | succ k =>
        rw [shift]
        exact rest.2 k (by omega)

section
variable (course : Course g r inputs)
include course

theorem Course.err {k n : ℕ} (unanswered : Unanswered g inputs k) (room : k + 1 ≤ max g.dValidToDS g.timeOut)
    (upto : n ≤ dataClock g + k) : (trace (Master.clock g) r inputs n).err = false := by
  by_cases early : n ≤ g.selDly
  · cases n with
    | zero => exact course.inv.err course.begins.asks
    | succ n => exact (course.setup early).1.waiting.err
  · obtain ⟨j, rfl⟩ : ∃ j, n = dataClock g + j := ⟨n - dataClock g, by unfold dataClock; omega⟩
    exact (course.data (fun l before => unanswered l (by omega)) (by omega)).waiting.err

theorem Course.closing (unanswered : Unanswered g inputs (k + 1))
    (room : k + 1 + 1 ≤ max g.dValidToDS g.timeOut) (given : (inputs (dataClock g + k)).nDtack = false)
    (inTime : high (trace (Master.clock g) r inputs (dataClock g + (k + 1))).timeOutCnt = false) :
    Closing (trace (Master.clock g) r inputs (dataClock g + (k + 2))) := by
  have data := course.data unanswered room
  have answer : (trace (Master.clock g) r inputs (dataClock g + (k + 1))).sync0 = false := given
  have strobe : g.dValidToDS ≤ k + 1 + 1 := by
    by_contra early
    exact absurd (given.symm.trans (course.silent (by omega))) Bool.noConfusion
  have next := data.next
  rw [if_pos ⟨strobe, Or.inl answer⟩, if_neg (of_decide_eq_false (data.high_timeOut.symm.trans inTime))] at next
  have going : (trace (Master.clock g) r inputs (dataClock g + (k + 1))).sm ≠ .toRdCyc ∧
      (trace (Master.clock g) r inputs (dataClock g + (k + 1))).sm ≠ .toWrCyc := by
    rw [data.state]
    exact ⟨noConfusion, noConfusion⟩
  constructor
  · exact data.waiting.clock data.extAck going
  · exact Or.inl next
  · change (!(trace (Master.clock g) r inputs (dataClock g + (k + 1))).sync1 &&
      (trace (Master.clock g) r inputs (dataClock g + (k + 1))).sync0) = false
    rw [answer, Bool.and_false]
  · exact answer

theorem Course.acknowledged (given : (inputs n).nDtack = false)
    (phase : DataPhase (trace (Master.clock g) r inputs) (n + 1))
    (inTime : high (trace (Master.clock g) r inputs (n + 1)).timeOutCnt = false)
    (released : ∃ m > n, (inputs m).nDtack = true) :
    ∃ m, (trace (Master.clock g) r inputs m).ack = true ∧ ∀ k ≤ m, (trace (Master.clock g) r inputs k).err = false := by
  obtain ⟨k, here, unanswered, room⟩ := course.dataPhase_iff.mp phase
  cases k with
  | zero =>
    rw [show n = g.selDly from Nat.succ.inj here] at given
    exact absurd (given.symm.trans course.first.2) Bool.noConfusion
  | succ k =>
    obtain rfl : n = dataClock g + k := Nat.succ.inj here
    have closing := course.closing unanswered room given inTime
    obtain ⟨last, least⟩ : ∃ d, (inputs (dataClock g + k + 1 + d)).nDtack = true ∧
      ∀ l < d, (inputs (dataClock g + k + 1 + l)).nDtack = false := by
      obtain ⟨m, later, free⟩ := released
      have some : ∃ d, (inputs (dataClock g + k + 1 + d)).nDtack = true :=
        ⟨m - (dataClock g + k + 1), by rw [show dataClock g + k + 1 + (m - (dataClock g + k + 1)) = m by omega]; exact free⟩
      exact ⟨Nat.find some, Nat.find_spec some, fun l before => Bool.eq_false_of_not_eq_true (Nat.find_min some before)⟩
    have answers := closing.answers (g := g) (m := last) (fun l => inputs (dataClock g + (k + 2) + l))
      (fun none => by subst none; exact least.1)
      (fun some => least.2 0 some)
      (fun l more => by
        have held := least.2 (l + 1) more
        rw [show dataClock g + k + 1 + (l + 1) = dataClock g + (k + 2) + l by omega] at held
        exact held)
      (fun l end' => by
        have free := least.1
        rw [show dataClock g + k + 1 + last = dataClock g + (k + 2) + l by omega] at free
        exact free)
    refine ⟨dataClock g + (k + 2) + (last + 3), ?_, ?_⟩
    · rw [trace_add]
      exact answers.1
    · intro l upto
      by_cases early : l ≤ dataClock g + (k + 1)
      · exact course.err unanswered room early
      · obtain ⟨d, rfl⟩ : ∃ d, l = dataClock g + (k + 2) + d := ⟨l - (dataClock g + (k + 2)), by omega⟩
        rw [trace_add]
        exact answers.2 d (by omega)

/-! ### When a multicast is performed -/

theorem Course.selects_iff :
    (∀ n, DataPhase (trace (Master.clock g) r inputs) n → (trace (Master.clock g) r inputs n).scubSel = r.multiSel) ↔
      r.multiSel = 0 ∨ g.selDly = 1 := by
  constructor
  · intro selects
    have room : 0 + 1 ≤ max g.dValidToDS g.timeOut := (Nat.le_max_left _ _).trans' course.valid.dValidToDS
    have first := selects _ (course.dataPhase (k := 0) (fun j before => absurd before (Nat.not_lt_zero _)) room)
    have selected := course.first.1.scubSel.symm.trans first
    by_cases single : g.selDly = 1
    · exact Or.inr single
    · rw [selection, if_neg single] at selected
      exact Or.inl selected.symm
  · intro selected n phase
    obtain ⟨k, rfl, unanswered, room⟩ := course.dataPhase_iff.mp phase
    rw [(course.data unanswered room).scubSel, selection]
    rcases selected with none | single
    · rw [none, ite_self]
    · exact if_pos single

theorem Course.strobes_iff :
    (∃ first, ∀ k < g.dlyMulticastDt, DataPhase (trace (Master.clock g) r inputs) (first + k) ∧
        (trace (Master.clock g) r inputs (first + k)).ds = true) ↔
      g.dValidToDS + g.dlyMulticastDt ≤ g.timeOut ∧
        ∀ k, g.dValidToDS ≤ k → k + 2 < g.dValidToDS + g.dlyMulticastDt → (inputs (dataClock g + k)).nDtack = true := by
  have some := course.valid.dlyMulticastDt
  constructor
  · rintro ⟨first, strobe⟩
    obtain ⟨phase, on⟩ := strobe 0 some
    obtain ⟨j, here, unanswered, room⟩ := course.dataPhase_iff.mp phase
    rw [here, (course.data unanswered room).ds] at on
    have begun := of_decide_eq_true on
    obtain ⟨k, there, silent, left⟩ := course.dataPhase_iff.mp (strobe (g.dlyMulticastDt - 1) (by omega)).1
    refine ⟨by omega, fun l _ before => silent l (by omega)⟩
  · rintro ⟨room, late⟩
    refine ⟨dataClock g + g.dValidToDS, fun k less => ?_⟩
    have unanswered : Unanswered g inputs (g.dValidToDS + k) := by
      intro j before
      by_cases early : j < g.dValidToDS
      · exact course.silent early
      · exact late j (by omega) (by omega)
    have enough : g.dValidToDS + k + 1 ≤ max g.dValidToDS g.timeOut := by omega
    rw [Nat.add_assoc]
    refine ⟨course.dataPhase unanswered enough, ?_⟩
    rw [(course.data unanswered enough).ds]
    exact decide_eq_true (Nat.le_add_right _ _)

end

/-- From every reachable state, a multicast for which the slaves give `dtack` in answer to the data
strobe is performed in favourable circumstances only. -/
theorem performed_iff (g : Generics) (valid : Valid g) (junk : Junk) (past : List Inputs) (inputs : ℕ → Inputs)
    (begins : Begins (run g (start g junk) past))
    (answered : Answered (trace (clock g) (run g (start g junk) past) inputs) inputs) :
    Performed g (trace (clock g) (run g (start g junk) past) inputs) inputs ↔
      Favourable g (run g (start g junk) past) inputs := by
  have course : Course g (run g (start g junk) past) inputs := ⟨valid, (start_inv g junk).run, begins, answered⟩
  constructor
  · intro performed
    obtain ⟨room, late⟩ := course.strobes_iff.mp performed.strobes
    exact ⟨course.selects_iff.mp performed.selects, room, late⟩
  · rintro ⟨selected, room, late⟩
    exact ⟨course.selects_iff.mpr selected, course.strobes_iff.mpr ⟨room, late⟩, fun _ => course.acknowledged⟩

/-- The slaves 1, 2 and 12 are set in the select register, and a multicast of 7 is requested. -/
def multicasts : List Inputs :=
  List.replicate 3 ⟨true, true, true, 0x18, 0x8030000, 12, true, 0, 0, 0, false⟩ ++
    List.replicate 2 ⟨true, true, true, 0x1A0020, 7, 15, true, 0, 0, 0, false⟩

/-- The host has gone, and no slave answers. -/
def silence (_ : ℕ) : Inputs := ⟨false, false, false, 0, 0, 0, true, 0, 0, 0, false⟩

theorem multicasts_begins : Begins (run defaults (start defaults junk) multicasts) :=
  ⟨by decide, by decide, by decide, by decide, by decide⟩

theorem silence_answered (g : Generics) (r : Registers) :
    Answered (trace (clock g) r silence) silence := fun _ given => Bool.noConfusion given

def quick : Generics := { defaults with selDly := 1 }

/-- The slaves give `dtack` when the delay for the slower ones is over, and hold it for four clocks. -/
def answering (n : ℕ) : Inputs := { silence n with nDtack := !decide (30 ≤ n ∧ n < 34) }

def answered : ℕ → Registers := trace (clock quick) (run quick (start quick junk) multicasts) answering

theorem nDtack_answering : (answering n).nDtack = false ↔ 30 ≤ n ∧ n < 34 := by
  rw [answering, Bool.not_eq_false', decide_eq_true_iff]

/-- The multicast reaches the slaves, and is acknowledged. -/
theorem performed_iff_answered : Performed quick answered answering ∧ ∃ m, (answered m).ack = true ∧
    ∀ k ≤ m, (answered k).err = false := by
  have begins : Begins (run quick (start quick junk) multicasts) :=
    ⟨by decide, by decide, by decide, by decide, by decide⟩
  have strobe : (answered 30).ds = true := by decide +kernel
  have dtack : Answered answered answering := by
    intro n given
    obtain ⟨low, high⟩ := nDtack_answering.mp given
    rcases Nat.eq_or_lt_of_le low with rfl | later
    · exact Or.inl strobe
    · exact Or.inr ⟨n - 1, by omega, nDtack_answering.mpr (by omega)⟩
  have favourable : Favourable quick (run quick (start quick junk) multicasts) answering := by
    refine ⟨Or.inr rfl, by decide, fun k _ early => ?_⟩
    have before : k + 2 < 3 + 20 := early
    apply Bool.eq_true_of_not_eq_false
    rw [nDtack_answering, show dataClock quick = 2 from rfl]
    omega
  have performed := (performed_iff quick ⟨by decide, by decide, by decide, by decide⟩ junk multicasts
    answering begins dtack).mpr
    favourable
  have phase : ∀ m ≤ 31, 0 < m → (answered m).sm = .sWrCyc ∨ (answered m).sm = .wrCyc := by decide +kernel
  refine ⟨performed, performed.acknowledged 30 (nDtack_answering.mpr (by decide)) ?_ (by decide +kernel)
    ⟨34, by decide, rfl⟩⟩
  exact ⟨fun m pos upto => phase m upto pos, by decide +kernel⟩

/-- With the default delays no slave is selected. -/
theorem multicast_selects_none : ¬∀ (past : List Inputs) (inputs : ℕ → Inputs),
    Begins (run defaults (start defaults junk) past) →
    Answered (trace (clock defaults) (run defaults (start defaults junk) past) inputs) inputs →
      Performed defaults (trace (clock defaults) (run defaults (start defaults junk) past) inputs) inputs := by
  intro all
  have selects := (all multicasts silence multicasts_begins (silence_answered _ _)).selects 4
  have phase : DataPhase (trace (clock defaults) (run defaults (start defaults junk) multicasts) silence) 4 := by
    constructor
    · intro m pos upto
      match m, pos, upto with
      | 1, _, _ => decide
      | 2, _, _ => decide
      | 3, _, _ => decide
      | 4, _, _ => decide
    · decide
  exact absurd (selects phase) (by decide)

end BelProject.ScuBus.Multicast
