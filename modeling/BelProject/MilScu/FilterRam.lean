import Mathlib.Tactic.Common
import BelProject.Library.Runs
import BelProject.MilScu.EventProcessing

/-! The filter RAM as the host sees it. The write strobe of the RAM follows the bus for one clock
longer than the acknowledged write, and the stall of the filter stays low for two. -/

namespace BelProject.MilScu.FilterRam
open EventProcessing
open BelProject.Library.Runs (Along)

structure Request where
  we : Bool
  adr : BitVec 32
  dat : BitVec 32
  sel : BitVec 4
  deriving DecidableEq

def requestOf (i : Inputs) : Request := ⟨i.we, i.adr, i.dat, i.sel⟩

def Request.filtAddr (q : Request) : BitVec 12 := q.adr.extractLsb' 2 12

def Request.filtDataI (q : Request) : BitVec 6 := q.dat.extractLsb' 0 6

def Request.filter (q : Request) : Bool := inFilter q.adr && q.sel == 15

def store (q : Request) (ram : Ram) : Ram := if q.we then Function.update ram q.filtAddr q.filtDataI
    else ram

def contents (initial : Ram) (history : List (Request × BitVec 32)) :
    Ram := history.foldl (fun ram access => store access.1 ram) initial

/-- Every read of a history returns the entry of its address. -/
def Serial (ram : Ram) : List (Request × BitVec 32) → Prop
  | [] => True
  | (q, dat) :: history => (q.we = false → dat = 0#26 ++ ram q.filtAddr) ∧
      Serial (store q ram) history

/-- Beside the registers, the strobe that is stalled, and the acknowledged accesses to the filter
with the data that go with the acknowledge. -/
structure World where
  regs : Registers
  stalled : Option Request
  history : List (Request × BitVec 32)

def step (w : World) (i : Inputs) : World :=
  { regs := clock w.regs i
    stalled := if begins w.regs i then some (requestOf i) else none
    history := w.history ++
      if filterAccess w.regs i && (clock w.regs i).exAck then [(requestOf i, (clock w.regs i).dat)]
        else [] }

def run (w : World) (inputs : List Inputs) : World := inputs.foldl step w

def start (ram : Ram) (filtDataO : BitVec 6) : World := ⟨reset ram filtDataO, none, []⟩

/-- The RAM holds what the acknowledged writes have stored, and perhaps already what a stalled
write is to store. -/
structure Refines (initial : Ram) (w : World) : Prop where
  reads : Serial initial w.history
  ram : w.regs.ram = contents initial w.history ∨
    ∃ q, w.stalled = some q ∧ q.filter = true ∧ q.we = true ∧
      w.regs.ram = store q (contents initial w.history)

/-- A stalled strobe stays on the bus. -/
def Pipelined (w : World) (i : Inputs) : Prop := ∀ q ∈ w.stalled, i.cyc = true ∧ i.stb = true ∧
    requestOf i = q

/-- In the clock after the acknowledge of a write the address and the data are still on the bus. -/
def Kept (w : World) (i : Inputs) : Prop :=
  w.regs.sm = .fiWr → w.regs.wrFiltRam = false → ∀ access ∈ w.history.getLast?,
    filtAddr i = access.1.filtAddr ∧ filtDataI i = access.1.filtDataI

def Fresh (w : World) (i : Inputs) : Prop :=
  filterAccess w.regs i = true → w.regs.wrFiltRam = false → w.regs.rdFiltRam = false →
    w.regs.fiStall = true

structure Orderly (w : World) (i : Inputs) : Prop where
  pipelined : Pipelined w i
  kept : Kept w i
  fresh : Fresh w i

def Away (sm : FiltCntrl) : Prop := sm = .fiIdle ∨ sm = .evRd ∨ sm = .evRdFin

def serves (q : Request) : FiltCntrl := if q.we then .fiWr else .fiRd

structure Waiting (w : World) (q : Request) : Prop where
  stalled : w.stalled = some q
  filter : q.filter = true
  wr : w.regs.wrFiltRam = q.we
  rd : w.regs.rdFiltRam = !q.we
  exStall : w.regs.exStall = true

inductive Phase (initial : Ram) (w : World) : Prop where
  | quiet (wr : w.regs.wrFiltRam = false) (rd : w.regs.rdFiltRam = false) (sm : Away w.regs.sm)
      (ram : w.regs.ram = contents initial w.history)
  | waiting {q : Request} (waiting : Waiting w q) (sm : Away w.regs.sm)
      (fiStall : w.regs.fiStall = true)
      (ram : w.regs.ram = contents initial w.history)
  | first {q : Request} (waiting : Waiting w q) (sm : w.regs.sm = serves q)
      (fiStall : w.regs.fiStall = true)
      (ram : w.regs.ram = contents initial w.history)
      (shows : q.we = false → w.regs.filtDataO = w.regs.ram q.filtAddr)
  | second {q : Request} (waiting : Waiting w q) (sm : w.regs.sm = serves q)
      (fiStall : w.regs.fiStall = false)
      (ram : w.regs.ram = store q (contents initial w.history))
      (shows : q.we = false → w.regs.filtDataO = w.regs.ram q.filtAddr)
  | acknowledged {q : Request} {dat : BitVec 32} (sm : w.regs.sm = serves q)
      (stalled : w.stalled = some q)
      (wr : w.regs.wrFiltRam = q.we) (rd : w.regs.rdFiltRam = !q.we)
      (exStall : w.regs.exStall = false)
      (last : w.history.getLast? = some (q, dat)) (ram : w.regs.ram = contents initial w.history)
  | tail {q : Request} {dat : BitVec 32} (sm : w.regs.sm = serves q) (wr : w.regs.wrFiltRam = false)
      (rd : w.regs.rdFiltRam = false)
      (fiStall : w.regs.fiStall = false) (last : w.history.getLast? = some (q, dat))
      (ram : w.regs.ram = contents initial w.history)

variable {initial : Ram} {w : World} {i : Inputs} {q : Request}

theorem contents_append (history : List (Request × BitVec 32)) (access : Request × BitVec 32) :
    contents initial (history ++ [access]) = store access.1 (contents initial history) :=
      List.foldl_concat ..

theorem zero_append_append (entry : BitVec 6) :
    (0#16 ++ (0#10 ++ entry) : BitVec 32) = 0#26 ++ entry := by
  apply BitVec.eq_of_toNat_eq
  simp only [BitVec.toNat_append, BitVec.toNat_ofNat, Nat.zero_mod, Nat.zero_shiftLeft, Nat.zero_or]

theorem store_idem (ram : Ram) : store q (store q ram) = store q ram := by
  unfold store
  cases q.we with
  | true => exact Function.update_idem ..
  | false => rfl

theorem store_last {history : List (Request × BitVec 32)} {dat : BitVec 32}
    (last : history.getLast? = some (q, dat)) :
    store q (contents initial history) = contents initial history := by
  obtain ⟨front, rfl⟩ := List.getLast?_eq_some_iff.mp last
  rw [contents_append, store_idem]

theorem serial_append {ram : Ram} {history : List (Request × BitVec 32)} {dat : BitVec 32}
    (serial : Serial ram history)
    (reply : q.we = false → dat = 0#26 ++ contents ram history q.filtAddr) :
    Serial ram (history ++ [(q, dat)]) := by
  induction history generalizing ram with
  | nil => exact ⟨reply, trivial⟩
  | cons access history ih => exact ⟨serial.1, ih serial.2 reply⟩

theorem ram_kept (sm : Away w.regs.sm) : (clock w.regs i).ram = w.regs.ram := by
  have off : filtWr w.regs = false := by
    unfold filtWr
    rcases sm with sm | sm | sm
    · rw [sm]; rfl
    · rw [sm]; rfl
    · rw [sm]; rfl
  show (if filtWr w.regs then _ else _) = _
  rw [off]
  rfl

theorem ram_served (sm : w.regs.sm = serves q)
    (address : q.we = true → filtAddr i = q.filtAddr ∧ filtDataI i = q.filtDataI) :
    (clock w.regs i).ram = store q w.regs.ram := by
  show (if filtWr w.regs then Function.update w.regs.ram (filterAddr w.regs i) (filtDataI i)
    else w.regs.ram) = _
  rw [filtWr, filterAddr, store, sm, serves]
  cases writes : q.we with
  | true =>
    obtain ⟨adr, dat⟩ := address writes
    rw [← adr, ← dat]
    rfl
  | false => rfl

theorem shows_served (sm : w.regs.sm = serves q) (reads : q.we = false)
    (address : filtAddr i = q.filtAddr) :
    (clock w.regs i).filtDataO = w.regs.ram q.filtAddr := by
  show (if filtWr w.regs then i.conflict else w.regs.ram (filterAddr w.regs i)) = _
  rw [filtWr, filterAddr, sm, serves, reads, ← address]
  rfl

theorem fiStall_served (sm : w.regs.sm = serves q) : (clock w.regs i).fiStall = false := by
  show (!(w.regs.sm == .fiWr || w.regs.sm == .fiRd)) = false
  rw [sm, serves]
  cases q.we with
  | true => rfl
  | false => rfl

theorem fiStall_away (sm : Away w.regs.sm) : (clock w.regs i).fiStall = true := by
  show (!(w.regs.sm == .fiWr || w.regs.sm == .fiRd)) = true
  rcases sm with sm | sm | sm
  · rw [sm]; rfl
  · rw [sm]; rfl
  · rw [sm]; rfl

theorem Waiting.bus (waiting : Waiting w q) (pipelined : Pipelined w i) :
    begins w.regs i = true ∧ filterAccess w.regs i = true ∧ requestOf i = q ∧
      filtAddr i = q.filtAddr ∧
      filtDataI i = q.filtDataI := by
  obtain ⟨cyc, stb, same⟩ := pipelined q waiting.stalled
  have on : begins w.regs i = true := by
    rw [begins, cyc, stb, waiting.exStall]
    rfl
  subst same
  exact ⟨on, by rw [filterAccess, on, Bool.true_and]; exact waiting.filter, rfl, rfl, rfl⟩

theorem answer_filter (takes : filterAccess w.regs i = true) :
    answer w.regs i = (w.regs.fiStall, !w.regs.fiStall, false, if i.we then 0
      else 0#16 ++ readPort w.regs i) := by
  rw [filterAccess, Bool.and_eq_true, Bool.and_eq_true] at takes
  rw [answer, takes.1.1, if_pos rfl, takes.1.2, if_pos rfl, takes.2, if_pos rfl]

theorem Waiting.step (waiting : Waiting w q) (pipelined : Pipelined w i)
    (fiStall : w.regs.fiStall = true) :
    Waiting (step w i) q ∧ (FilterRam.step w i).history = w.history := by
  obtain ⟨on, takes, same, _, _⟩ := waiting.bus pipelined
  have replies := answer_filter takes
  have we : i.we = q.we := congrArg Request.we same
  refine ⟨⟨?_, waiting.filter, ?_, ?_, ?_⟩, ?_⟩
  · show (if begins w.regs i then some (requestOf i) else none) = _
    rw [on, same]
    rfl
  · show (filterAccess w.regs i && i.we) = _
    rw [takes, we]
    rfl
  · show (filterAccess w.regs i && !i.we) = _
    rw [takes, we]
    rfl
  · show (answer w.regs i).1 = _
    rw [replies]
    exact fiStall
  · show w.history ++ (if filterAccess w.regs i && (answer w.regs i).2.1 then _ else _) = _
    rw [replies, fiStall, Bool.not_true, Bool.and_false]
    exact List.append_nil _

theorem step_off (off : filterAccess w.regs i = false) :
    (step w i).history = w.history ∧ (step w i).regs.wrFiltRam = false ∧ (step w i).regs.rdFiltRam =
      false := by
  refine ⟨?_, ?_, ?_⟩
  · show w.history ++ (if filterAccess w.regs i && _ then _ else _) = _
    rw [off]
    exact List.append_nil _
  · show (filterAccess w.regs i && _) = _
    rw [off]
    rfl
  · show (filterAccess w.regs i && _) = _
    rw [off]
    rfl

variable {r : Registers}

theorem served_stays (sm : r.sm = serves q) (wr : r.wrFiltRam = q.we) (rd : r.rdFiltRam = !q.we) :
    smNext r i = serves q := by
  rw [smNext, sm, serves]
  cases writes : q.we with
  | true =>
    rw [writes] at wr
    exact if_pos wr
  | false =>
    rw [writes] at rd
    exact if_pos rd

theorem served_ends (sm : r.sm = serves q) (wr : r.wrFiltRam = false) (rd : r.rdFiltRam = false) :
    smNext r i = .fiIdle := by
  rw [smNext, sm, serves]
  cases q.we with
  | true => exact if_neg (by rw [wr]; exact Bool.false_ne_true)
  | false => exact if_neg (by rw [rd]; exact Bool.false_ne_true)

theorem quiet_next (away : Away r.sm) (wr : r.wrFiltRam = false) (rd : r.rdFiltRam = false) :
    Away (smNext r i) := by
  unfold Away
  rw [smNext]
  rcases away with sm | sm | sm
  · rw [sm, wr, rd]
    cases i.timingReceived with
    | true => exact Or.inr (Or.inl rfl)
    | false => exact Or.inl rfl
  · rw [sm]
    exact Or.inr (Or.inr rfl)
  · rw [sm]
    exact Or.inl rfl

theorem waiting_next (away : Away r.sm) (wr : r.wrFiltRam = q.we) (rd : r.rdFiltRam = !q.we) :
    Away (smNext r i) ∨ (r.sm = .fiIdle ∧ smNext r i = serves q) := by
  unfold Away
  rcases away with sm | sm | sm
  · rw [smNext, sm, wr, rd, serves]
    cases i.timingReceived <;> cases r.lastAccEvent <;> cases q.we <;> simp
  · left
    rw [smNext, sm]
    exact Or.inr (Or.inr rfl)
  · left
    rw [smNext, sm]
    exact Or.inl rfl

theorem Waiting.acknowledge (waiting : Waiting w q) (pipelined : Pipelined w i)
    (fiStall : w.regs.fiStall = false) :
    (FilterRam.step w i).history = w.history ++ [(q, (answer w.regs i).2.2.2)] ∧
    (FilterRam.step w i).stalled = some q ∧
      (FilterRam.step w i).regs.wrFiltRam = q.we ∧ (FilterRam.step w i).regs.rdFiltRam = (!q.we) ∧
      (FilterRam.step w i).regs.exStall = false := by
  obtain ⟨on, takes, same, _, _⟩ := waiting.bus pipelined
  have replies := answer_filter takes
  have we : i.we = q.we := congrArg Request.we same
  refine ⟨?_, ?_, ?_, ?_, ?_⟩
  · show w.history ++ (if filterAccess w.regs i &&
      (answer w.regs i).2.1 then [(requestOf i, (answer w.regs i).2.2.2)] else []) = _
    rw [takes, replies, fiStall, same]
    rfl
  · show (if begins w.regs i then some (requestOf i) else none) = _
    rw [on, same]
    rfl
  · show (filterAccess w.regs i && i.we) = _
    rw [takes, we]
    rfl
  · show (filterAccess w.regs i && !i.we) = _
    rw [takes, we]
    rfl
  · show (answer w.regs i).1 = _
    rw [replies]
    exact fiStall

theorem Phase.step (phase : Phase initial w) (orderly : Orderly w i) :
    Phase initial (FilterRam.step w i) := by
  have sm' : (FilterRam.step w i).regs.sm = smNext w.regs i := rfl
  cases phase with
  | quiet wr rd away ram =>
    have still : (FilterRam.step w i).regs.ram = w.regs.ram := ram_kept away
    have next := quiet_next (i := i) away wr rd
    cases takes : filterAccess w.regs i with
    | false =>
      obtain ⟨same, wr', rd'⟩ := step_off takes
      refine .quiet wr' rd' next ?_
      rw [still, same]
      exact ram
    | true =>
      have fiStall := orderly.fresh takes wr rd
      have replies := answer_filter takes
      have on : begins w.regs i = true ∧ (requestOf i).filter = true := by
        rw [filterAccess, Bool.and_assoc, Bool.and_eq_true] at takes
        exact takes
      have same : (FilterRam.step w i).history = w.history := by
        show w.history ++ (if filterAccess w.regs i && (answer w.regs i).2.1 then _ else _) = _
        rw [replies, fiStall, Bool.not_true, Bool.and_false]
        exact List.append_nil _
      refine .waiting (q := requestOf i) ⟨?_, on.2, ?_, ?_, ?_⟩ next (fiStall_away away) ?_
      · show (if begins w.regs i then _ else _) = _
        rw [on.1]
        rfl
      · show (filterAccess w.regs i && i.we) = _
        rw [takes]
        rfl
      · show (filterAccess w.regs i && !i.we) = _
        rw [takes]
        rfl
      · show (answer w.regs i).1 = _
        rw [replies]
        exact fiStall
      · rw [still, same]
        exact ram
  | @waiting q waiting away fiStall ram =>
    obtain ⟨later, same⟩ := waiting.step orderly.pipelined fiStall
    have still : (FilterRam.step w i).regs.ram = w.regs.ram := ram_kept away
    rcases waiting_next (i := i) away waiting.wr waiting.rd with next | ⟨idle, next⟩
    · refine .waiting later next (fiStall_away away) ?_
      rw [still, same]
      exact ram
    · refine .first later next (fiStall_away away) ?_ ?_
      · rw [still, same]
        exact ram
      · intro _
        rw [still]
        show (if filtWr w.regs then i.conflict else w.regs.ram (filterAddr w.regs i)) = _
        rw [filtWr, filterAddr, idle, ← (waiting.bus orderly.pipelined).2.2.2.1]
        rfl
  | @first q waiting sm fiStall ram shows =>
    obtain ⟨later, same⟩ := waiting.step orderly.pipelined fiStall
    obtain ⟨_, _, _, adr, dat⟩ := waiting.bus orderly.pipelined
    have stored : (FilterRam.step w i).regs.ram = store q w.regs.ram :=
      ram_served sm fun _ => ⟨adr, dat⟩
    refine .second later (served_stays sm waiting.wr waiting.rd) (fiStall_served sm) ?_ ?_
    · rw [stored, same, ram]
    · intro reads
      rw [stored, store, reads]
      exact shows_served sm reads adr
  | @second q waiting sm fiStall ram _ =>
    obtain ⟨answered, stalled, wr, rd, exStall⟩ := waiting.acknowledge orderly.pipelined fiStall
    obtain ⟨_, _, _, adr, dat⟩ := waiting.bus orderly.pipelined
    have stored : (FilterRam.step w i).regs.ram = store q w.regs.ram :=
      ram_served sm fun _ => ⟨adr, dat⟩
    have last : (FilterRam.step w i).history.getLast? = some (q, (answer w.regs i).2.2.2) := by
      rw [answered]
      exact List.getLast?_concat ..
    refine .acknowledged (served_stays sm waiting.wr waiting.rd) stalled wr rd exStall last ?_
    rw [stored, ram, answered, contents_append, store_idem]
  | @acknowledged q dat sm stalled wr rd exStall last ram =>
    have off : filterAccess w.regs i = false := by
      rw [filterAccess, begins, exStall, Bool.and_false, Bool.false_and, Bool.false_and]
    obtain ⟨same, wr', rd'⟩ := step_off off
    have bus := (orderly.pipelined q stalled).2.2
    have stored : (FilterRam.step w i).regs.ram = store q w.regs.ram :=
      ram_served sm fun _ => by subst bus; exact ⟨rfl, rfl⟩
    have last' : (FilterRam.step w i).history.getLast? = some (q, dat) := by
      rw [same]
      exact last
    refine .tail (served_stays sm wr rd) wr' rd' (fiStall_served sm) last' ?_
    rw [stored, ram, store_last last, same]
  | @tail q dat sm wr rd fiStall last ram =>
    have off : filterAccess w.regs i = false := by
      cases takes : filterAccess w.regs i with
      | false => rfl
      | true => exact absurd (fiStall.symm.trans (orderly.fresh takes wr rd)) Bool.false_ne_true
    obtain ⟨same, wr', rd'⟩ := step_off off
    have stored : (FilterRam.step w i).regs.ram = store q w.regs.ram := by
      apply ram_served sm
      intro writes
      rw [serves, writes] at sm
      exact orderly.kept sm wr (q, dat) last
    refine .quiet wr' rd' (Or.inl (served_ends sm wr rd)) ?_
    rw [stored, ram, store_last last, same]

theorem serial_step (phase : Phase initial w) (serial : Serial initial w.history)
    (orderly : Orderly w i) :
    Serial initial (FilterRam.step w i).history := by
  have silent : ((filterAccess w.regs i && (answer w.regs i).2.1) = false) →
    (FilterRam.step w i).history = w.history := by
    intro none
    show w.history ++ (if filterAccess w.regs i && (answer w.regs i).2.1 then _ else _) = _
    rw [none]
    exact List.append_nil _
  cases phase with
  | quiet wr rd _ _ =>
    rw [silent]
    · exact serial
    · cases takes : filterAccess w.regs i with
      | false => rfl
      | true =>
        rw [answer_filter takes, orderly.fresh takes wr rd]
        rfl
  | waiting waiting _ fiStall _ =>
    rw [(waiting.step orderly.pipelined fiStall).2]
    exact serial
  | first waiting _ fiStall _ _ =>
    rw [(waiting.step orderly.pipelined fiStall).2]
    exact serial
  | @second q waiting sm fiStall ram shows =>
    rw [(waiting.acknowledge orderly.pipelined fiStall).1]
    apply serial_append serial
    intro reads
    obtain ⟨_, takes, same, _, _⟩ := waiting.bus orderly.pipelined
    have we : i.we = false := (congrArg Request.we same).trans reads
    have port : readPort w.regs i = 0#10 ++ w.regs.filtDataO := by
      rw [readPort, sm, serves, reads]
      rfl
    rw [answer_filter takes, we, port, shows reads, ram, store, reads]
    exact zero_append_append (contents initial w.history q.filtAddr)
  | acknowledged _ _ _ _ exStall _ _ =>
    rw [silent]
    · exact serial
    · rw [filterAccess, begins, exStall, Bool.and_false, Bool.false_and, Bool.false_and,
        Bool.false_and]
  | tail _ wr rd fiStall _ _ =>
    rw [silent]
    · exact serial
    · cases takes : filterAccess w.regs i with
      | false => rfl
      | true => exact absurd (fiStall.symm.trans (orderly.fresh takes wr rd)) Bool.false_ne_true

theorem Phase.run {inputs : List Inputs} (phase : Phase initial w)
    (serial : Serial initial w.history)
    (along : Along FilterRam.step Orderly w inputs) :
    Phase initial (FilterRam.run w inputs) ∧ Serial initial (FilterRam.run w inputs).history := by
  refine along.invariant (fun w => Phase initial w ∧ Serial initial w.history) ⟨phase, serial⟩ ?_
  rintro w i ⟨phase, serial⟩ orderly
  exact ⟨phase.step orderly, serial_step phase serial orderly⟩

theorem Phase.refines (phase : Phase initial w) (serial : Serial initial w.history) :
    Refines initial w := by
  refine ⟨serial, ?_⟩
  cases phase with
  | quiet _ _ _ ram => exact Or.inl ram
  | waiting _ _ _ ram => exact Or.inl ram
  | first _ _ _ ram _ => exact Or.inl ram
  | @second q waiting _ _ ram _ =>
    cases writes : q.we with
    | true => exact Or.inr ⟨q, waiting.stalled, waiting.filter, writes, ram⟩
    | false =>
      left
      rw [ram, store, writes]
      rfl
  | acknowledged _ _ _ _ _ _ ram => exact Or.inl ram
  | tail _ _ _ _ _ ram => exact Or.inl ram

/-- In a run in which the bus keeps a write for another clock after its acknowledge, and no strobe
for the filter begins before the stall of the last one is over, the RAM is what the acknowledged
writes make of it. -/
theorem run_refines (initial : Ram) (filtDataO : BitVec 6) (inputs : List Inputs)
    (along : Along step Orderly (start initial filtDataO) inputs) :
    Refines initial (run (start initial filtDataO) inputs) := by
  have phase : Phase initial (start initial filtDataO) := .quiet rfl rfl (Or.inl rfl) rfl
  obtain ⟨later, serial⟩ := phase.run (show Serial initial [] from trivial) along
  exact later.refines serial

instance (w : World) (i : Inputs) : Decidable (Pipelined w i) :=
  inferInstanceAs (Decidable (∀ q ∈ w.stalled, i.cyc = true ∧ i.stb = true ∧ requestOf i = q))

instance (w : World) (i : Inputs) : Decidable (Kept w i) :=
  inferInstanceAs (Decidable (w.regs.sm = .fiWr → w.regs.wrFiltRam = false →
    ∀ access ∈ w.history.getLast?,
    filtAddr i = access.1.filtAddr ∧ filtDataI i = access.1.filtDataI))

instance (w : World) (i : Inputs) : Decidable (Fresh w i) :=
  inferInstanceAs (Decidable (filterAccess w.regs i = true → w.regs.wrFiltRam = false →
    w.regs.rdFiltRam = false →
    w.regs.fiStall = true))

instance (w : World) (i : Inputs) : Decidable (Orderly w i) :=
  decidable_of_iff (Pipelined w i ∧ Kept w i ∧ Fresh w i)
    ⟨fun ⟨pipelined, kept, fresh⟩ => ⟨pipelined, kept, fresh⟩, fun orderly =>
      ⟨orderly.pipelined, orderly.kept, orderly.fresh⟩⟩

def host (stb we : Bool) (adr dat : BitVec 32) :
    Inputs := ⟨stb, stb, we, adr, dat, 15, false, 0, 0, none, 0⟩

def apart : List Inputs :=
  List.replicate 5 (host true true 0x4004 7) ++ List.replicate 3 (host false false 0x4004 7) ++
    List.replicate 5 (host true false 0x4004 0)

theorem run_refines_apart : Refines (fun _ => 0) (run (start (fun _ => 0) 0) apart) :=
  run_refines (fun _ => 0) 0 apart (by decide +kernel)

def together : List Inputs := List.replicate 5 (host true true 0x4004 7) ++ List.replicate 2
    (host true false 0x4008 0x3f)

/-- The data lines of the read end up in its entry. -/
theorem read_stores : ¬∀ inputs : List Inputs, Along step Pipelined (start (fun _ => 0) 0) inputs →
    Refines (fun _ => 0) (run (start (fun _ => 0) 0) inputs) := by
  intro all
  have along : Along step Pipelined (start (fun _ => 0) 0) together := by decide +kernel
  have entry : (run (start (fun _ => 0) 0) together).regs.ram 2 = 0x3f := by decide +kernel
  have spec : contents (fun _ => 0) (run (start (fun _ => 0) 0) together).history 2 =
    0 := by decide +kernel
  have stalled : (run (start (fun _ => 0) 0) together).stalled = none := by decide +kernel
  rcases (all together along).ram with same | ⟨q, held, _⟩
  · rw [same, spec] at entry
    exact absurd entry (by decide)
  · rw [stalled] at held
    cases held

end BelProject.MilScu.FilterRam
