import BelProject.ScuBus.Interlock

/-! The echo register and the interrupt enable register of a slave, as the host of the master sees
them. -/

namespace BelProject.ScuBus.EchoAccess
open Master Starts Pair Interlock
open Bridge (Request requestOf)

variable {g : Generics} {sg : Slave.Generics} {slot : Fin 12} {w : World sg}

def start (g : Generics) (sg : Slave.Generics) (slot : Fin 12) (junk : Junk) (dtackDly : BitVec (sg.dtackDlyCnt + 1))
    (first : Pair.Inputs) : World sg := step slot (reset g sg junk dtackDly) first g

variable (slot) in
theorem start_inv (junk : Junk) (dtackDly : BitVec (sg.dtackDlyCnt + 1)) (first : Pair.Inputs)
    (silent : (first.wb.cyc && first.wb.stb) = false) : Inv g slot (start g sg slot junk dtackDly first) := by
  have released : Released (reset g sg junk dtackDly).master := ⟨Or.inl rfl, rfl, rfl⟩
  have settles : Settles (reset g sg junk dtackDly).master 2 := ⟨0, rfl, by decide⟩
  have rest : Rest (reset g sg junk dtackDly).slave := ⟨rfl, rfl, rfl⟩
  have stores : Stores (reset g sg junk dtackDly).slave [] := ⟨rfl, rfl⟩
  obtain ⟨slave, echo, intrEnable⟩ := rest.clock first.user (scubData slot (reset g sg junk dtackDly) first)
    (bus_off slot released.scubSel)
  have state : (reset g sg junk dtackDly).master.wbState = .idle := rfl
  have none : (start g sg slot junk dtackDly first).answers = [] := answer_none (Or.inl state)
  have still : requested (start g sg slot junk dtackDly first).master = false := quiet_clock WbCtrl.noConfusion
  have nothing : (start g sg slot junk dtackDly first).accepted = [] := by
    have takes : accepts (reset g sg junk dtackDly).master first.wb = (first.wb.cyc && first.wb.stb) := rfl
    simp only [start, step, takes, silent, Bool.false_eq_true, if_false]
    rfl
  have idle : (start g sg slot junk dtackDly first).master.wbState = .idle := by
    simp only [start, step, clock, wbNext, state]
    exact if_neg (by rw [masterIn, silent]; exact Bool.false_ne_true)
  have settles' : Settles (start g sg slot junk dtackDly first).master 1 := settles.step (by decide) still
  refine ⟨⟨0, Nat.zero_le _, .idle idle (by rw [none, nothing]; rfl) (released.clock settles)
    (settles'.mono (by decide)) rfl slave ?_⟩,
    ⟨?_, ?_⟩⟩
  · rw [nothing]
    exact stores.congr echo intrEnable
  · rw [none]
    exact fun answer mem => absurd mem List.not_mem_nil
  · intro k q dat asked
    rw [nothing] at asked
    cases asked

theorem answers_step {i : Pair.Inputs} : w.answers <+: (step slot w i g).answers := List.prefix_append _ _

theorem answers_run {inputs : List Pair.Inputs} : w.answers <+: (run g slot w inputs).answers := by
  induction inputs generalizing w with
  | nil => exact List.prefix_rfl
  | cons i inputs ih => exact answers_step.trans ih

theorem answered_run {inputs : List Pair.Inputs} {k : Nat} (delays : Delays g)
    (along : Along g slot (NonPipelined slot) w inputs)
    (history : History w) (phase : Phase g slot w k) (bound : k ≤ longest g) (long : k ≤ inputs.length) :
    w.accepted.length ≤ (run g slot w inputs).answers.length := by
  have outstanding := phase.outstanding
  induction inputs generalizing w k with
  | nil =>
    rw [if_pos (Nat.le_zero.mp long)] at outstanding
    exact outstanding.ge
  | cons i inputs ih =>
    by_cases none : k = 0
    · rw [if_pos none] at outstanding
      exact outstanding.ge.trans answers_run.length_le
    · obtain ⟨⟨k', bound', phase', nearer⟩, history'⟩ := phase.step bound delays along.1 history
      obtain ⟨less, same⟩ := nearer (Nat.pos_of_ne_zero none)
      rw [← same]
      rw [List.length_cons] at long
      exact ih along.2 history' phase' bound' (by omega) phase'.outstanding

/-- With delays that fit together, every access of a non-pipelined host to the two registers is
acknowledged, and a read returns the last value written, bit 0 of the interrupts always set. -/
theorem run_serves (delays : Delays g) (slot : Fin 12) (junk : Junk)
    (dtackDly : BitVec (sg.dtackDlyCnt + 1)) (first : Pair.Inputs)
    (silent : (first.wb.cyc && first.wb.stb) = false) (inputs : List Pair.Inputs)
    (along : Along g slot (NonPipelined slot) (start g sg slot junk dtackDly first) inputs) :
    Serves shown g slot (start g sg slot junk dtackDly first) inputs := by
  have first' := start_inv (g := g) slot junk dtackDly first silent
  have inv := first'.run delays along
  obtain ⟨k, _, phase⟩ := inv.phase
  have outstanding := phase.outstanding
  refine ⟨inv.history.acknowledged, ?_, ?_, inv.history.reads, phase.apart⟩
  · split_ifs at outstanding <;> omega
  · rintro past more rfl long
    obtain ⟨before, after⟩ := Library.Runs.along_append.mp along
    have invPast := first'.run delays before
    obtain ⟨k, bound, phase⟩ := invPast.phase
    have answered := answered_run delays after invPast.history phase bound (bound.trans long)
    have split : run g slot (start g sg slot junk dtackDly first) (past ++ more) =
        run g slot (run g slot (start g sg slot junk dtackDly first) past) more := List.foldl_append
    rw [split]
    exact answered

instance (slot : Fin 12) (w : World sg) (i : Pair.Inputs) : Decidable (NonPipelined slot w i) :=
  decidable_of_iff ((∀ q ∈ w.accepted[w.answers.length]?, requestOf i.wb = q) ∧
      (accepts w.master i.wb = true → (requestOf i.wb).slaveNr = BitVec.ofNat 4 (slot + 1) ∧
        ((requestOf i.wb).adr = echoAdr ∨ (requestOf i.wb).adr = intrEnaAdr)))
    ⟨fun both => ⟨both.1, both.2⟩, fun host => ⟨host.kept, host.known⟩⟩

def ids : Slave.Generics := ⟨1, 2, 3, 4, 5, 6, 7, 0, 2⟩

def junk : Junk := ⟨0, 0, 0, 0, 0, false, false, false, 0, 0, 0⟩

def clockOf (stb we : Bool) (reg : BitVec 32) (dat : BitVec 16) : Pair.Inputs :=
  { wb := { cyc := stb, stb := stb, we := we, adr := 0x20000 + 2 * reg, dat := dat ++ dat, sel := 0xc, nDtack := true
            scubData := 0xffff, srqSync := 0, srqActive := 0, oneOrMoreSRQs := false }
    user := ⟨0, false, true, 0, 0, 0, 0, false⟩ }

/-- A strobe of one clock, and the access kept on the bus. -/
def access (we : Bool) (reg : BitVec 32) (dat : BitVec 16) (clocks : Nat) : List Pair.Inputs :=
  clockOf true we reg dat :: List.replicate clocks (clockOf false we reg dat)

def silent : Pair.Inputs := clockOf false false 0 0

def quick : List Pair.Inputs :=
  access true 0x10 0xabcd 17 ++ access true 0x21 0x8000 17 ++ access false 0x10 0 17 ++ access false 0x21 0 30

theorem run_serves_quick : Serves shown Starts.defaults 0 (start Starts.defaults ids 0 junk 0 silent) quick :=
  run_serves ⟨by decide, by decide⟩ 0 junk 0 silent rfl quick (by decide +kernel)

def disable : List Pair.Inputs := access true 0x21 0 20 ++ access false 0x21 0 20

def prompt : List Pair.Inputs := access true 0x10 0xabcd 17 ++ access true 0x10 0x1234 60

/-- A read of the interrupts does not return a zero that was written, the second of two accesses is
never answered when the release takes six clocks, and a write that the time-out is too short for
gets an err. -/
theorem as_claimed_fails :
    (Along Starts.defaults 0 (NonPipelined 0) (start Starts.defaults ids 0 junk 0 silent) disable ∧
      ¬Serves (fun _ value => value) Starts.defaults 0 (start Starts.defaults ids 0 junk 0 silent) disable) ∧
    (Along ⟨3, 6, 3, 35, 20⟩ 0 (NonPipelined 0) (start ⟨3, 6, 3, 35, 20⟩ ids 0 junk 0 silent) prompt ∧
      ¬Serves shown ⟨3, 6, 3, 35, 20⟩ 0 (start ⟨3, 6, 3, 35, 20⟩ ids 0 junk 0 silent) prompt) ∧
    (Along ⟨3, 3, 3, 8, 20⟩ 0 (NonPipelined 0) (start ⟨3, 3, 3, 8, 20⟩ ids 0 junk 0 silent) prompt ∧
      ¬Serves shown ⟨3, 3, 3, 8, 20⟩ 0 (start ⟨3, 3, 3, 8, 20⟩ ids 0 junk 0 silent) prompt) := by
  refine ⟨⟨by decide +kernel, ?_⟩, ⟨by decide +kernel, ?_⟩, ⟨by decide +kernel, ?_⟩⟩
  · intro serves
    have reads := serves.reads 1 ⟨1, 0x21, false, 0⟩ 1 (by decide +kernel) rfl (by decide +kernel)
    revert reads
    decide +kernel
  · intro serves
    have inTime := serves.inTime (prompt.take 20) (prompt.drop 20)
      (List.take_append_drop 20 prompt).symm (by decide +kernel)
    revert inTime
    decide +kernel
  · intro serves
    have acknowledged := serves.acknowledged none (by decide +kernel)
    cases acknowledged

end BelProject.ScuBus.EchoAccess
