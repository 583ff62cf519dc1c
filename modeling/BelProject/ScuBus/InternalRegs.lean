import BelProject.Library.Runs
import BelProject.ScuBus.Starts

/-! `int_regs` over a run. The process gives its time-out bits a default in every clock, takes back
the bit for invalid accesses in idle, and decodes the register address of every access, whatever
slave it is for. -/

namespace BelProject.ScuBus.InternalRegs
open Master Library.Runs
open Starts (defaults junk writes)

/-- `bit_scub_wr_err`, `bit_scub_rd_err` and `bit_inval_intern_acc`. -/
inductive ErrorBit where
  | wrErr | rdErr | invalIntern
  deriving DecidableEq, Repr

def ErrorBit.index : ErrorBit → Nat
  | .wrErr => 0
  | .rdErr => 1
  | .invalIntern => 3

/-- The register behind a bit of `S_Status`. -/
def ErrorBit.get (r : Registers) : ErrorBit → Bool
  | .wrErr => r.wrErr
  | .rdErr => r.rdErr
  | .invalIntern => r.invalidIntern

/-- The host writes a one to the bit in the status register of the master. -/
def hostClears (r : Registers) (i : Inputs) (b : ErrorBit) : Bool := r.slaveNr == 0 && clears r i b.index

/-- Whatever comes after a bit was set, it is still set as long as the host has not cleared it. -/
def Sticky (g : Generics) (r : Registers) (inputs : List Inputs) : Prop :=
  ∀ (b : ErrorBit) (past since rest : List Inputs), inputs = past ++ since ++ rest → b.get (run g r past) = true →
    Along (clock g) (fun r i => hostClears r i b = false) (run g r past) since → b.get (run g r (past ++ since)) = true

/-- A clock that drops no bit: a time-out bit is up only where the host clears it, and the bit for
invalid accesses is not up in idle. -/
structure Keeping (r : Registers) (i : Inputs) : Prop where
  wrErr : r.wrErr = true → hostClears r i .wrErr = true
  rdErr : r.rdErr = true → hostClears r i .rdErr = true
  invalIntern : r.wbState = .idle → r.invalidIntern = false

/-- A time-out bit comes up one clock behind the time-out. -/
structure Inv (r : Registers) : Prop where
  wrErr : r.wrErr = true → r.sm = .eWrCyc
  rdErr : r.rdErr = true → r.sm = .eRdCyc
  fresh : r.wbState = .cycStart → r.invalidIntern = false

variable {g : Generics} {r : Registers} {i : Inputs} {b : ErrorBit}

theorem start_inv (g : Generics) (junk : Junk) : Inv (start g junk) :=
  ⟨Bool.noConfusion, Bool.noConfusion, fun _ => rfl⟩

theorem accesses_none (other : r.wbState ≠ .cycStart) : wrAcc r i = none ∧ rdAcc r i = none := by
  have off : (r.wbState == .cycStart) = false := beq_eq_false_iff_ne.mpr other
  rw [wrAcc, rdAcc, off]
  exact ⟨rfl, rfl⟩

theorem clears_none (other : r.wbState ≠ .cycStart) {bit : Nat} : clears r i bit = false := by
  rw [clears, (accesses_none other).1]
  rfl

theorem invalid_next (other : r.wbState ≠ .cycStart) :
    (clock g r i).invalidIntern = (r.invalidIntern && r.wbState != .idle) := by
  change invalidInternNext r i = _
  rw [invalidInternNext, (accesses_none other).1, (accesses_none other).2]

theorem decode_from_idle (next : (clock g r i).wbState = .cycStart) : r.wbState = .idle := by
  change wbNext r i = .cycStart at next
  rw [wbNext] at next
  cases state : r.wbState with
  | idle => rfl
  | cycStart | extStall =>
    rw [state] at next
    dsimp only at next
    split_ifs at next
  | intAcc | extErr | extAcc | invalidSlave =>
    rw [state] at next
    cases next

theorem inv_clock : Inv (clock g r i) := by
  constructor
  · intro up
    change (r.sm == .toWrCyc && !clears r i 0) = true at up
    have state : r.sm = .toWrCyc := beq_iff_eq.mp (Bool.and_eq_true_iff.mp up).1
    change smNext r = _
    rw [smNext, state]
  · intro up
    change (r.sm == .toRdCyc && !clears r i 1) = true at up
    have state : r.sm = .toRdCyc := beq_iff_eq.mp (Bool.and_eq_true_iff.mp up).1
    change smNext r = _
    rw [smNext, state]
  · intro next
    have state := decode_from_idle next
    have other : r.wbState ≠ .cycStart := by rw [state]; exact WbCtrl.noConfusion
    rw [invalid_next other, state]
    exact Bool.and_false _

theorem get_clock (inv : Inv r) (up : b.get r = true) :
    b.get (Master.clock g r i) = match b with
      | .invalIntern => r.wbState != .idle
      | _ => false := by
  cases b with
  | wrErr =>
    change (r.sm == .toWrCyc && _) = false
    rw [inv.wrErr up]
    rfl
  | rdErr =>
    change (r.sm == .toRdCyc && _) = false
    rw [inv.rdErr up]
    rfl
  | invalIntern =>
    have other : r.wbState ≠ .cycStart := fun state => absurd (up.symm.trans (inv.fresh state)) Bool.noConfusion
    change r.invalidIntern = true at up
    change (Master.clock g r i).invalidIntern = _
    rw [invalid_next other, up, Bool.true_and]

theorem keeping_iff (inv : Inv r) :
    Keeping r i ↔ ∀ b : ErrorBit, b.get r = true → hostClears r i b = false → b.get (Master.clock g r i) = true := by
  constructor
  · intro keeping b up left
    rw [get_clock inv up]
    cases b with
    | wrErr => exact absurd ((keeping.wrErr up).symm.trans left) Bool.noConfusion
    | rdErr => exact absurd ((keeping.rdErr up).symm.trans left) Bool.noConfusion
    | invalIntern =>
      apply bne_iff_ne.mpr
      intro state
      exact absurd ((keeping.invalIntern state).symm.trans up) Bool.noConfusion
  · intro keeps
    constructor
    · intro up
      by_contra left
      have still := keeps .wrErr up (Bool.eq_false_iff.mpr left)
      rw [get_clock inv (b := .wrErr) up] at still
      cases still
    · intro up
      by_contra left
      have still := keeps .rdErr up (Bool.eq_false_iff.mpr left)
      rw [get_clock inv (b := .rdErr) up] at still
      cases still
    · intro state
      by_contra set
      have up : ErrorBit.get r .invalIntern = true := Bool.eq_true_of_not_eq_false set
      have other : r.wbState ≠ .cycStart := by rw [state]; exact WbCtrl.noConfusion
      have left : hostClears r i .invalIntern = false := by rw [hostClears, clears_none other, Bool.and_false]
      have still := keeps .invalIntern up left
      rw [get_clock inv up, state] at still
      cases still

theorem run_append (r : Registers) (past more : List Inputs) : run g r (past ++ more) = run g (run g r past) more :=
  List.foldl_append ..

theorem Inv.run {inputs : List Inputs} (inv : Inv r) : Inv (run g r inputs) :=
  (along_true (Master.clock g) r inputs).invariant Inv inv fun _ _ => inv_clock

theorem get_since (inv : Inv r) {since : List Inputs} (up : b.get r = true)
    (keeping : Along (Master.clock g) Keeping r since)
    (left : Along (Master.clock g) (fun r i => hostClears r i b = false) r since) :
    b.get (Master.run g r since) = true := by
  induction since generalizing r with
  | nil => exact up
  | cons i since ih => exact ih inv_clock ((keeping_iff inv).mp keeping.1 b up left.1) keeping.2 left.2

/-- From a reset on the error bits stay until the host clears them in those runs only in which no
clock drops one: none but the last clock of a run has a time-out bit up, unless the host clears it
there, and an invalid access is the last one. -/
theorem sticky_iff (g : Generics) (junk : Junk) (inputs : List Inputs) :
    Sticky g (start g junk) inputs ↔ Along (clock g) Keeping (start g junk) inputs := by
  constructor
  · intro sticky
    apply along_iff.mpr
    intro past i rest split
    apply (keeping_iff (g := g) (start_inv g junk).run).mpr
    intro b up left
    have split' : inputs = past ++ [i] ++ rest := by rw [split, List.append_assoc, List.singleton_append]
    have still := sticky b past [i] rest split' up ⟨left, trivial⟩
    rw [run_append] at still
    exact still
  · rintro keeping b past since rest rfl up left
    rw [List.append_assoc] at keeping
    have along := (along_append.mp (along_append.mp keeping).2).1
    rw [run_append]
    exact get_since (start_inv g junk).run up along left

def unanswered : List Inputs := List.replicate 43 (writes true)

/-- The time-out bit is gone in the clock after it came up. -/
theorem timeout_dropped : ¬∀ inputs : List Inputs, Sticky defaults (start defaults junk) inputs := by
  intro all
  have up : ErrorBit.get (run defaults (start defaults junk) (unanswered.take 42)) .wrErr = true := by decide +kernel
  have gone : ErrorBit.get (run defaults (start defaults junk) unanswered) .wrErr = false := by decide +kernel
  have left : hostClears (run defaults (start defaults junk) (unanswered.take 42)) (writes true) .wrErr = false := by
    decide +kernel
  have still := all unanswered .wrErr (unanswered.take 42) [writes true] [] rfl up ⟨left, trivial⟩
  exact absurd (gone.symm.trans still) Bool.noConfusion

structure Contents where
  multiSel : BitVec 12
  srqEna : BitVec 12
  internEcho1 : BitVec 16
  globalIntrEna : BitVec 16

def contents (r : Registers) : Contents :=
  { multiSel := r.multiSel, srqEna := r.srqEna, internEcho1 := r.internEcho1, globalIntrEna := r.globalIntrEna }

/-- The clock that decodes an access to a slave or to several of them. -/
def outside (r : Registers) : Bool := r.wbState == .cycStart && (external r.slaveNr || multicast r.slaveNr)

/-- From the decoding of such an access until the Wishbone side is idle again, the registers hold
what they held and no invalid access is flagged. -/
def Untouched (g : Generics) (r : Registers) (inputs : List Inputs) : Prop :=
  ∀ past during rest : List Inputs, inputs = past ++ during ++ rest → outside (run g r past) = true →
    Along (clock g) (fun r _ => r.wbState ≠ .idle) (run g r past) during →
      contents (run g r (past ++ during)) = contents (run g r past) ∧ (run g r (past ++ during)).invalidIntern = false

/-- A write leaves the register at its address as it is. -/
def Rewrites (r : Registers) (i : Inputs) : InternReg → Prop
  | .multiSlaveSel => (wrDataIn i).extractLsb' 0 12 = r.multiSel
  | .srqEna => (wrDataIn i).extractLsb' 0 12 = r.srqEna
  | .echo1 => wrDataIn i = r.internEcho1
  | .globalIntrEna => 0#10 ++ (wrDataIn i).extractLsb' 0 6 = r.globalIntrEna
  | .status => True
  | .versRevi | .srqActive | .srqIn | .others => False

/-- The address is one of a register of the master, which can be read, or is given the value that it
holds. -/
structure Harmless (r : Registers) (i : Inputs) : Prop where
  read : i.we = false → internReg r.adr ≠ .others
  write : i.we = true → Rewrites r i (internReg r.adr)

theorem contents_other (other : wrAcc r i = none) : contents (clock g r i) = contents r := by
  change Contents.mk (if wrAcc r i = _ then _ else _) (if wrAcc r i = _ then _ else _) (if wrAcc r i = _ then _ else _)
    (if wrAcc r i = _ then _ else _) = contents r
  rw [other]
  rfl

theorem harmless_iff (fresh : r.invalidIntern = false) (state : r.wbState = .cycStart) :
    Harmless r i ↔ contents (clock g r i) = contents r ∧ (clock g r i).invalidIntern = false := by
  have here : (r.wbState == .cycStart) = true := by rw [state]; rfl
  have invalid : (clock g r i).invalidIntern = invalidInternNext r i := rfl
  cases writes : i.we with
  | false =>
    have rd : rdAcc r i = some (internReg r.adr) := by rw [rdAcc, here, writes]; rfl
    have wr : wrAcc r i = none := by rw [wrAcc, here, writes]; rfl
    have bit : (clock g r i).invalidIntern = (internReg r.adr == .others) := by
      rw [invalid, invalidInternNext, rd, fresh]
      exact Bool.or_false _
    rw [contents_other wr, bit]
    constructor
    · intro harmless
      exact ⟨rfl, beq_eq_false_iff_ne.mpr (harmless.read writes)⟩
    · rintro ⟨_, known⟩
      exact ⟨fun _ => beq_eq_false_iff_ne.mp known, fun write => absurd (writes.symm.trans write) Bool.noConfusion⟩
  | true =>
    have rd : rdAcc r i = none := by rw [rdAcc, here, writes]; rfl
    have wr : wrAcc r i = some (internReg r.adr) := by rw [wrAcc, here, writes]; rfl
    have bit : (clock g r i).invalidIntern = (internReg r.adr == .others || readOnly (internReg r.adr)) := by
      rw [invalid, invalidInternNext, rd, wr, fresh]
      exact Bool.or_false _
    have values : contents (clock g r i) = contents r ↔
        (internReg r.adr = .multiSlaveSel → (wrDataIn i).extractLsb' 0 12 = r.multiSel) ∧
        (internReg r.adr = .srqEna → (wrDataIn i).extractLsb' 0 12 = r.srqEna) ∧
        (internReg r.adr = .echo1 → wrDataIn i = r.internEcho1) ∧
        (internReg r.adr = .globalIntrEna → 0#10 ++ (wrDataIn i).extractLsb' 0 6 = r.globalIntrEna) := by
      change Contents.mk (if wrAcc r i = _ then _ else _) (if wrAcc r i = _ then _ else _)
        (if wrAcc r i = _ then _ else _)
        (if wrAcc r i = _ then _ else _) = contents r ↔ _
      rw [wr, contents, Contents.mk.injEq]
      simp only [Option.some.injEq, ite_eq_right_iff]
    have rewrites : Harmless r i ↔ Rewrites r i (internReg r.adr) :=
      ⟨fun harmless => harmless.write writes, fun same =>
        ⟨fun read => absurd (writes.symm.trans read) Bool.noConfusion, fun _ => same⟩⟩
    rw [rewrites, bit, values]
    cases internReg r.adr <;> simp [Rewrites, readOnly]

theorem contents_during (other : r.wbState ≠ .cycStart) (clear : r.invalidIntern = false) {during : List Inputs}
    (along : Along (clock g) (fun r _ => r.wbState ≠ .idle) r during) :
    contents (run g r during) = contents r ∧ (run g r during).invalidIntern = false := by
  induction during generalizing r with
  | nil => exact ⟨rfl, clear⟩
  | cons i during ih =>
    have later : (clock g r i).wbState ≠ .cycStart := fun next => along.1 (decode_from_idle next)
    have clear' : (clock g r i).invalidIntern = false := by rw [invalid_next other, clear, Bool.false_and]
    have rest := ih later clear' along.2
    exact ⟨rest.1.trans (contents_other (accesses_none other).1), rest.2⟩

/-- From a reset on the accesses to the outside leave the registers of the master alone in those
runs only in which each of them has the address of such a register, and is a read or writes what the
register holds already. -/
theorem untouched_iff (g : Generics) (junk : Junk) (inputs : List Inputs) :
    Untouched g (start g junk) inputs ↔
      Along (clock g) (fun r i => outside r = true → Harmless r i) (start g junk) inputs := by
  constructor
  · intro untouched
    apply along_iff.mpr
    intro past i rest split out
    have state : (run g (start g junk) past).wbState = .cycStart := beq_iff_eq.mp (Bool.and_eq_true_iff.mp out).1
    have inv : Inv (run g (start g junk) past) := (start_inv g junk).run
    have split' : inputs = past ++ [i] ++ rest := by rw [split, List.append_assoc, List.singleton_append]
    have busy : (run g (start g junk) past).wbState ≠ .idle := by rw [state]; exact WbCtrl.noConfusion
    have same := untouched past [i] rest split' out ⟨busy, trivial⟩
    rw [run_append] at same
    exact (harmless_iff (inv.fresh state) state).mpr same
  · rintro harmless past during rest rfl out along
    have state : (run g (start g junk) past).wbState = .cycStart := beq_iff_eq.mp (Bool.and_eq_true_iff.mp out).1
    have inv : Inv (run g (start g junk) past) := (start_inv g junk).run
    rw [run_append]
    cases during with
    | nil => exact ⟨rfl, inv.fresh state⟩
    | cons i during =>
      rw [List.append_assoc] at harmless
      have here := (along_append.mp harmless).2.1 out
      have decode := (harmless_iff (g := g) (inv.fresh state) state).mp here
      have other : (clock g (run g (start g junk) past) i).wbState ≠ .cycStart :=
        fun next => along.1 (decode_from_idle next)
      have rest := contents_during other decode.2 along.2
      exact ⟨rest.1.trans decode.1, rest.2⟩

def writeSlave : Inputs := ⟨true, true, true, 0x20018, 0x70000, 12, true, 0, 0, 0, false⟩

/-- The write to the slave selects slaves for the next multicast. -/
theorem slave_write_selects : ¬∀ inputs : List Inputs, Untouched defaults (start defaults junk) inputs := by
  intro all
  have out : outside (run defaults (start defaults junk) [writeSlave]) = true := by decide
  have busy : (run defaults (start defaults junk) [writeSlave]).wbState ≠ .idle := by decide
  have same := (all [writeSlave, writeSlave] [writeSlave] [writeSlave] [] rfl out ⟨busy, trivial⟩).1
  have before : (run defaults (start defaults junk) [writeSlave]).multiSel = 0 := by decide
  have after : (run defaults (start defaults junk) [writeSlave, writeSlave]).multiSel = 7 := by decide
  have equal := congrArg Contents.multiSel same
  exact absurd (after.symm.trans (equal.trans before)) (by decide)

end BelProject.ScuBus.InternalRegs
