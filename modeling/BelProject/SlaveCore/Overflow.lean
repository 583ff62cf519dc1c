import BelProject.Library.Runs
import BelProject.SlaveCore.Account

/-! Back-pressure in the slave core. The state machine looks only at the full flag of the tag
FIFO, and its pushes are registered, so the flag comes too late; the other FIFOs are not looked
at. Here RX is any sequence of inputs, whole packets or not, and beside the registers run four
counts of the traffic between RX and TX. -/

namespace BelProject.SlaveCore.Overflow
open Headers Fsm Fifo SlaveCore.Core
open CycleLine (Answer)
open TxMux (Mux cfgPop cfgPop_eq passPop served served_ready tagPop wbmPop wbmPop_eq)
open Account (muxTag muxTag_clock left_append)
open BelProject.Library.Runs (Along along_true)

variable {t : Nat}

structure Event where
  rxCyc : Bool
  rxStb : Bool
  rxDat : Word
  stall : Bool
  answer : Answer
  txStall : Bool
  skipStall : Bool
  regs : CfgRegs

/-- `r_queued` and `r_full` of `eb_wbm_fifo`: the strobes whose answers were not taken by the
transmitter. -/
structure Queued where
  queued : BitVec 5
  full : Bool
  deriving DecidableEq

def Queued.clock (q : Queued) (fsmStb muxPop : Bool) : Queued :=
  { queued := if fsmStb then (if muxPop then q.queued else q.queued + 1) else if muxPop then q.queued - 1 else q.queued
    full := if fsmStb then (if muxPop then q.full else if q.queued = 31 then true else q.full)
      else if muxPop then false else q.full }

structure World (t : Nat) where
  fsm : Registers
  tag : EbFifo Tag
  pass : EbFifo Word
  cfg : CfgFifo
  wbm : WbmFifo t
  queued : Queued
  mux : Mux
  /-- words taken from RX and ends of packets, less those the transmitter has served -/
  words : Nat
  /-- those of them with a word to pass on -/
  passed : Nat
  /-- those of them that access the bus -/
  accesses : Nat
  /-- answers of the bus, less those the transmitter has served -/
  answers : Nat

def start (g : Generics) (junk : Junk) : World t :=
  { fsm := Fsm.reset
    tag := Fifo.reset junk.tag (junk.tag 0)
    pass := Fifo.reset junk.pass (junk.pass 0)
    cfg := ⟨Fifo.reset junk.cfg (junk.cfg 0), true, 0⟩
    wbm := ⟨.reset g.limit, Fifo.reset junk.data (junk.data 0), 0⟩
    queued := ⟨0, false⟩
    mux := TxMux.reset
    words := 0
    passed := 0
    accesses := 0
    answers := 0 }

def fsmIn (w : World t) (e : Event) : Fsm.Inputs :=
  { rxCyc := e.rxCyc
    rxStb := e.rxStb
    rxDat := e.rxDat
    tagFull := w.tag.full
    wbmBusy := w.wbm.counters.busy
    masterStall := e.stall }

def muxIn (g : Generics) (w : World t) (e : Event) : TxMux.Inputs :=
  { tagDat := w.tag.rDat
    tagEmpty := w.tag.empty
    passDat := w.pass.rDat
    passEmpty := w.pass.empty
    cfgDat := cfgValue w.wbm.errreg g.sdbAddress e.regs w.cfg.cacheAdr
    cfgEmpty := w.cfg.cacheEmpty
    wbmDat := w.wbm.data.rDat.1
    wbmEmpty := w.wbm.data.empty
    skipStall := e.skipStall
    txStall := e.txStall }

def step (g : Generics) (w : World t) (e : Event) : World t :=
  let f := Fsm.clock w.fsm (fsmIn w e)
  let i := muxIn g w e
  { fsm := f
    tag := Fifo.clock w.tag (tagPush w.fsm) (tagPop w.mux i)
    pass := Fifo.clock w.pass (passPush w.fsm) (passPop w.mux i)
    cfg := w.cfg.clock (cfgPush w.fsm) (cfgPop w.mux i)
    wbm := w.wbm.clock g.limit w.fsm.wbmStb e.answer (wbmPop w.mux i)
    queued := w.queued.clock w.fsm.wbmStb (wbmPop w.mux i)
    mux := TxMux.clock w.mux i
    words := w.words + f.tagStb.toNat - (served w.mux i).toNat
    passed := w.passed + f.passStb.toNat - (passPop w.mux i).toNat
    accesses := w.accesses + f.wbmStb.toNat - (wbmPop w.mux i).toNat
    answers := w.answers + (w.wbm.counters.rdy e.answer).toNat - (wbmPop w.mux i).toNat }

/-- The registers are those of the core. -/
structure Runs (c : Core.World t) (w : World t) : Prop where
  fsm : c.fsm = w.fsm
  tag : c.tag = w.tag
  pass : c.pass = w.pass
  cfg : c.cfg = w.cfg
  wbm : c.wbm = w.wbm
  mux : c.mux = w.mux

def eventOf (c : Core.World t) (e : Core.Event) : Event :=
  { rxCyc := (Core.fsmIn c e).rxCyc
    rxStb := (Core.fsmIn c e).rxStb
    rxDat := (Core.fsmIn c e).rxDat
    stall := e.stall
    answer := e.answer
    txStall := e.txStall
    skipStall := e.skipStall
    regs := e.regs }

theorem Runs.step {g : Generics} {c : Core.World t} {w : World t} (runs : Runs c w) (e : Core.Event) :
    Runs (Core.step g c e) (Overflow.step g w (eventOf c e)) := by
  have inputs : fsmIn w (eventOf c e) = Core.fsmIn c e := by
    rw [fsmIn, ← runs.tag, ← runs.wbm]
    rfl
  have mux : muxIn g w (eventOf c e) = Core.muxIn g c e := by
    rw [muxIn, ← runs.tag, ← runs.pass, ← runs.cfg, ← runs.wbm]
    rfl
  have answer : (eventOf c e).answer = e.answer := rfl
  refine ⟨?_, ?_, ?_, ?_, ?_, ?_⟩
  all_goals
    simp only [Overflow.step, Core.step, inputs, mux, answer]
    simp only [runs.fsm, runs.tag, runs.pass, runs.cfg, runs.wbm, runs.mux]

def occupancy {α : Type} (f : EbFifo α) : Nat := (f.wIdx - f.rIdx).toNat

/-- No push while it is full, no pop while it is empty. -/
structure Guarded {α : Type} (f : EbFifo α) (push pop : Bool) : Prop where
  push : push = true → f.full = false ∧ occupancy f ≠ 32
  pop : pop = true → f.empty = false ∧ occupancy f ≠ 0

structure Safe (g : Generics) (w : World t) (e : Event) : Prop where
  tag : Guarded w.tag (tagPush w.fsm).isSome (tagPop w.mux (muxIn g w e))
  pass : Guarded w.pass (passPush w.fsm).isSome (passPop w.mux (muxIn g w e))
  cfg : Guarded w.cfg.fifo (cfgPush w.fsm).isSome (w.cfg.fifoPop (cfgPop w.mux (muxIn g w e)))
  strobe : w.fsm.wbmStb = true → w.queued.full = false
  data : Guarded w.wbm.data (w.wbm.push e.answer).isSome (wbmPop w.mux (muxIn g w e))

/-- The transmitter keeps up with RX and the bus. The tag in its register does not count against
the tag FIFO, but its word is still in one of the others. -/
structure KeepsUp (w : World t) (e : Event) : Prop where
  words : w.words ≤ 33
  passed : w.passed ≤ 32
  accesses : w.accesses ≤ 32
  answers : w.answers + (w.wbm.counters.rdy e.answer).toNat ≤ 32

/-- A tag comes with the strobes it calls for, and nothing comes without a tag. -/
structure Strobes (f : Registers) : Prop where
  cfg : f.cfgStb = (f.tagStb && isCfg f.tagDat)
  wbm : f.wbmStb = (f.tagStb && isWbm f.tagDat)

theorem word_strobes (f : Registers) (i : Fsm.Inputs) (dat : Word) : Strobes (word f (idle f i) dat) := by
  unfold word
  cases f.state with
  | ebHdr =>
    simp only [ebHdrWord, answerHdr]
    split_ifs <;> exact ⟨rfl, rfl⟩
  | cycHdr =>
    simp only [cycHdrWord]
    split_ifs <;> exact ⟨rfl, rfl⟩
  | write =>
    simp only [writeWord]
    cases f.rxRecHdr.wcaCfg <;> exact ⟨rfl, rfl⟩
  | read =>
    simp only [readWord]
    cases f.rxRecHdr.rcaCfg <;> exact ⟨rfl, rfl⟩
  | _ => exact ⟨rfl, rfl⟩

theorem clock_strobes (f : Registers) (i : Fsm.Inputs) : Strobes (Fsm.clock f i) := by
  unfold Fsm.clock
  simp only
  split_ifs
  · exact word_strobes f i i.rxDat
  · exact ⟨rfl, rfl⟩
  · exact ⟨(Bool.and_false _).symm, (Bool.and_false _).symm⟩
  · rename_i _ ended
    exact ⟨by simp [ended, idle], by simp [ended, idle]⟩

variable {α : Type}

variable {f : EbFifo α}

theorem occupancy_eq {queue : List α} (rep : Represents f queue) : occupancy f = queue.length := by
  have small := rep.length
  have difference : f.wIdx - f.rIdx = BitVec.ofNat 6 queue.length := by
    rw [rep.wIdx, BitVec.add_comm, BitVec.add_sub_cancel]
  rw [occupancy, difference, BitVec.toNat_ofNat, Nat.mod_eq_of_lt (by omega)]

theorem guarded_iff {queue : List α} (rep : Represents f queue) {push pop : Bool}
    (shown : pop = true → f.empty = false) : Guarded f push pop ↔ (push = true → queue.length ≠ 32) := by
  constructor
  · intro guarded pushes
    rw [← occupancy_eq rep]
    exact (guarded.push pushes).2
  · intro room
    refine ⟨fun pushes => ?_, fun pops => ?_⟩
    · rw [rep.full, occupancy_eq rep]
      exact ⟨decide_eq_false (room pushes), room pushes⟩
    · refine ⟨shown pops, ?_⟩
      rw [occupancy_eq rep, rep.shown (shown pops)]
      exact Nat.succ_ne_zero _

/-- A FIFO with a register behind it: while the register is free, only what was pushed in the
last two clocks is in the FIFO. -/
structure Staged {α : Type} (f : EbFifo α) (queue : List α) (valid : Bool) : Prop where
  rep : Represents f queue
  late : f.empty = true → queue.length ≤ 1
  free : valid = false → queue.length ≤ 2

/-- The register takes the word shown when it is free or served. -/
def fills (empty valid served : Bool) : Bool := !empty && (served || !valid)

def validNext (empty valid served : Bool) : Bool := if served || !valid then !empty else valid

theorem staged_reset (ram : Nat → α) (rDat : α) : Staged (Fifo.reset ram rDat) [] false :=
  ⟨represents_reset ram rDat, fun _ => Nat.zero_le _, fun _ => Nat.zero_le _⟩

theorem Staged.clock {queue : List α} {valid served : Bool} {push : Option α} (staged : Staged f queue valid)
    (room : push.isSome = true → queue.length ≠ 32) :
    Staged (Fifo.clock f push (fills f.empty valid served)) (left queue (fills f.empty valid served) ++ push.toList)
      (validNext f.empty valid served) := by
  have shown : fills f.empty valid served = true → f.empty = false := by
    intro moves
    rw [fills, Bool.and_eq_true, Bool.not_eq_true'] at moves
    exact moves.1
  have some : fills f.empty valid served = true → queue ≠ [] := by
    intro moves
    rw [staged.rep.shown (shown moves)]
    exact List.cons_ne_nil _ _
  have one : push.toList.length ≤ 1 := by cases push <;> simp
  refine ⟨staged.rep.clock some (fun pushes => Or.inl ?_), ?_, ?_⟩
  · rw [staged.rep.full]
    exact decide_eq_false (room pushes)
  · rw [staged.rep.empty_clock push some]
    intro gone
    rw [of_decide_eq_true gone, List.nil_append]
    exact one
  · intro free
    rw [validNext] at free
    -- The register stays free only when the FIFO shows nothing.
    have nothing : f.empty = true ∧ fills f.empty valid served = false := by
      revert free
      unfold fills
      cases f.empty <;> cases valid <;> cases served <;> decide
    have before := staged.late nothing.1
    rw [nothing.2, List.length_append]
    show queue.length + push.toList.length ≤ 2
    omega

theorem Staged.length_clock {queue : List α} {valid served : Bool} {push : Option α}
    (staged : Staged f queue valid) (held : served = true → valid = true) :
    (validNext f.empty valid served).toNat + (left queue (fills f.empty valid served) ++
      push.toList).length + served.toNat =
      valid.toNat + queue.length + push.isSome.toNat := by
  have pushed : push.toList.length = push.isSome.toNat := by cases push <;> rfl
  have some : f.empty = false → 1 ≤ queue.length := by
    intro shown
    rw [staged.rep.shown shown]
    exact Nat.succ_pos _
  rw [List.length_append, pushed]
  cases valid with
  | true =>
    cases served with
    | false => simp [validNext, fills, left]; omega
    | true =>
      cases shown : f.empty with
      | true => simp [validNext, fills, left]; omega
      | false =>
        have := some shown
        simp [validNext, fills, left]
        omega
  | false =>
    cases served with
    | true => exact absurd (held rfl) Bool.false_ne_true
    | false =>
      cases shown : f.empty with
      | true => simp [validNext, fills, left]
      | false =>
        have := some shown
        simp [validNext, fills, left]
        omega

theorem left_length {queue : List α} {pop : Bool} (some : pop = true → queue ≠ []) :
    (left queue pop).length + pop.toNat = queue.length := by
  cases pop with
  | false => rfl
  | true =>
    have := List.length_pos_iff.mpr (some rfl)
    rw [left, if_pos rfl, List.length_tail]
    exact Nat.sub_add_cancel this

theorem length_clock {queue : List α} {push : Option α} {pop : Bool} (rep : Represents f queue)
    (shown : pop = true → f.empty = false) (room : push.isSome = true → queue.length ≠ 32) :
    Represents (Fifo.clock f push pop) (left queue pop ++ push.toList) ∧
      (left queue pop ++ push.toList).length + pop.toNat = queue.length + push.isSome.toNat := by
  have some : pop = true → queue ≠ [] := by
    intro pops
    rw [rep.shown (shown pops)]
    exact List.cons_ne_nil _ _
  have pushed : push.toList.length = push.isSome.toNat := by cases push <;> rfl
  refine ⟨rep.clock some (fun pushes => Or.inl ?_), ?_⟩
  · rw [rep.full]
    exact decide_eq_false (room pushes)
  · have rest := left_length some
    rw [List.length_append, pushed]
    omega

theorem count_served (m : Mux) (queue : List Tag) (uses : Tag → Bool) (done : Bool)
    (held : done = true → m.tagValid = true) :
    (left (muxTag m ++ queue) done).countP uses + (done && uses m.tagValue).toNat =
    (muxTag m ++ queue).countP uses := by
  cases done with
  | false => rfl
  | true =>
    rw [muxTag, if_pos (held rfl), left, if_pos rfl, List.singleton_append, List.tail_cons,
      List.countP_cons, Bool.true_and]
    cases uses m.tagValue <;> rfl

theorem inside_clock (g : Generics) {w : World t} {queue : List Tag} (rep : Represents w.tag queue) (e : Event) :
    muxTag (step g w e).mux ++ (left queue (tagPop w.mux (muxIn g w e)) ++ (tagPush w.fsm).toList) =
      left (muxTag w.mux ++ (queue ++ (tagPush w.fsm).toList)) (served w.mux (muxIn g w e)) := by
  have held : served w.mux (muxIn g w e) = true → w.mux.tagValid = true := fun done => (served_ready done).2.1
  have register : muxTag (step g w e).mux = if served w.mux (muxIn g w e) || !w.mux.tagValid then
      (if w.tag.empty then [] else [w.tag.rDat]) else if w.mux.tagValid then [w.mux.tagValue] else [] :=
        muxTag_clock _ _
  rw [register, muxTag, rep.stage w.mux.tagValid _ w.mux.tagValue (tagPush w.fsm).toList held]
  rfl

/-- The counts of the traffic are those of the words in the registers and FIFOs. -/
structure Counted (w : World t) (tags : List Tag) (passes : List Word) (cfgs : List (BitVec 3))
    (results : List (Word × Bool)) : Prop where
  strobes : Strobes w.fsm
  tag : Staged w.tag tags w.mux.tagValid
  pass : Represents w.pass passes
  cfg : Staged w.cfg.fifo cfgs (!w.cfg.cacheEmpty)
  data : Represents w.wbm.data results
  words : w.words = (muxTag w.mux ++ tags).length + w.fsm.tagStb.toNat
  passed : w.passed = passes.length + w.fsm.passStb.toNat
  cached : (!w.cfg.cacheEmpty).toNat + cfgs.length = (muxTag w.mux ++ tags).countP isCfg
  accesses : w.accesses = (muxTag w.mux ++ tags).countP isWbm + w.fsm.wbmStb.toNat
  queued : w.queued.queued = BitVec.ofNat 5 ((muxTag w.mux ++ tags).countP isWbm)
  full : w.queued.full = decide ((muxTag w.mux ++ tags).countP isWbm = 32)
  few : (muxTag w.mux ++ tags).countP isWbm ≤ 32
  answers : w.answers = results.length

theorem start_counted (g : Generics) (junk : Junk) : Counted (start g junk : World t) [] [] [] [] :=
  { strobes := ⟨rfl, rfl⟩
    tag := staged_reset _ _
    pass := represents_reset _ _
    cfg := staged_reset _ _
    data := represents_reset _ _
    words := rfl
    passed := rfl
    cached := rfl
    accesses := rfl
    queued := rfl
    full := rfl
    few := Nat.zero_le _
    answers := rfl }

variable {g : Generics} {w : World t} {e : Event} {tags : List Tag} {passes : List Word} {cfgs : List (BitVec 3)}
  {results : List (Word × Bool)}

theorem pops_shown (w : World t) (e : Event) :
    (tagPop w.mux (muxIn g w e) = true → w.tag.empty = false) ∧
      (passPop w.mux (muxIn g w e) = true → w.pass.empty = false) ∧
      (w.cfg.fifoPop (cfgPop w.mux (muxIn g w e)) = true → w.cfg.fifo.empty = false) ∧
      (wbmPop w.mux (muxIn g w e) = true → w.wbm.data.empty = false) := by
  refine ⟨?_, ?_, ?_, ?_⟩
  · intro pops
    rw [tagPop, Bool.and_eq_true, Bool.not_eq_true'] at pops
    exact pops.1
  · intro pops
    rw [TxMux.passPop_eq, Bool.and_eq_true] at pops
    exact (served_ready pops.1).2.2.1 pops.2
  · intro pops
    rw [CfgFifo.fifoPop, Bool.and_eq_true, Bool.not_eq_true'] at pops
    exact pops.1
  · intro pops
    rw [wbmPop_eq, Bool.and_eq_true] at pops
    exact (served_ready pops.1).2.2.2.2 pops.2

theorem pushes (f : Registers) (answer : Answer) : (tagPush f).isSome = f.tagStb ∧ (passPush f).isSome = f.passStb ∧
    (cfgPush f).isSome = f.cfgStb ∧ (w.wbm.push answer).isSome = w.wbm.counters.rdy answer := by
  refine ⟨?_, ?_, ?_, ?_⟩
  · unfold tagPush
    cases f.tagStb <;> rfl
  · unfold passPush
    cases f.passStb <;> rfl
  · unfold cfgPush
    cases f.cfgStb <;> rfl
  · unfold WbmFifo.push
    cases w.wbm.counters.rdy answer <;> rfl

theorem Counted.safe_iff (counted : Counted w tags passes cfgs results) : Safe g w e ↔ KeepsUp w e := by
  obtain ⟨tagShown, passShown, cfgShown, dataShown⟩ := pops_shown (g := g) w e
  obtain ⟨tagPushes, passPushes, cfgPushes, dataPushes⟩ := pushes (w := w) w.fsm e.answer
  have tagLength := counted.tag.rep.length
  have passLength := counted.pass.length
  have cfgLength := counted.cfg.rep.length
  have dataLength := counted.data.length
  have words := counted.words
  have register : (muxTag w.mux ++ tags).length = w.mux.tagValid.toNat + tags.length := by
    unfold muxTag
    cases w.mux.tagValid <;> simp [Nat.add_comm]
  have tagIff : Guarded w.tag (tagPush w.fsm).isSome (tagPop w.mux (muxIn g w e)) ↔ w.words ≤ 33 := by
    rw [guarded_iff counted.tag.rep tagShown, tagPushes, words, register]
    cases pushes : w.fsm.tagStb with
    | false =>
      have : w.mux.tagValid.toNat ≤ 1 := Bool.toNat_le _
      simp only [Bool.false_eq_true, false_implies, Bool.toNat_false, true_iff]
      omega
    | true =>
      cases valid : w.mux.tagValid with
      | true => simp; omega
      | false =>
        have := counted.tag.free valid
        simp; omega
  have passIff : Guarded w.pass (passPush w.fsm).isSome (passPop w.mux (muxIn g w e)) ↔ w.passed ≤ 32 := by
    rw [guarded_iff counted.pass passShown, passPushes, counted.passed]
    cases w.fsm.passStb with
    | false => simpa using passLength
    | true => simp; omega
  have strobeIff : (w.fsm.wbmStb = true → w.queued.full = false) ↔ w.accesses ≤ 32 := by
    have few := counted.few
    rw [counted.full, counted.accesses]
    generalize (muxTag w.mux ++ tags).countP isWbm = count at few ⊢
    cases w.fsm.wbmStb with
    | false => simpa using few
    | true => simp; omega
  have dataIff : Guarded w.wbm.data (w.wbm.push e.answer).isSome (wbmPop w.mux (muxIn g w e)) ↔
      w.answers + (w.wbm.counters.rdy e.answer).toNat ≤ 32 := by
    rw [guarded_iff counted.data dataShown, dataPushes, counted.answers]
    cases w.wbm.counters.rdy e.answer with
    | false => simpa using dataLength
    | true => simp; omega
  constructor
  · intro safe
    exact ⟨tagIff.mp safe.tag, passIff.mp safe.pass, strobeIff.mp safe.strobe, dataIff.mp safe.data⟩
  · intro keeps
    refine ⟨tagIff.mpr keeps.words, passIff.mpr keeps.passed, ?_, strobeIff.mpr keeps.accesses,
      dataIff.mpr keeps.answers⟩
    rw [guarded_iff counted.cfg.rep cfgShown, cfgPushes]
    intro pushes all
    -- All cells of the config FIFO and the register behind it: as many tags wait.
    have together : w.fsm.tagStb = true := by
      have cfg := counted.strobes.cfg
      rw [pushes] at cfg
      exact ((Bool.and_eq_true _ _).mp cfg.symm).1
    have cached := counted.cached
    have most : (muxTag w.mux ++ tags).countP isCfg ≤ (muxTag w.mux ++ tags).length := List.countP_le_length
    have some : w.cfg.cacheEmpty = false := by
      cases empty : w.cfg.cacheEmpty with
      | false => rfl
      | true =>
        have := counted.cfg.free (by rw [empty]; rfl)
        omega
    have bound := keeps.words
    rw [words, together] at bound
    rw [some] at cached
    simp only [Bool.not_false, Bool.toNat_true] at cached bound
    omega

theorem queued_clock {q : Queued} {count : Nat} (queued : q.queued = BitVec.ofNat 5 count)
    (full : q.full = decide (count = 32))
    (few : count ≤ 32) {stb pop : Bool} (room : stb = true → q.full = false ∨ pop = true)
    (some : pop = true → 0 < count) :
    (q.clock stb pop).queued = BitVec.ofNat 5 (count + stb.toNat - pop.toNat) ∧
      (q.clock stb pop).full = decide (count + stb.toNat - pop.toNat = 32) ∧ count + stb.toNat - pop.toNat ≤ 32 := by
  cases stb with
  | false =>
    cases pop with
    | false => exact ⟨queued, full, few⟩
    | true =>
      obtain ⟨rest, rfl⟩ := Nat.exists_eq_succ_of_ne_zero (some rfl).ne'
      refine ⟨?_, ?_, by simp; omega⟩
      · show q.queued - 1 = BitVec.ofNat 5 rest
        rw [queued, Nat.succ_eq_add_one, BitVec.ofNat_add]
        exact BitVec.add_sub_cancel _ _
      · show false = decide (rest = 32)
        exact (decide_eq_false (by omega)).symm
  | true =>
    cases pop with
    | true =>
      have same : count + true.toNat - true.toNat = count := Nat.add_sub_cancel _ _
      rw [same]
      exact ⟨queued, full, few⟩
    | false =>
      have notFull := (room rfl).resolve_right Bool.false_ne_true
      rw [full, decide_eq_false_iff_not] at notFull
      have next : count + true.toNat - false.toNat = count + 1 := rfl
      rw [next]
      refine ⟨?_, ?_, by omega⟩
      · show q.queued + 1 = _
        rw [queued, BitVec.ofNat_add]
        rfl
      · show (if q.queued = 31 then true else q.full) = _
        have last : q.queued = 31 ↔ count = 31 := by
          rw [queued, ← BitVec.toNat_inj, BitVec.toNat_ofNat, Nat.mod_eq_of_lt (by omega)]
          exact Iff.rfl
        rw [full]
        by_cases here : count = 31
        · rw [if_pos (last.mpr here), here]
          rfl
        · rw [if_neg (fun same => here (last.mp same)), decide_eq_decide]
          omega

theorem Counted.step (counted : Counted w tags passes cfgs results) (safe : Safe g w e) :
    ∃ tags' passes' cfgs' results', Counted (step g w e) tags' passes' cfgs' results' := by
  obtain ⟨tagShown, passShown, cfgShown, dataShown⟩ := pops_shown (g := g) w e
  obtain ⟨tagPushes, passPushes, cfgPushes, dataPushes⟩ := pushes (w := w) w.fsm e.answer
  have held : served w.mux (muxIn g w e) = true → w.mux.tagValid = true := fun done => (served_ready done).2.1
  have inside := inside_clock g counted.tag.rep e
  have front : served w.mux (muxIn g w e) = true → muxTag w.mux ++ tags ≠ [] := by
    intro done
    rw [muxTag, if_pos (held done)]
    exact List.cons_ne_nil _ _
  rw [← List.append_assoc (muxTag w.mux), left_append _ front] at inside
  -- What a tag takes with it.
  have cfgCount := count_served w.mux tags isCfg _ held
  have wbmCount := count_served w.mux tags isWbm _ held
  rw [← cfgPop_eq] at cfgCount
  rw [← wbmPop_eq] at wbmCount
  have tagCount : (left (muxTag w.mux ++ tags) (served w.mux (muxIn g w e))).length +
    (served w.mux (muxIn g w e)).toNat =
      (muxTag w.mux ++ tags).length := left_length front
  have pushed : ∀ uses : Tag → Bool, (tagPush w.fsm).toList.countP uses =
    (w.fsm.tagStb && uses w.fsm.tagDat).toNat := by
    intro uses
    unfold tagPush
    cases w.fsm.tagStb with
    | false => rfl
    | true =>
      rw [if_pos rfl, Option.toList_some, List.countP_singleton, Bool.true_and]
      cases uses w.fsm.tagDat <;> rfl
  have tagNext := @Staged.clock _ _ _ _ (served w.mux (muxIn g w e)) (tagPush w.fsm) counted.tag
    (fun pushes => by rw [← occupancy_eq counted.tag.rep]; exact (safe.tag.push pushes).2)
  obtain ⟨passNext, passLength⟩ := length_clock counted.pass passShown
    (fun pushes : (passPush w.fsm).isSome = true => by rw [← occupancy_eq counted.pass]; exact (safe.pass.push pushes).2)
  have cfgNext := @Staged.clock _ _ _ _ (cfgPop w.mux (muxIn g w e)) (cfgPush w.fsm) counted.cfg
    (fun pushes => by rw [← occupancy_eq counted.cfg.rep]; exact (safe.cfg.push pushes).2)
  have cfgLength := @Staged.length_clock _ _ _ _ (cfgPop w.mux (muxIn g w e)) (cfgPush w.fsm) counted.cfg (by
    intro pops
    rw [cfgPop_eq, Bool.and_eq_true] at pops
    have ready : w.cfg.cacheEmpty = false := (served_ready pops.1).2.2.2.1 pops.2
    rw [ready]
    rfl)
  obtain ⟨dataNext, dataLength⟩ := length_clock counted.data dataShown
    (fun pushes : (w.wbm.push e.answer).isSome =
      true => by rw [← occupancy_eq counted.data]; exact (safe.data.push pushes).2)
  have wbmSome : wbmPop w.mux (muxIn g w e) = true → 0 < (muxTag w.mux ++ tags).countP isWbm := by
    intro pops
    rw [pops] at wbmCount
    exact wbmCount ▸ Nat.succ_pos _
  obtain ⟨queued, full, few⟩ :=
    queued_clock counted.queued counted.full counted.few (fun high => .inl (safe.strobe high)) wbmSome
  have strobes := counted.strobes
  have wbmAfter : (muxTag (Overflow.step g w e).mux ++
    (left tags (tagPop w.mux (muxIn g w e)) ++ (tagPush w.fsm).toList)).countP isWbm =
      (muxTag w.mux ++ tags).countP isWbm + w.fsm.wbmStb.toNat - (wbmPop w.mux (muxIn g w e)).toNat := by
    rw [inside, List.countP_append, pushed, ← strobes.wbm]
    omega
  have empty : (!(Overflow.step g w e).cfg.cacheEmpty) =
      validNext w.cfg.fifo.empty (!w.cfg.cacheEmpty) (cfgPop w.mux (muxIn g w e)) := by
    show (!if w.cfg.cacheEmpty || cfgPop w.mux (muxIn g w e) then w.cfg.fifo.empty else w.cfg.cacheEmpty) = _
    unfold validNext
    cases w.cfg.cacheEmpty <;> cases cfgPop w.mux (muxIn g w e) <;> rfl
  have cfgPops : w.cfg.fifoPop (cfgPop w.mux (muxIn g w e)) =
      fills w.cfg.fifo.empty (!w.cfg.cacheEmpty) (cfgPop w.mux (muxIn g w e)) := by
    rw [CfgFifo.fifoPop, fills, Bool.not_not, Bool.or_comm]
  rw [← cfgPops, ← empty] at cfgNext cfgLength
  have tagPushed : (tagPush w.fsm).toList.length = w.fsm.tagStb.toNat := by
    unfold tagPush
    cases w.fsm.tagStb <;> rfl
  refine ⟨left tags (tagPop w.mux (muxIn g w e)) ++ (tagPush w.fsm).toList,
    left passes (passPop w.mux (muxIn g w e)) ++ (passPush w.fsm).toList,
    left cfgs (w.cfg.fifoPop (cfgPop w.mux (muxIn g w e))) ++ (cfgPush w.fsm).toList,
    left results (wbmPop w.mux (muxIn g w e)) ++ (w.wbm.push e.answer).toList, ?_⟩
  exact
    { strobes := clock_strobes _ _
      tag := tagNext
      pass := passNext
      cfg := cfgNext
      data := dataNext
      words := by
        show w.words + (Fsm.clock w.fsm (fsmIn w e)).tagStb.toNat - (served w.mux (muxIn g w e)).toNat =
          _ + (Fsm.clock w.fsm (fsmIn w e)).tagStb.toNat
        rw [inside, List.length_append, tagPushed, counted.words]
        omega
      passed := by
        show w.passed + (Fsm.clock w.fsm (fsmIn w e)).passStb.toNat - (passPop w.mux (muxIn g w e)).toNat =
          _ + (Fsm.clock w.fsm (fsmIn w e)).passStb.toNat
        rw [passPushes] at passLength
        rw [counted.passed]
        omega
      cached := by
        rw [inside, List.countP_append, pushed, ← strobes.cfg]
        have before := counted.cached
        rw [cfgPushes] at cfgLength
        omega
      accesses := by
        show w.accesses + (Fsm.clock w.fsm (fsmIn w e)).wbmStb.toNat - (wbmPop w.mux (muxIn g w e)).toNat =
          _ + (Fsm.clock w.fsm (fsmIn w e)).wbmStb.toNat
        rw [wbmAfter, counted.accesses]
        omega
      queued := by
        rw [wbmAfter]
        exact queued
      full := by
        rw [wbmAfter]
        exact full
      few := by
        rw [wbmAfter]
        exact few
      answers := by
        show w.answers + (w.wbm.counters.rdy e.answer).toNat - (wbmPop w.mux (muxIn g w e)).toNat = _
        rw [dataPushes] at dataLength
        rw [counted.answers]
        omega }

theorem Counted.run (counted : Counted w tags passes cfgs results) (events : List Event) :
    Along (Overflow.step g) (Safe g) w events ↔ Along (Overflow.step g) KeepsUp w events := by
  refine (along_true _ w events).congr (fun w => ∃ tags passes cfgs results, Counted w tags passes cfgs results)
    ⟨_, _, _, _, counted⟩ ?_ ?_
  · rintro w e ⟨_, _, _, _, counted⟩ _
    exact counted.safe_iff
  · rintro w e ⟨_, _, _, _, counted⟩ _ safe
    exact counted.step safe

/-- The FIFOs are safe in a run exactly when the transmitter keeps up in it. -/
theorem safe_iff_keepsUp (g : Generics) (junk : Junk) (events : List Event) :
    Along (Overflow.step g) (Safe g) (start g junk : World t) events ↔
      Along (Overflow.step g) KeepsUp (start g junk : World t) events :=
  (start_counted g junk).run events

instance {α : Type} (f : EbFifo α) (push pop : Bool) : Decidable (Guarded f push pop) :=
  decidable_of_iff ((push = true → f.full = false ∧ occupancy f ≠ 32) ∧
    (pop = true → f.empty = false ∧ occupancy f ≠ 0))
    ⟨fun ⟨pushes, pops⟩ => ⟨pushes, pops⟩, fun ⟨pushes, pops⟩ => ⟨pushes, pops⟩⟩

instance (g : Generics) (w : World t) (e : Event) : Decidable (Safe g w e) :=
  decidable_of_iff
    (Guarded w.tag (tagPush w.fsm).isSome (tagPop w.mux (muxIn g w e)) ∧
      Guarded w.pass (passPush w.fsm).isSome (passPop w.mux (muxIn g w e)) ∧
      Guarded w.cfg.fifo (cfgPush w.fsm).isSome (w.cfg.fifoPop (cfgPop w.mux (muxIn g w e))) ∧
      (w.fsm.wbmStb = true → w.queued.full = false) ∧
      Guarded w.wbm.data (w.wbm.push e.answer).isSome (wbmPop w.mux (muxIn g w e)))
    ⟨fun ⟨tag, pass, cfg, strobe, data⟩ => ⟨tag, pass, cfg, strobe, data⟩,
      fun ⟨tag, pass, cfg, strobe, data⟩ => ⟨tag, pass, cfg, strobe, data⟩⟩

def junk : Junk := ⟨fun _ => .dropTx, fun _ => 0, fun _ => 0, fun _ => (0, false)⟩

def offered (dat : Word) : Event :=
  { rxCyc := true, rxStb := true, rxDat := dat, stall := false, answer := ⟨false, false, false, 0⟩, txStall := true
    skipStall := true, regs := ⟨0, 0, 0⟩ }

def records : List Event := offered 0x4E6F1044 :: List.replicate 40 (offered 0)

theorem stall_late : ¬∀ events : List Event, Along (step ⟨0, 15⟩) (Safe ⟨0, 15⟩)
    (start ⟨0, 15⟩ junk : World 4) events := by
  intro all
  have overflows : ¬Along (step ⟨0, 15⟩) (Safe ⟨0, 15⟩) (start ⟨0, 15⟩ junk : World 4) records := by decide +kernel
  exact overflows (all records)

end BelProject.SlaveCore.Overflow
