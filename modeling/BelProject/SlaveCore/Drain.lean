import BelProject.SlaveCore.History

/-! The core empties itself. Once RX is over and every access is answered, each FIFO knows
within four clocks whether it is empty, and from then on one token leaves in every clock. -/

namespace BelProject.SlaveCore.Drain
open Headers Fsm Fifo SlaveCore.Core Account Frames History
open CycleLine (Answer Inflight)
open TxMux (Mux canTx served tagMux)
open BelProject.Library.Runs (Along)

variable {t : Nat}

def quiet (regs : CfgRegs) : Event := ⟨.idle none, false, CycleLine.quiet, false, false, regs⟩

/-- Everything offered was taken, and every access has its answer. -/
structure Complete (w : World t) : Prop where
  rest : w.rest = []
  waiting : w.waiting + w.fsm.wbmStb.toNat = 0

structure Drained (w : World t) : Prop where
  rest : w.rest = []
  rxCyc : w.fsm.rxCyc = false
  pending : w.pending = []

/-- The flag of a FIFO after a clock without a push. -/
def Exact {α : Type} (f : EbFifo α) : Prop := f.empty = decide (f.wIdx = f.rIdx)

variable {α : Type}

theorem exact_clock (f : EbFifo α) (pop : Bool) : Exact (Fifo.clock f none pop) := rfl

theorem exact_empty {f : EbFifo α} {queue : List α} (rep : Represents f queue) (exact' : Exact f) :
    f.empty = true ↔ queue = [] := by
  have length := rep.length
  have same := add_ofNat_inj f.rIdx (a := queue.length) (b := 0) (by omega) (by decide)
  have zero : f.rIdx + BitVec.ofNat 6 0 = f.rIdx := BitVec.add_zero _
  rw [zero, ← rep.wIdx, List.length_eq_zero_iff] at same
  rw [exact', decide_eq_true_iff, same]

theorem exact_still {f : EbFifo α} (exact' : Exact f) (none : f.empty = true) :
    (Fifo.clock f Option.none false).empty = true := by
  rw [exact'] at none
  exact none

/-- The machine has seen the end of the packet. -/
structure Ended (w : World t) : Prop where
  rest : w.rest = []
  waiting : w.waiting = 0
  wbmStb : w.fsm.wbmStb = false
  pass : passPush w.fsm = none
  cfg : cfgPush w.fsm = none
  rxCyc : w.fsm.rxCyc = false

/-- Nothing is pushed any more. -/
structure Silent (w : World t) : Prop extends Ended w where
  tag : tagPush w.fsm = none

structure Known (w : World t) : Prop extends Silent w where
  tagKnown : Exact w.tag
  passKnown : Exact w.pass
  cfgKnown : Exact w.cfg.fifo
  dataKnown : Exact w.wbm.data

/-- The registers behind the FIFOs are filled as far as they can be. -/
structure Ready (w : World t) : Prop extends Known w where
  tagFilled : w.mux.tagValid = false → w.tag.empty = true
  cfgFilled : w.cfg.cacheEmpty = true → w.cfg.fifo.empty = true

variable (g : Generics) {w : World t} (regs : CfgRegs)

theorem quiet_fsm : (step g w (quiet regs)).fsm = { idle w.fsm (fsmIn w (quiet regs)) with
    state := .ebHdr, masterCyc := false, tagStb := w.fsm.rxCyc, tagDat :=
      if w.fsm.rxCyc then .dropTx else w.fsm.tagDat } := by
  have low : (fsmIn w (quiet regs)).rxCyc = false := rfl
  exact CycleLine.clock_ended low

theorem quiet_rdy (counted : Counted w) (waiting : w.waiting = 0) : w.wbm.counters.rdy (quiet regs).answer = false := by
  show (false || false || false || w.wbm.counters.killAck) = false
  by_contra high
  have positive := counted.killAck (by simpa using high)
  omega

theorem quiet_push (counted : Counted w) (waiting : w.waiting = 0) : w.wbm.push (quiet regs).answer = none := by
  rw [WbmFifo.push, quiet_rdy regs counted waiting, if_neg Bool.false_ne_true]

theorem ended_step (rest : w.rest = []) (waiting : w.waiting = 0) (wbmStb : w.fsm.wbmStb = false) :
    Ended (step g w (quiet regs)) := by
  have fsm := quiet_fsm g (w := w) regs
  have count : (step g w (quiet regs)).waiting = w.waiting + w.fsm.wbmStb.toNat -
    (w.wbm.counters.rdy (quiet regs).answer).toNat := rfl
  refine ⟨rest, ?_, ?_, ?_, ?_, ?_⟩
  · rw [count, waiting, wbmStb]
    exact Nat.zero_sub _
  all_goals rw [fsm]
  all_goals rfl

theorem silent_step (ended : Ended w) : Silent (step g w (quiet regs)) := by
  refine ⟨ended_step g regs ended.rest ended.waiting ended.wbmStb, ?_⟩
  rw [quiet_fsm, tagPush, ended.rxCyc]
  rfl

theorem known_step (counted : Counted w) (silent : Silent w) : Known (step g w (quiet regs)) := by
  have tag : (step g w (quiet regs)).tag = Fifo.clock w.tag (tagPush w.fsm)
    (TxMux.tagPop w.mux (muxIn g w (quiet regs))) := rfl
  have pass : (step g w (quiet regs)).pass = Fifo.clock w.pass (passPush w.fsm)
    (TxMux.passPop w.mux (muxIn g w (quiet regs))) := rfl
  have cfg : (step g w (quiet regs)).cfg.fifo = Fifo.clock w.cfg.fifo (cfgPush w.fsm)
      (w.cfg.fifoPop (TxMux.cfgPop w.mux (muxIn g w (quiet regs)))) := rfl
  have data : (step g w (quiet regs)).wbm.data = Fifo.clock w.wbm.data (w.wbm.push (quiet regs).answer)
      (TxMux.wbmPop w.mux (muxIn g w (quiet regs))) := rfl
  rw [silent.tag] at tag
  rw [silent.pass] at pass
  rw [silent.cfg] at cfg
  rw [quiet_push regs counted silent.waiting] at data
  refine ⟨silent_step g regs silent.toEnded, ?_, ?_, ?_, ?_⟩
  · rw [tag]
    exact exact_clock _ _
  · rw [pass]
    exact exact_clock _ _
  · rw [cfg]
    exact exact_clock _ _
  · rw [data]
    exact exact_clock _ _

theorem ready_step (counted : Counted w) (known : Known w) : Ready (step g w (quiet regs)) := by
  have tag : (step g w (quiet regs)).tag = Fifo.clock w.tag (tagPush w.fsm)
    (TxMux.tagPop w.mux (muxIn g w (quiet regs))) := rfl
  have cfg : (step g w (quiet regs)).cfg = w.cfg.clock (cfgPush w.fsm)
    (TxMux.cfgPop w.mux (muxIn g w (quiet regs))) := rfl
  have mux : (step g w (quiet regs)).mux = TxMux.clock w.mux (muxIn g w (quiet regs)) := rfl
  refine ⟨known_step g regs counted known.toSilent, ?_, ?_⟩
  · intro free
    have shown : w.tag.empty = true := by
      rw [mux] at free
      simp only [TxMux.clock] at free
      split at free
      · simpa [muxIn] using free
      · rename_i kept
        simp [free] at kept
    have still : TxMux.tagPop w.mux (muxIn g w (quiet regs)) = false := by
      rw [TxMux.tagPop]
      show (!w.tag.empty && _) = false
      rw [shown]
      rfl
    rw [tag, known.tag, still]
    exact exact_still known.tagKnown shown
  · intro free
    have shown : w.cfg.fifo.empty = true := by
      rw [cfg] at free
      simp only [CfgFifo.clock] at free
      split at free
      · exact free
      · rename_i kept
        simp [free] at kept
    have still : w.cfg.fifoPop (TxMux.cfgPop w.mux (muxIn g w (quiet regs))) = false := by
      rw [CfgFifo.fifoPop, shown]
      rfl
    rw [cfg]
    show (Fifo.clock w.cfg.fifo (cfgPush w.fsm) _).empty = true
    rw [known.cfg, still]
    exact exact_still known.cfgKnown shown

theorem ready_served (lines : Lines w) (ready : Ready w) (some : w.pending ≠ []) :
    served w.mux (muxIn g w (quiet regs)) = true := by
  have can : canTx w.mux (muxIn g w (quiet regs)) = true := by
    rw [canTx]
    show (!(w.mux.txCyc && w.mux.txStb && false || w.mux.skip && false)) = true
    rw [Bool.and_false, Bool.and_false]
    rfl
  have valid : w.mux.tagValid = true := by
    by_contra low
    have low := Bool.eq_false_of_not_eq_true low
    obtain ⟨queue, rep, tags⟩ := lines.tags
    rw [(exact_empty rep ready.tagKnown).mp (ready.tagFilled low), ready.tag, muxTag, low] at tags
    exact some (by simpa [cells] using tags)
  obtain ⟨token, tokens, pending, tag⟩ := lines.front valid
  have shape : cells w = token.cell :: tokens.map Token.cell := by rw [cells, pending, List.map_cons]
  have sane := lines.sane token.cell (by rw [shape]; exact List.mem_cons_self)
  have pass : usesPass w.mux.tagValue = true → w.pass.empty = false := by
    intro uses
    obtain ⟨queue, rep, passes⟩ := lines.passes
    rw [← tag, ← sane.pass, Option.isSome_iff_exists] at uses
    obtain ⟨dat, held⟩ := uses
    rw [shape, ready.pass, List.filterMap_cons_some held] at passes
    rw [← Bool.not_eq_true, exact_empty rep ready.passKnown]
    intro none
    rw [none] at passes
    cases passes
  have cfg : isCfg w.mux.tagValue = true → w.cfg.cacheEmpty = false := by
    intro uses
    obtain ⟨queue, rep, cfgs⟩ := lines.cfgs
    rw [← tag, ← sane.cfg, Option.isSome_iff_exists] at uses
    obtain ⟨adr, held⟩ := uses
    rw [shape, ready.cfg, List.filterMap_cons_some held] at cfgs
    rw [← Bool.not_eq_true]
    intro none
    rw [(exact_empty rep ready.cfgKnown).mp (ready.cfgFilled none), cached, none] at cfgs
    cases cfgs
  have data : isWbm w.mux.tagValue = true → w.wbm.data.empty = false := by
    intro uses
    obtain ⟨queue, rep, known⟩ := lines.data
    rw [pending, List.filter_cons_of_pos (show isBus token = true by rw [isBus, tag]; exact uses),
      ready.waiting, ready.wbmStb] at known
    rw [← Bool.not_eq_true, exact_empty rep ready.dataKnown]
    intro none
    rw [none] at known
    cases known
  have free : tagMux w.mux (muxIn g w (quiet regs)) = false := by
    rw [TxMux.tagMux_eq]
    show (usesPass w.mux.tagValue && w.pass.empty || isCfg w.mux.tagValue && w.cfg.cacheEmpty ||
      isWbm w.mux.tagValue && w.wbm.data.empty) = false
    cases passes : usesPass w.mux.tagValue <;> cases cfgs : isCfg w.mux.tagValue <;> cases buses :
      isWbm w.mux.tagValue <;>
      simp_all
  rw [served, can, valid, free]
  rfl

theorem quiet_pending (ended : Ended w) (counted : Counted w) :
    (step g w (quiet regs)).pending = left w.pending (served w.mux (muxIn g w (quiet regs))) := by
  have pending : (step g w (quiet regs)).pending = left (answered w (quiet regs))
    (served w.mux (muxIn g w (quiet regs))) ++
      entering w (quiet regs) := rfl
  have none : entering w (quiet regs) = [] := by
    show (if w.fsm.rxCyc then _ else []) = []
    rw [ended.rxCyc, if_neg Bool.false_ne_true]
  rw [pending, none, List.append_nil, answered, quiet_push regs counted ended.waiting]

theorem ready_pending (lines : Lines w) (counted : Counted w) (ready : Ready w) :
    (step g w (quiet regs)).pending = w.pending.tail := by
  rw [quiet_pending g regs ready.toEnded counted]
  cases pending : w.pending with
  | nil => cases served w.mux (muxIn g w (quiet regs)) <;> rfl
  | cons token tokens =>
    rw [ready_served g regs lines ready (by rw [pending]; exact List.cons_ne_nil _ _)]
    rfl

theorem left_length (queue : List α) (pop : Bool) : (left queue pop).length ≤ queue.length := by
  cases pop with
  | false => exact le_rfl
  | true => exact (List.length_tail).trans_le (Nat.sub_le _ _)

theorem answered_length (e : Event) : (answered w e).length = w.pending.length := by
  have cells := congrArg List.length (answered_cells w e)
  simpa [Account.cells] using cells

theorem quiet_length : (step g w (quiet regs)).pending.length ≤ w.pending.length + 1 := by
  have pending : (step g w (quiet regs)).pending = left (answered w (quiet regs))
    (served w.mux (muxIn g w (quiet regs))) ++
      entering w (quiet regs) := rfl
  have one : (entering w (quiet regs)).length ≤ 1 := by
    show (if w.fsm.rxCyc then [(⟨dropCell, none⟩ : Token)] else []).length ≤ 1
    cases w.fsm.rxCyc with
    | false => exact Nat.zero_le 1
    | true => exact le_rfl
  have shorter := left_length (answered w (quiet regs)) (served w.mux (muxIn g w (quiet regs)))
  rw [answered_length] at shorter
  rw [pending, List.length_append]
  omega

theorem quiet_shorter (ended : Ended w) (counted : Counted w) :
    (step g w (quiet regs)).pending.length ≤ w.pending.length := by
  rw [quiet_pending g regs ended counted]
  exact left_length _ _

variable {answers : List (Word × Bool)} {before : List Event}

theorem ready_drains (sound : Sound g w answers before) (ready : Ready w) (clocks : List CfgRegs)
    (long : w.pending.length ≤ clocks.length) (meets : Along (step g) (Proper g) w (clocks.map quiet)) :
    Drained (run g w (clocks.map quiet)) := by
  induction clocks generalizing w answers before with
  | nil => exact ⟨ready.rest, ready.rxCyc, List.eq_nil_of_length_eq_zero (Nat.le_zero.mp long)⟩
  | cons regs clocks ih =>
    apply ih (sound.step g meets.1) (ready_step g regs sound.counted ready.toKnown) _ meets.2
    rw [ready_pending g regs sound.lines sound.counted ready, List.length_tail]
    rw [List.length_cons] at long
    omega

theorem drains (sound : Sound g w answers before) (complete : Complete w) (clocks : List CfgRegs)
    (long : w.pending.length + 5 ≤ clocks.length) (meets : Along (step g) (Proper g) w (clocks.map quiet)) :
    Drained (run g w (clocks.map quiet)) := by
  match clocks, long, meets with
  | first :: second :: third :: fourth :: clocks, long, meets =>
    have strobe : w.fsm.wbmStb = false := by
      have none := complete.waiting
      by_contra high
      rw [Bool.eq_true_of_not_eq_false high, Bool.toNat_true] at none
      omega
    have sound₁ := sound.step g meets.1
    have ended := ended_step g first complete.rest (Nat.eq_zero_of_add_eq_zero_right complete.waiting) strobe
    have sound₂ := sound₁.step g meets.2.1
    have silent := silent_step g second ended
    have sound₃ := sound₂.step g meets.2.2.1
    have known := known_step g third sound₂.counted silent
    have sound₄ := sound₃.step g meets.2.2.2.1
    have ready := ready_step g fourth sound₃.counted known
    have rest : w.pending.length + 1 ≤ clocks.length := by
      simp only [List.length_cons] at long
      omega
    have tokens := (quiet_shorter g fourth known.toEnded sound₃.counted).trans ((quiet_shorter g third silent.toEnded
      sound₂.counted).trans ((quiet_shorter g second ended sound₁.counted).trans (quiet_length g first)))
    simp only [List.map_cons, run, List.foldl_cons]
    exact ready_drains g sound₄ ready clocks (tokens.trans rest) meets.2.2.2.2

end BelProject.SlaveCore.Drain
