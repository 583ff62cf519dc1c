import BelProject.SlaveCore.Core

/-! The account of the words in flight agrees with the registers. The tokens inside the core
are spread over the state machine, the FIFOs and the transmitter; read from the transmitter
backwards, each FIFO holds its share of them in order. -/

namespace BelProject.SlaveCore.Account
open Headers Fsm Requests Fifo SlaveCore.Core
open CycleLine (Answer Inflight)
open TxMux (Mux canTx cfgPop cfgPop_eq datMux passPop passPop_eq served served_ready tagMux tagPop wbmPop wbmPop_eq)

structure Sane (c : Cell) : Prop where
  pass : c.pass.isSome = usesPass c.tag
  cfg : (cfgOf c).isSome = isCfg c.tag

theorem sane_plain (dat : Word) (drop : Bool) (final : Bool) : Sane ⟨.passOn, some dat, none, final, drop⟩ := ⟨rfl, rfl⟩

theorem sane_writeCells (hdr : RecHdr) (more : Bool) (adr : Word) (dats : List Word) :
    ∀ word ∈ writeCells hdr more adr dats, Sane word.2 := by
  induction dats generalizing adr with
  | nil => simp [writeCells]
  | cons dat dats ih =>
    intro word member
    rcases List.mem_cons.mp member with rfl | member
    · cases wca : hdr.wcaCfg
      · exact ⟨rfl, rfl⟩
      · exact ⟨rfl, rfl⟩
    · exact ih _ word member

theorem sane_readCells (hdr : RecHdr) (adrs : List Word) : ∀ word ∈ readCells hdr adrs, Sane word.2 := by
  induction adrs with
  | nil => simp [readCells]
  | cons adr adrs ih =>
    intro word member
    rcases List.mem_cons.mp member with rfl | member
    · cases rca : hdr.rcaCfg
      · exact ⟨rfl, rfl⟩
      · exact ⟨rfl, rfl⟩
    · exact ih word member

theorem sane_request (r : Request) : ∀ word ∈ r.cells, Sane word.2 := by
  intro word member
  rcases List.mem_cons.mp member with rfl | member
  · exact sane_plain _ _ _
  · rcases List.mem_append.mp member with write | read
    · unfold writePart at write
      split at write
      · simp at write
      · rcases List.mem_cons.mp write with rfl | write
        · exact sane_plain _ _ _
        · exact sane_writeCells _ _ _ _ word write
    · unfold readPart at read
      split at read
      · simp at read
      · rcases List.mem_cons.mp read with rfl | read
        · exact sane_plain _ _ _
        · exact sane_readCells _ _ word read

theorem sane_packet (p : Packet) : ∀ word ∈ p.cells, Sane word.2 := by
  intro word member
  rcases List.mem_cons.mp member with rfl | member
  · cases p.hdr.noResponse
    · exact ⟨rfl, rfl⟩
    · exact ⟨rfl, rfl⟩
  · rcases List.mem_append.mp member with probe | records
    · split at probe
      · obtain rfl := List.mem_singleton.mp probe
        exact sane_plain _ _ _
      · simp at probe
    · obtain ⟨r, _, inside⟩ := List.mem_flatMap.mp records
      exact sane_request r word inside

theorem sane_drop : Sane dropCell := ⟨rfl, rfl⟩

variable {t : Nat}

def cells (w : World t) : List Cell := w.pending.map Token.cell

/-- RX keeps to its protocol: a packet is offered whole, and its cycle starts with a packet. -/
structure Whole (w : World t) (e : Event) : Prop where
  complete : ∀ next, e.rx = .idle next → w.rest = []
  begun : (∀ next, e.rx ≠ .idle next) → w.rest ≠ [] ∨ w.fsm.rxCyc = true

/-- The state machine stands at its place in the packet, and waits for one after a reset or
the end of another. -/
structure Placed (w : World t) : Prop where
  aligned : w.rest ≠ [] → Aligned w.fsm w.rest
  sane : ∀ word ∈ w.rest, Sane word.2

/-- What a clock brings into the core: the end of a packet, nothing, or a word. -/
inductive Entered (w : World t) (e : Event) (f' : Registers) : Prop where
  | ended (enters : entering w e = if w.fsm.rxCyc then [⟨dropCell, none⟩] else [])
      (tag : tagPush f' = if w.fsm.rxCyc then some .dropTx else none) (pass : passPush f' = none)
      (cfg : cfgPush f' = none)
      (wbm : f'.wbmStb = false) (state : f'.state = .ebHdr) (rxCyc : f'.rxCyc = false)
  | waited (empty : entering w e = []) (tag : tagPush f' = none) (pass : passPush f' = none) (cfg : cfgPush f' = none)
      (wbm : f'.wbmStb = false) (state : f'.state = w.fsm.state) (rxCyc : f'.rxCyc = true)
  | took (c : Cell) (one : entering w e = [⟨c, none⟩]) (sane : Sane c) (tag : tagPush f' = some c.tag)
      (pass : passPush f' = c.pass)
      (cfg : cfgPush f' = cfgOf c) (wbm : f'.wbmStb = isWbm c.tag) (state : f'.state ≠ .ebHdr)
      (skip : c.tag = .skipTx → w.fsm.state = .ebHdr) (rxCyc : f'.rxCyc = true)

theorem word_state (f : Registers) (i : Inputs) (dat : Word) : (word f (idle f i) dat).state ≠ .ebHdr := by
  unfold word
  cases state : f.state with
  | ebHdr =>
    simp only [ebHdrWord]
    split_ifs <;> exact fun same => by cases same
  | cycHdr =>
    simp only [cycHdrWord]
    split_ifs <;> exact fun same => by cases same
  | write =>
    simp only [writeWord]
    split_ifs <;> exact fun same => by cases same
  | read =>
    simp only [readWord]
    split_ifs <;> exact fun same => by cases same
  | drop =>
    have kept : ((idle f i).pass .passOn 0).state = .drop := state
    exact fun same => by rw [kept] at same; cases same
  | _ => exact fun same => by cases same

theorem word_skip {f d : Registers} {dat : Word} (skip : (word f d dat).tagDat = .skipTx) : f.state = .ebHdr := by
  unfold word at skip
  cases state : f.state with
  | ebHdr => rfl
  | cycHdr =>
    rw [state] at skip
    simp only [cycHdrWord] at skip
    split_ifs at skip <;> cases skip
  | write =>
    rw [state] at skip
    simp only [writeWord] at skip
    split_ifs at skip
  | read =>
    rw [state] at skip
    simp only [readWord] at skip
    split_ifs at skip
  | _ =>
    rw [state] at skip
    cases skip

variable {e : Event} {w : World t}

theorem entered_of_effect {c : Cell} {f' : Registers} (one : entering w e = [⟨c, none⟩]) (sane : Sane c)
    (effect : Effect w.fsm (fsmIn w e) c f') (state : f'.state ≠ .ebHdr) (skip : c.tag = .skipTx → w.fsm.state = .ebHdr)
    (high : (fsmIn w e).rxCyc = true) : Entered w e f' := by
  refine .took c one sane ?_ ?_ ?_ effect.wbmStb state skip (effect.rxCyc.trans high)
  · rw [tagPush, effect.tagStb, if_pos rfl, effect.tagDat]
  · have pass := effect.pass
    cases held : c.pass with
    | none =>
      rw [held] at pass
      rw [passPush, if_neg]
      exact Bool.eq_false_iff.mp pass
    | some dat =>
      rw [held] at pass
      rw [passPush, if_pos pass.1, pass.2]
  · have strobe := effect.cfgStb
    have known := sane.cfg
    rw [cfgPush, strobe, cfgOf]
    cases cfg : isCfg c.tag with
    | false => rfl
    | true =>
      rw [cfgOf, cfg, if_pos rfl, Option.isSome_map] at known
      obtain ⟨access, same⟩ := Option.isSome_iff_exists.mp known
      have drives := effect.access access same
      rw [if_pos rfl, if_pos rfl, same, Option.map_some]
      cases access with
      | write adr dat => rw [drives.2.1, Access.adr]
      | read adr => rw [drives.2, Access.adr]

variable (g : Generics)

theorem step_entered (placed : Placed w) (whole : Whole w e) : Entered w e (step g w e).fsm ∧ Placed (step g w e) := by
  by_cases between : ∃ next, e.rx = .idle next
  · obtain ⟨next, rx⟩ := between
    have low : (fsmIn w e).rxCyc = false := by rw [fsmIn, rx]
    have fsm : (step g w e).fsm = _ := CycleLine.clock_ended low
    constructor
    · rw [fsm]
      have enters : entering w e = if w.fsm.rxCyc then [⟨dropCell, none⟩] else [] := by rw [entering, rx]
      refine .ended enters ?_ rfl rfl rfl rfl low
      cases w.fsm.rxCyc <;> rfl
    · cases next with
      | none =>
        have rest : (step g w e).rest = [] := by
          rw [step, rx]
          exact whole.complete _ rx
        exact ⟨fun some => absurd rest some, by rw [rest]; simp⟩
      | some p =>
        have rest : (step g w e).rest = p.cells := by rw [step, rx]
        refine ⟨fun _ => ?_, by rw [rest]; exact sane_packet p⟩
        rw [rest]
        exact CycleLine.aligned_packet p (by rw [fsm])
  have high : (fsmIn w e).rxCyc = true := by
    cases rx : e.rx with
    | idle next => exact absurd ⟨next, rx⟩ between
    | gap => rw [fsmIn, rx]
    | offer => rw [fsmIn, rx]
  have rest : (step g w e).rest = if takes w.fsm (fsmIn w e) then w.rest.tail else w.rest := by
    cases rx : e.rx with
    | idle next => exact absurd ⟨next, rx⟩ between
    | gap => rw [step, rx]
    | offer => rw [step, rx]
  have enters : entering w e = if takes w.fsm (fsmIn w e) then (w.rest.head?.map fun word =>
    (⟨word.2, none⟩ : Token)).toList
      else [] := by
    cases rx : e.rx with
    | idle next => exact absurd ⟨next, rx⟩ between
    | gap => rw [entering, rx]
    | offer => rw [entering, rx]
  cases moves : takes w.fsm (fsmIn w e) with
  | false =>
    have fsm : (step g w e).fsm = idle w.fsm (fsmIn w e) := CycleLine.clock_waited high moves
    rw [moves] at rest enters
    refine ⟨?_, ?_, ?_⟩
    · rw [fsm]
      exact .waited enters rfl rfl rfl rfl rfl high
    · intro some
      rw [rest] at some ⊢
      rw [fsm]
      exact placed.aligned some
    · rw [rest]
      exact placed.sane
  | true =>
    cases words : w.rest with
    | nil =>
      have silent : (fsmIn w e).rxStb = false := by
        rw [fsmIn, words]
        cases e.rx <;> rfl
      rw [takes, silent, Bool.and_false, Bool.false_and] at moves
      cases moves
    | cons first tail =>
      obtain ⟨dat, c⟩ := first
      have aligned := placed.aligned (by rw [words]; exact List.cons_ne_nil _ _)
      have sane := placed.sane
      rw [words] at aligned sane
      have dat_eq : (fsmIn w e).rxDat = dat := by rw [fsmIn, words]; rfl
      obtain ⟨effect, next⟩ := word_step (i := fsmIn w e) aligned
      have fsm : (step g w e).fsm = word w.fsm (idle w.fsm (fsmIn w e)) dat := by
        rw [← dat_eq]
        exact CycleLine.clock_took moves
      rw [moves, words] at rest enters
      refine ⟨?_, ?_, ?_⟩
      · rw [fsm]
        exact entered_of_effect enters (sane _ List.mem_cons_self) effect (word_state _ _ _)
          (fun skip => word_skip (effect.tagDat.trans skip)) high
      · intro _
        rw [fsm, rest]
        exact next
      · rw [rest]
        exact fun word member => sane word (List.mem_cons_of_mem _ member)

/-- Nothing overflows, and every answer meets an access that waits for it. -/
structure Fits (g : Generics) (w : World t) (e : Event) : Prop where
  tag : Room w.tag (tagPush w.fsm).isSome (tagPop w.mux (muxIn g w e))
  pass : Room w.pass (passPush w.fsm).isSome (passPop w.mux (muxIn g w e))
  cfg : Room w.cfg.fifo (cfgPush w.fsm).isSome (w.cfg.fifoPop (cfgPop w.mux (muxIn g w e)))
  data : Room w.wbm.data (w.wbm.push e.answer).isSome (wbmPop w.mux (muxIn g w e))
  waited : w.wbm.counters.rdy e.answer = true → 0 < w.waiting + w.fsm.wbmStb.toNat

def muxTag (m : Mux) : List Tag := if m.tagValid then [m.tagValue] else []

theorem muxTag_clock (m : Mux) (i : TxMux.Inputs) : muxTag (TxMux.clock m i) = if served m i || !m.tagValid then
    (if i.tagEmpty then [] else [i.tagDat]) else if m.tagValid then [m.tagValue] else [] := by
  unfold muxTag TxMux.clock
  cases served m i || !m.tagValid with
  | false => rfl
  | true =>
    show (if (!i.tagEmpty) = true then [i.tagDat] else []) = if i.tagEmpty = true then [] else [i.tagDat]
    cases i.tagEmpty <;> rfl

def cached (c : CfgFifo) : List (BitVec 3) := if !c.cacheEmpty then [c.cacheAdr] else []

def isBus (token : Token) : Bool := isWbm token.cell.tag

structure Lines (w : World t) : Prop where
  tags : ∃ queue, Represents w.tag queue ∧ (cells w).map Cell.tag = muxTag w.mux ++ (queue ++ (tagPush w.fsm).toList)
  passes : ∃ queue, Represents w.pass queue ∧ (cells w).filterMap Cell.pass = queue ++ (passPush w.fsm).toList
  cfgs : ∃ queue, Represents w.cfg.fifo queue ∧ (cells w).filterMap cfgOf =
    cached w.cfg ++ (queue ++ (cfgPush w.fsm).toList)
  data : ∃ queue, Represents w.wbm.data queue ∧ (w.pending.filter isBus).map Token.result =
    queue.map some ++ List.replicate (w.waiting + w.fsm.wbmStb.toNat) none
  sane : ∀ c ∈ cells w, Sane c

theorem fillFirst_cells (answer : Word × Bool) (tokens : List Token) :
    (fillFirst answer tokens).map Token.cell = tokens.map Token.cell := by
  induction tokens with
  | nil => rfl
  | cons token tokens ih =>
    rw [fillFirst]
    split
    · rfl
    · rw [List.map_cons, List.map_cons, ih]

theorem answered_cells (w : World t) (e : Event) : (answered w e).map Token.cell = cells w := by
  unfold answered
  cases w.wbm.push e.answer with
  | none => rfl
  | some answer => exact fillFirst_cells answer w.pending

theorem left_map {α β : Type} (f : α → β) (queue : List α) (pop : Bool) :
    (left queue pop).map f = left (queue.map f) pop := by
  cases pop with
  | false => rfl
  | true => exact List.map_tail

theorem cells_step (w : World t) (e : Event) :
    cells (step g w e) = left (cells w) (served w.mux (muxIn g w e)) ++ (entering w e).map Token.cell := by
  have pending : (step g w e).pending = left (answered w e) (served w.mux (muxIn g w e)) ++ entering w e := rfl
  rw [cells, pending, List.map_append, left_map, answered_cells]

theorem Lines.front (lines : Lines w) (valid : w.mux.tagValid = true) :
    ∃ token tokens, w.pending = token :: tokens ∧ token.cell.tag = w.mux.tagValue := by
  obtain ⟨queue, _, tags⟩ := lines.tags
  rw [muxTag, if_pos valid, cells, List.map_map] at tags
  cases pending : w.pending with
  | nil =>
    rw [pending] at tags
    simp at tags
  | cons token tokens =>
    rw [pending] at tags
    exact ⟨token, tokens, rfl, (List.cons.inj tags).1⟩

theorem filterMap_one {α β : Type} (f : α → Option β) (a : α) : [a].filterMap f = (f a).toList := by
  cases found : f a with
  | none => rw [List.filterMap_cons_none found]; rfl
  | some b => rw [List.filterMap_cons_some found]; rfl

theorem entered_tags {f' : Registers} (entered : Entered w e f') :
    ((entering w e).map Token.cell).map Cell.tag = (tagPush f').toList ∧
      ((entering w e).map Token.cell).filterMap Cell.pass = (passPush f').toList ∧
      ((entering w e).map Token.cell).filterMap cfgOf = (cfgPush f').toList ∧
      ((entering w e).filter isBus).map Token.result = List.replicate f'.wbmStb.toNat none ∧
      ∀ c ∈ (entering w e).map Token.cell, Sane c := by
  cases entered with
  | ended enters tag pass cfg wbm =>
    rw [enters, tag, pass, cfg, wbm]
    cases w.fsm.rxCyc with
    | false => exact ⟨rfl, rfl, rfl, rfl, by simp⟩
    | true => exact ⟨rfl, rfl, rfl, rfl, by simpa using sane_drop⟩
  | waited empty tag pass cfg wbm =>
    rw [empty, tag, pass, cfg, wbm]
    exact ⟨rfl, rfl, rfl, rfl, by simp⟩
  | took c one sane tag pass cfg wbm =>
    rw [one, tag, pass, cfg, wbm]
    refine ⟨rfl, ?_, ?_, ?_, ?_⟩
    · exact filterMap_one Cell.pass c
    · exact filterMap_one cfgOf c
    · cases bus : isWbm c.tag with
      | true => simp [isBus, bus]
      | false => simp [isBus, bus]
    · simpa using sane

theorem step_tags (lines : Lines w) (fits : Fits g w e) (entered : Entered w e (step g w e).fsm) :
    ∃ queue, Represents (step g w e).tag queue ∧
      (cells (step g w e)).map Cell.tag = muxTag (step g w e).mux ++ (queue ++ (tagPush (step g w e).fsm).toList) := by
  obtain ⟨queue, rep, tags⟩ := lines.tags
  have some : tagPop w.mux (muxIn g w e) = true → queue ≠ [] := by
    intro pops
    rw [tagPop, Bool.and_eq_true, Bool.not_eq_true'] at pops
    rw [rep.shown pops.1]
    exact List.cons_ne_nil _ _
  refine ⟨_, rep.clock some fits.tag, ?_⟩
  have held : served w.mux (muxIn g w e) = true → w.mux.tagValid = true := fun done => (served_ready done).2.1
  have stage := rep.stage w.mux.tagValid (served w.mux (muxIn g w e)) w.mux.tagValue (tagPush w.fsm).toList held
  have register : muxTag (step g w e).mux = if served w.mux (muxIn g w e) || !w.mux.tagValid then
      (if w.tag.empty then [] else [w.tag.rDat]) else if w.mux.tagValid then [w.mux.tagValue] else [] :=
        muxTag_clock _ _
  rw [cells_step, List.map_append, left_map, tags, (entered_tags entered).1, register]
  rw [muxTag, stage, List.append_assoc]
  rfl

theorem left_share {α : Type} (share : Cell → Option α) (uses : Tag → Bool)
    (has : ∀ c ∈ cells w, (share c).isSome = uses c.tag) (lines : Lines w) (done : Bool)
    (valid : done = true → w.mux.tagValid = true) :
    (left (cells w) done).filterMap share = left ((cells w).filterMap share) (done && uses w.mux.tagValue) := by
  cases done with
  | false => rfl
  | true =>
    obtain ⟨token, tokens, pending, tag⟩ := lines.front (valid rfl)
    have shape : cells w = token.cell :: tokens.map Token.cell := by rw [cells, pending, List.map_cons]
    have known := has token.cell (by rw [shape]; exact List.mem_cons_self)
    rw [tag] at known
    rw [shape, left, if_pos rfl, List.tail_cons, Bool.true_and]
    cases held : share token.cell with
    | none =>
      rw [held] at known
      rw [← known, List.filterMap_cons_none held]
      rfl
    | some value =>
      rw [held] at known
      rw [← known, List.filterMap_cons_some held]
      rfl

theorem left_append {α : Type} {queue : List α} (behind : List α) {pop : Bool} (some : pop = true → queue ≠ []) :
    left (queue ++ behind) pop = left queue pop ++ behind := by
  cases pop with
  | false => rfl
  | true =>
    cases queue with
    | nil => exact absurd rfl (some rfl)
    | cons value queue => rfl

theorem step_passes (lines : Lines w) (fits : Fits g w e) (entered : Entered w e (step g w e).fsm) :
    ∃ queue, Represents (step g w e).pass queue ∧
      (cells (step g w e)).filterMap Cell.pass = queue ++ (passPush (step g w e).fsm).toList := by
  obtain ⟨queue, rep, passes⟩ := lines.passes
  have some : passPop w.mux (muxIn g w e) = true → queue ≠ [] := by
    intro pops
    rw [passPop_eq, Bool.and_eq_true] at pops
    rw [rep.shown ((served_ready pops.1).2.2.1 pops.2)]
    exact List.cons_ne_nil _ _
  have taken := left_share Cell.pass usesPass (fun c member => (lines.sane c member).pass) lines
    (served w.mux (muxIn g w e)) (fun done => (served_ready done).2.1)
  refine ⟨_, rep.clock some fits.pass, ?_⟩
  rw [cells_step, List.filterMap_append, taken, (entered_tags entered).2.1, passes, ← passPop_eq, left_append _ some]

theorem step_cfgs (lines : Lines w) (fits : Fits g w e) (entered : Entered w e (step g w e).fsm) :
    ∃ queue, Represents (step g w e).cfg.fifo queue ∧ (cells (step g w e)).filterMap cfgOf =
      cached (step g w e).cfg ++ (queue ++ (cfgPush (step g w e).fsm).toList) := by
  obtain ⟨queue, rep, cfgs⟩ := lines.cfgs
  have held : cfgPop w.mux (muxIn g w e) = true → (!w.cfg.cacheEmpty) = true := by
    intro pops
    rw [cfgPop_eq, Bool.and_eq_true] at pops
    rw [Bool.not_eq_true']
    exact (served_ready pops.1).2.2.2.1 pops.2
  have some : w.cfg.fifoPop (cfgPop w.mux (muxIn g w e)) = true → queue ≠ [] := by
    intro pops
    rw [CfgFifo.fifoPop, Bool.and_eq_true, Bool.not_eq_true'] at pops
    rw [rep.shown pops.1]
    exact List.cons_ne_nil _ _
  have taken := left_share cfgOf isCfg (fun c member => (lines.sane c member).cfg) lines
    (served w.mux (muxIn g w e)) (fun done => (served_ready done).2.1)
  have stage := rep.stage (!w.cfg.cacheEmpty) (cfgPop w.mux (muxIn g w e)) w.cfg.cacheAdr (cfgPush w.fsm).toList held
  have free : (cfgPop w.mux (muxIn g w e) || !(!w.cfg.cacheEmpty)) =
      (w.cfg.cacheEmpty || cfgPop w.mux (muxIn g w e)) := by
    rw [Bool.not_not, Bool.or_comm]
  have register : cached (step g w e).cfg = if w.cfg.cacheEmpty || cfgPop w.mux (muxIn g w e) then
      (if w.cfg.fifo.empty then [] else [w.cfg.fifo.rDat]) else if !w.cfg.cacheEmpty then [w.cfg.cacheAdr] else [] := by
    show cached (w.cfg.clock _ (cfgPop w.mux (muxIn g w e))) = _
    unfold cached CfgFifo.clock
    cases w.cfg.cacheEmpty || cfgPop w.mux (muxIn g w e) with
    | false => rfl
    | true => cases w.cfg.fifo.empty <;> rfl
  refine ⟨_, rep.clock some fits.cfg, ?_⟩
  rw [free] at stage
  rw [cells_step, List.filterMap_append, taken, (entered_tags entered).2.2.1, cfgs, ← cfgPop_eq, register]
  rw [cached, stage, List.append_assoc]
  rfl

def results (tokens : List Token) : List (Option (Word × Bool)) := (tokens.filter isBus).map Token.result

theorem results_fillFirst (answer : Word × Bool) {tokens : List Token} {queue : List (Word × Bool)} {missing : Nat}
    (known : results tokens = queue.map some ++ List.replicate (missing + 1) none) :
    results (fillFirst answer tokens) = (queue ++ [answer]).map some ++ List.replicate missing none := by
  induction tokens generalizing queue with
  | nil =>
    have short : (results []).length = queue.length + (missing + 1) := by
      rw [known, List.length_append, List.length_map, List.length_replicate]
    exact absurd short (Nat.succ_ne_zero _).symm
  | cons token tokens ih =>
    rw [fillFirst]
    cases bus : isBus token with
    | false =>
      have other : isWbm token.cell.tag = false := bus
      have skips : ∀ rest : List Token, results (token :: rest) = results rest := by
        intro rest
        rw [results, List.filter_cons_of_neg (by rw [bus]; exact Bool.false_ne_true)]
        rfl
      rw [other, Bool.false_and, if_neg Bool.false_ne_true, skips]
      rw [skips] at known
      exact ih known
    | true =>
      have this : isWbm token.cell.tag = true := bus
      have keeps : ∀ rest : List Token, results (token :: rest) = token.result :: results rest := by
        intro rest
        rw [results, List.filter_cons_of_pos bus]
        rfl
      rw [keeps] at known
      rw [this, Bool.true_and]
      cases queue with
      | nil =>
        obtain ⟨first, rest⟩ : token.result = none ∧ results tokens = List.replicate missing none := by
          simpa [List.replicate_succ] using known
        rw [first, Option.isNone_none, if_pos rfl, results,
          List.filter_cons_of_pos (show isBus { token with result := some answer } = true from bus)]
        exact congrArg (some answer :: ·) rest
      | cons value queue =>
        obtain ⟨first, rest⟩ : token.result = some value ∧
          results tokens = queue.map some ++ List.replicate (missing + 1) none := by
          simpa using known
        rw [first, Option.isNone_some, if_neg Bool.false_ne_true, keeps, ih rest, first]
        rfl

theorem results_answered {queue : List (Word × Bool)}
    (known : results w.pending = queue.map some ++ List.replicate (w.waiting + w.fsm.wbmStb.toNat) none)
    (waited : w.wbm.counters.rdy e.answer = true → 0 < w.waiting + w.fsm.wbmStb.toNat) :
    results (answered w e) = (queue ++ (w.wbm.push e.answer).toList).map some ++
      List.replicate (w.waiting + w.fsm.wbmStb.toNat - (w.wbm.counters.rdy e.answer).toNat) none := by
  unfold answered WbmFifo.push
  cases rdy : w.wbm.counters.rdy e.answer with
  | false =>
    rw [if_neg Bool.false_ne_true, Option.toList_none, List.append_nil]
    exact known
  | true =>
    obtain ⟨missing, count⟩ := Nat.exists_eq_succ_of_ne_zero (waited rdy).ne'
    rw [count] at known
    rw [if_pos rfl, count, Option.toList_some]
    exact results_fillFirst _ known

theorem results_left (lines : Lines w) :
    results (left (answered w e) (served w.mux (muxIn g w e))) =
      left (results (answered w e)) (wbmPop w.mux (muxIn g w e)) := by
  rw [wbmPop_eq]
  cases done : served w.mux (muxIn g w e) with
  | false => rfl
  | true =>
    obtain ⟨token, tokens, pending, tag⟩ := lines.front (served_ready done).2.1
    have cells_eq := answered_cells w e
    rw [cells, pending] at cells_eq
    cases shape : answered w e with
    | nil =>
      rw [shape] at cells_eq
      simp at cells_eq
    | cons first rest =>
      rw [shape] at cells_eq
      have same : first.cell = token.cell := (List.cons.inj cells_eq).1
      have bus : isBus first = isWbm w.mux.tagValue := by rw [isBus, same, tag]
      rw [left, if_pos rfl, List.tail_cons, Bool.true_and, ← bus]
      cases known : isBus first with
      | true =>
        rw [left, if_pos rfl, results, results, List.filter_cons_of_pos known, List.map_cons, List.tail_cons]
      | false =>
        rw [left, if_neg Bool.false_ne_true, results, results,
          List.filter_cons_of_neg (by rw [known]; exact Bool.false_ne_true)]

theorem step_data (lines : Lines w) (fits : Fits g w e) (entered : Entered w e (step g w e).fsm) :
    ∃ queue, Represents (step g w e).wbm.data queue ∧ results (step g w e).pending =
      queue.map some ++ List.replicate ((step g w e).waiting + (step g w e).fsm.wbmStb.toNat) none := by
  obtain ⟨queue, rep, known⟩ := lines.data
  have some' : wbmPop w.mux (muxIn g w e) = true → queue ≠ [] := by
    intro pops
    rw [wbmPop_eq, Bool.and_eq_true] at pops
    rw [rep.shown ((served_ready pops.1).2.2.2.2 pops.2)]
    exact List.cons_ne_nil _ _
  have pending : (step g w e).pending = left (answered w e) (served w.mux (muxIn g w e)) ++ entering w e := rfl
  have waiting : (step g w e).waiting = w.waiting + w.fsm.wbmStb.toNat - (w.wbm.counters.rdy e.answer).toNat := rfl
  have new : results (entering w e) = List.replicate (step g w e).fsm.wbmStb.toNat none :=
    (entered_tags entered).2.2.2.1
  have split : ∀ first second : List Token, results (first ++ second) = results first ++ results second := by
    intro first second
    rw [results, List.filter_append, List.map_append]
    rfl
  have moved : left (queue.map some ++ ((w.wbm.push e.answer).toList.map some ++ List.replicate
    (step g w e).waiting none))
      (wbmPop w.mux (muxIn g w e)) = (left queue (wbmPop w.mux (muxIn g w e))).map some ++
        ((w.wbm.push e.answer).toList.map some ++ List.replicate (step g w e).waiting none) := by
    rw [left_append, left_map]
    intro pops
    exact fun empty => some' pops (List.map_eq_nil_iff.mp empty)
  refine ⟨_, rep.clock some' fits.data, ?_⟩
  rw [pending, split, results_left g lines, results_answered known fits.waited, new, ← waiting, List.map_append,
    List.append_assoc, moved, List.map_append, List.replicate_add]
  simp only [List.append_assoc]

theorem Lines.step (lines : Lines w) (fits : Fits g w e)
    (entered : Entered w e (step g w e).fsm) : Lines (step g w e) := by
  refine ⟨step_tags g lines fits entered, step_passes g lines fits entered, step_cfgs g lines fits entered,
    step_data g lines fits entered, ?_⟩
  intro c member
  rw [cells_step] at member
  rcases List.mem_append.mp member with old | new
  · apply lines.sane c
    cases done : served w.mux (muxIn g w e) with
    | false => rwa [done] at old
    | true =>
      rw [done] at old
      exact List.mem_of_mem_tail old
  · exact (entered_tags entered).2.2.2.2 c new

end BelProject.SlaveCore.Account
