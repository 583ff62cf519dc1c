import BelProject.SlaveCore.Account

/-! What the transmitter puts out. The log of the tokens that left determines the frames on
TX: the first word of an answered packet opens a frame, the tag at the end of the packet
closes it, and every token between them is one word. -/

namespace BelProject.SlaveCore.Frames
open Headers Fsm Requests Fifo SlaveCore.Core Account
open CycleLine (Answer Inflight)
open TxMux (Mux canTx datMux served served_ready tagMux txCycNext)

def cycTag (cyc : Bool) : Tag → Bool
  | .dropTx => false
  | .passTx => true
  | _ => cyc

def outTag (cyc : Bool) (tag : Tag) (dat : Word) : List Out :=
  match tag with
  | .dropTx => if cyc then [.close] else []
  | .skipTx => []
  | .passTx => [.word dat]
  | _ => if cyc then [.word dat] else []

def renderStep (s : List Out × Bool) (entry : Token × Word) : List Out × Bool :=
  (s.1 ++ outTag s.2 entry.1.cell.tag entry.2, cycTag s.2 entry.1.cell.tag)

/-- Everything a log puts on TX, and whether a frame is still open. -/
def render (log : List (Token × Word)) : List Out × Bool := log.foldl renderStep ([], false)

theorem render_append (log entries : List (Token × Word)) :
    render (log ++ entries) = entries.foldl renderStep (render log) :=
  List.foldl_append

/-- A packet is skipped only between two frames. -/
def Legal : Bool → List Tag → Prop
  | _, [] => True
  | cyc, tag :: tags => (tag = .skipTx → cyc = false) ∧ Legal (cycTag cyc tag) tags

theorem legal_append {cyc : Bool} {tags : List Tag} {tag : Tag} (legal : Legal cyc tags)
    (skip : tag = .skipTx → tags.foldl cycTag cyc = false) : Legal cyc (tags ++ [tag]) := by
  induction tags generalizing cyc with
  | nil => exact ⟨skip, trivial⟩
  | cons first tags ih => exact ⟨legal.1, ih legal.2 skip⟩

variable {t : Nat}

/-- What the FIFOs show for the token in the register of the transmitter. -/
structure Shown (w : World t) (token : Token) : Prop where
  pass : w.pass.empty = false → usesPass token.cell.tag = true → token.cell.pass = some w.pass.rDat
  cfg : w.cfg.cacheEmpty = false → isCfg token.cell.tag = true → cfgOf token.cell = some w.cfg.cacheAdr
  data : w.wbm.data.empty = false → isWbm token.cell.tag = true → token.result = some w.wbm.data.rDat

theorem head_share {α : Type} {share : Cell → Option α} {c : Cell} {cells : List Cell} {queue : List α} {value : α}
    (known : (c :: cells).filterMap share = value :: queue) (some : (share c).isSome = true) :
    share c = Option.some value := by
  obtain ⟨held, same⟩ := Option.isSome_iff_exists.mp some
  rw [List.filterMap_cons_some same] at known
  rw [same, (List.cons.inj known).1]

variable {w : World t} {e : Event}

variable {tokens : List Token}

theorem shown_of_lines (lines : Lines w) {token : Token} (pending : w.pending = token :: tokens) :
    Shown w token := by
  have shape : cells w = token.cell :: tokens.map Token.cell := by rw [cells, pending, List.map_cons]
  have sane := lines.sane token.cell (by rw [shape]; exact List.mem_cons_self)
  refine ⟨?_, ?_, ?_⟩
  · intro shown uses
    obtain ⟨queue, rep, passes⟩ := lines.passes
    rw [shape, rep.shown shown] at passes
    exact head_share passes (sane.pass.trans uses)
  · intro shown uses
    obtain ⟨queue, _, cfgs⟩ := lines.cfgs
    rw [shape, cached, shown] at cfgs
    exact head_share cfgs (sane.cfg.trans uses)
  · intro shown uses
    obtain ⟨queue, rep, known⟩ := lines.data
    rw [pending, List.filter_cons_of_pos (show isBus token = true from uses), rep.shown shown] at known
    exact (List.cons.inj known).1

theorem datMux_word (g : Generics) (lines : Lines w) {token : Token}
    (pending : w.pending = token :: tokens) (tag : token.cell.tag = w.mux.tagValue)
    (done : served w.mux (muxIn g w e) = true)
    (errreg : w.wbm.errreg = errors (w.log.map Prod.fst)) (drop : w.mux.tagValue ≠ .dropTx)
    (skip : w.mux.tagValue ≠ .skipTx) :
    datMux w.mux (muxIn g w e) = token.word (errors (w.log.map Prod.fst)) g.sdbAddress e.regs := by
  have shown := shown_of_lines lines pending
  obtain ⟨_, _, pass, cfg, wbm⟩ := served_ready done
  have fromPass : usesPass w.mux.tagValue = true → token.cell.pass.getD 0 = w.pass.rDat := by
    intro uses
    rw [shown.pass (pass uses) (by rw [tag]; exact uses), Option.getD_some]
  unfold datMux Token.word
  rw [tag]
  cases value : w.mux.tagValue with
  | dropTx => exact absurd value drop
  | skipTx => exact absurd value skip
  | cfgReq =>
    have uses : isCfg w.mux.tagValue = true := by rw [value]; rfl
    show cfgValue w.wbm.errreg g.sdbAddress e.regs w.cfg.cacheAdr = _
    rw [shown.cfg (cfg uses) (by rw [tag]; exact uses), Option.getD_some, errreg]
  | wbmReq =>
    have uses : isWbm w.mux.tagValue = true := by rw [value]; rfl
    show w.wbm.data.rDat.1 = _
    rw [shown.data (wbm uses) (by rw [tag]; exact uses), Option.map_some, Option.getD_some]
  | passTx => exact (fromPass (by rw [value]; rfl)).symm
  | passOn => exact (fromPass (by rw [value]; rfl)).symm
  | cfgIgn => exact (fromPass (by rw [value]; rfl)).symm
  | wbmIgn => exact (fromPass (by rw [value]; rfl)).symm

/-- The transmitter is held up, has nothing to load, or loads the word of its tag. -/
inductive Turn (m : Mux) (i : TxMux.Inputs) (m' : Mux) : Prop where
  | held (can : canTx m i = false) (done : served m i = false) (skip : m'.skip = m.skip) (cyc : m'.txCyc = m.txCyc)
      (stb : m'.txStb = m.txStb) (dat : m'.txDat = m.txDat)
  | empty (can : canTx m i = true) (done : served m i = false) (skip : m'.skip = false) (stb : m'.txStb = false)
      (cyc : m'.txCyc = (m.txCyc || (m.tagValid && m.tagValue == .passTx)))
  | loaded (can : canTx m i = true) (done : served m i = true) (skip : m'.skip = (m.tagValue == .skipTx))
      (stb : m'.txStb = true) (dat : m'.txDat = datMux m i) (cyc : m'.txCyc = cycTag m.txCyc m.tagValue)

theorem turn (m : Mux) (i : TxMux.Inputs) : Turn m i (TxMux.clock m i) := by
  cases can : canTx m i with
  | false =>
    have done : served m i = false := by rw [served, can]; rfl
    apply Turn.held can done <;> rw [TxMux.clock, can] <;> rfl
  | true =>
    cases valid : m.tagValid with
    | false =>
      have done : served m i = false := by rw [served, can, valid]; rfl
      apply Turn.empty can done
      · rw [TxMux.clock, can, valid]; rfl
      · rw [TxMux.clock, can, valid, Bool.and_false]; rfl
      · simp only [TxMux.clock, txCycNext, can, valid, if_true, Bool.false_eq_true, if_false,
          Bool.false_and, Bool.or_false]
    | true =>
      cases blocked : tagMux m i with
      | true =>
        have done : served m i = false := by rw [served, can, valid, blocked]; rfl
        have tag : m.tagValue ≠ .dropTx ∧ m.tagValue ≠ .skipTx := by
          constructor <;> intro same <;> rw [tagMux, same] at blocked <;> cases blocked
        apply Turn.empty can done
        · simp only [TxMux.clock, can, if_true, valid, Bool.true_and, beq_eq_false_iff_ne]
          exact tag.2
        · simp only [TxMux.clock, can, blocked, if_true, Bool.not_true, Bool.false_and]
        · simp only [TxMux.clock, txCycNext, can, valid, if_true, Bool.true_and]
          cases value : m.tagValue with
          | dropTx => exact absurd value tag.1
          | passTx => exact (Bool.or_true _).symm
          | _ => exact (Bool.or_false _).symm
      | false =>
        have done : served m i = true := by rw [served, can, valid, blocked]; rfl
        apply Turn.loaded can done
        · simp only [TxMux.clock, can, if_true, valid, Bool.true_and]
        · simp only [TxMux.clock, can, if_true, valid, blocked, Bool.not_false, Bool.and_true]
        · simp only [TxMux.clock, can, if_true]
        · simp only [TxMux.clock, txCycNext, can, valid, if_true]
          cases m.tagValue <;> rfl

theorem tag_kept {m : Mux} {i : TxMux.Inputs} (done : served m i = false) (valid : m.tagValid = true) :
    (TxMux.clock m i).tagValid = true ∧ (TxMux.clock m i).tagValue = m.tagValue := by
  constructor <;> simp only [TxMux.clock, done, valid, Bool.not_true, Bool.or_false, Bool.false_eq_true, if_false]

def tags (w : World t) : List Tag := (cells w).map Cell.tag

/-- The word in the output register, once the cycle line shows it to the receiver. -/
def shownWord (m : Mux) : List Out := if m.txCyc && m.txStb then [.word m.txDat] else []

structure Outputs (w : World t) : Prop where
  errreg : w.wbm.errreg = errors (w.log.map Prod.fst)
  sent : w.out ++ shownWord w.mux = (render w.log).1
  opened : (render w.log).2 = true → w.mux.txCyc = true
  /-- the line rises with the first tag of a frame, a clock or more before its word -/
  raised : w.mux.txCyc = true → (render w.log).2 = true ∨
    (w.mux.tagValid = true ∧ w.mux.tagValue = .passTx ∧ w.mux.txStb = false)
  skips : w.mux.skip = true → w.mux.txCyc = false
  legal : Legal (render w.log).2 (tags w)
  closed : w.fsm.state = .ebHdr → (tags w).foldl cycTag (render w.log).2 = false
  between : w.fsm.rxCyc = false → w.fsm.state = .ebHdr

theorem leaving_served (g : Generics) {token : Token}
    (pending : w.pending = token :: tokens) (done : served w.mux (muxIn g w e) = true) :
    leaving g w e = [(token, token.word (errors (w.log.map Prod.fst)) g.sdbAddress e.regs)] := by
  rw [leaving, if_pos done, pending]
  rfl

theorem leaving_held (g : Generics) (done : served w.mux (muxIn g w e) = false) :
    leaving g w e = [] := by
  rw [leaving, done, if_neg Bool.false_ne_true]

theorem errors_append (log : List Token) (token : Token) : errors (log ++ [token]) =
    if isWbm token.cell.tag then shiftError (errors log) ((token.result.map Prod.snd).getD false) else errors log := by
  rw [errors, List.foldl_append]
  rfl

section
variable (g : Generics)
include g

theorem step_errreg (lines : Lines w) (outputs : Outputs w) :
    (step g w e).wbm.errreg = errors ((step g w e).log.map Prod.fst) := by
  have log : (step g w e).log = w.log ++ leaving g w e := rfl
  have register : (step g w e).wbm.errreg = if TxMux.wbmPop w.mux
    (muxIn g w e) then shiftError w.wbm.errreg w.wbm.data.rDat.2
      else w.wbm.errreg := rfl
  rw [log, register, TxMux.wbmPop_eq]
  cases done : served w.mux (muxIn g w e) with
  | false =>
    rw [leaving_held g done, List.append_nil, Bool.false_and, if_neg Bool.false_ne_true]
    exact outputs.errreg
  | true =>
    obtain ⟨_, valid, _, _, wbm⟩ := served_ready done
    obtain ⟨token, tokens, pending, tag⟩ := lines.front valid
    rw [leaving_served g pending done, List.map_append, List.map_singleton, errors_append,
      ← outputs.errreg, tag, Bool.true_and]
    cases bus : isWbm w.mux.tagValue with
    | false => rfl
    | true =>
      have result := (shown_of_lines lines pending).data (wbm bus) (by rw [tag]; exact bus)
      rw [if_pos rfl, if_pos rfl, result]
      rfl

theorem render_step (w : World t) (e : Event) :
    render (step g w e).log = (leaving g w e).foldl renderStep (render w.log) := render_append w.log (leaving g w e)

theorem tags_step (w : World t) (e : Event) :
    tags (step g w e) = left (tags w) (served w.mux (muxIn g w e)) ++ ((entering w e).map Token.cell).map Cell.tag := by
  rw [tags, cells_step, List.map_append, left_map]
  rfl

theorem cyc_step (lines : Lines w) (legal : Legal (render w.log).2 (tags w)) :
    (left (tags w) (served w.mux (muxIn g w e))).foldl cycTag (render (step g w e).log).2 =
    (tags w).foldl cycTag (render w.log).2 ∧
      Legal (render (step g w e).log).2 (left (tags w) (served w.mux (muxIn g w e))) := by
  rw [render_step]
  cases done : served w.mux (muxIn g w e) with
  | false =>
    rw [leaving_held g done]
    exact ⟨rfl, legal⟩
  | true =>
    obtain ⟨token, tokens, pending, tag⟩ := lines.front (served_ready done).2.1
    have shape : tags w = token.cell.tag :: (tokens.map Token.cell).map Cell.tag := by rw [tags, cells, pending]; rfl
    rw [shape] at legal
    rw [leaving_served g pending done, shape]
    exact ⟨rfl, legal.2⟩

theorem step_legal (lines : Lines w) (outputs : Outputs w)
    (entered : Entered w e (step g w e).fsm) : Legal (render (step g w e).log).2 (tags (step g w e)) := by
  obtain ⟨same, legal⟩ := cyc_step g (e := e) lines outputs.legal
  rw [tags_step]
  cases entered with
  | ended enters =>
    rw [enters]
    cases w.fsm.rxCyc with
    | false => simpa using legal
    | true => exact legal_append legal (fun skip => by cases skip)
  | waited empty =>
    rw [empty]
    simpa using legal
  | took c one sane tag pass cfg wbm state skip =>
    rw [one]
    refine legal_append legal (fun skips => ?_)
    rw [same]
    exact outputs.closed (skip skips)

theorem step_closed (lines : Lines w) (outputs : Outputs w)
    (entered : Entered w e (step g w e).fsm) (state : (step g w e).fsm.state = .ebHdr) :
    (tags (step g w e)).foldl cycTag (render (step g w e).log).2 = false := by
  obtain ⟨same, _⟩ := cyc_step g (e := e) lines outputs.legal
  rw [tags_step, List.foldl_append, same]
  cases entered with
  | ended enters =>
    rw [enters]
    cases low : w.fsm.rxCyc with
    | false => exact outputs.closed (outputs.between low)
    | true => rfl
  | waited empty _ _ _ _ kept =>
    rw [empty]
    exact outputs.closed (kept.symm.trans state)
  | took c one sane tag pass cfg wbm away => exact absurd state away

theorem sending_eq (skips : w.mux.skip = true → w.mux.txCyc = false) :
    sending g w e = (if canTx w.mux (muxIn g w e) then shownWord w.mux else []) ++
      if w.mux.txCyc && !(TxMux.clock w.mux (muxIn g w e)).txCyc then [Out.close] else [] := by
  have word : (if w.mux.txCyc && w.mux.txStb && !e.txStall then [Out.word w.mux.txDat] else []) =
      if canTx w.mux (muxIn g w e) then shownWord w.mux else [] := by
    unfold canTx shownWord
    show _ = if (!(w.mux.txCyc && w.mux.txStb && e.txStall || w.mux.skip && e.skipStall)) = true then _ else _
    cases cyc : w.mux.txCyc with
    | false => simp
    | true =>
      have low : w.mux.skip = false := by
        by_contra high
        rw [skips (Bool.eq_true_of_not_eq_false high)] at cyc
        cases cyc
      rw [low]
      cases w.mux.txStb <;> cases e.txStall <;> simp
  rw [sending, word]

theorem step_sent (lines : Lines w) (outputs : Outputs w) :
    (step g w e).out ++ shownWord (step g w e).mux = (render (step g w e).log).1 := by
  have out : (step g w e).out = w.out ++ sending g w e := rfl
  have mux : (step g w e).mux = TxMux.clock w.mux (muxIn g w e) := rfl
  rw [out, render_step, sending_eq g outputs.skips, mux]
  cases turn w.mux (muxIn g w e) with
  | held can done skip cyc stb dat =>
    rw [can, cyc, leaving_held g done, List.foldl_nil, ← outputs.sent, shownWord, shownWord, cyc, stb,
      dat, Bool.and_not_self]
    simp
  | empty can done skip stb cyc =>
    have open' : (w.mux.txCyc && !(w.mux.txCyc || (w.mux.tagValid && w.mux.tagValue == .passTx))) = false := by
      cases w.mux.txCyc <;> simp
    have silent : shownWord (TxMux.clock w.mux (muxIn g w e)) = [] := by rw [shownWord, stb, Bool.and_false]; rfl
    rw [can, silent, cyc, open', leaving_held g done, List.foldl_nil, ← outputs.sent]
    simp
  | loaded can done skip stb dat cyc =>
    obtain ⟨token, tokens, pending, tag⟩ := lines.front (served_ready done).2.1
    have legal := outputs.legal
    have shape : tags w = token.cell.tag :: (tokens.map Token.cell).map Cell.tag := by rw [tags, cells, pending]; rfl
    rw [shape] at legal
    -- Only the tag that opens a frame sees the line up before the frame.
    have line : token.cell.tag ≠ .passTx → w.mux.txCyc = (render w.log).2 := by
      intro other
      rw [Bool.eq_iff_iff]
      refine ⟨fun high => ?_, outputs.opened⟩
      rcases outputs.raised high with known | ⟨_, first, _⟩
      · exact known
      · exact absurd (tag.trans first) other
    have load := datMux_word g (e := e) lines pending tag done outputs.errreg
    have after : shownWord (TxMux.clock w.mux (muxIn g w e)) =
        if cycTag w.mux.txCyc w.mux.tagValue then [.word (datMux w.mux (muxIn g w e))] else [] := by
      rw [shownWord, stb, dat, cyc, Bool.and_true]
    rw [leaving_served g pending done, List.foldl_cons, List.foldl_nil, renderStep, can, if_pos rfl, after, cyc,
      ← outputs.sent, ← tag]
    simp only [List.append_assoc]
    congr 2
    unfold outTag
    cases value : token.cell.tag with
    | dropTx =>
      rw [← line (by rw [value]; exact Tag.noConfusion)]
      cases w.mux.txCyc <;> rfl
    | skipTx =>
      have low : w.mux.txCyc = false := (line (by rw [value]; exact Tag.noConfusion)).trans (legal.1 value)
      rw [low]
      rfl
    | passTx =>
      rw [load (by rw [← tag, value]; exact Tag.noConfusion) (by rw [← tag, value]; exact Tag.noConfusion)]
      cases w.mux.txCyc <;> rfl
    | _ =>
      rw [load (by rw [← tag, value]; exact Tag.noConfusion) (by rw [← tag, value]; exact Tag.noConfusion),
        ← line (by rw [value]; exact Tag.noConfusion)]
      cases w.mux.txCyc <;> rfl

theorem step_line (lines : Lines w) (outputs : Outputs w) :
    ((render (step g w e).log).2 = true → (step g w e).mux.txCyc = true) ∧
      ((step g w e).mux.txCyc = true → (render (step g w e).log).2 = true ∨ ((step g w e).mux.tagValid = true ∧
        (step g w e).mux.tagValue = .passTx ∧ (step g w e).mux.txStb = false)) ∧
      ((step g w e).mux.skip = true → (step g w e).mux.txCyc = false) := by
  have mux : (step g w e).mux = TxMux.clock w.mux (muxIn g w e) := rfl
  rw [render_step, mux]
  cases turn w.mux (muxIn g w e) with
  | held can done skip cyc stb dat =>
    rw [leaving_held g done, List.foldl_nil, skip, cyc, stb]
    refine ⟨outputs.opened, fun high => ?_, outputs.skips⟩
    rcases outputs.raised high with known | ⟨valid, value, low⟩
    · exact Or.inl known
    · obtain ⟨valid', value'⟩ := tag_kept done valid
      exact Or.inr ⟨valid', value'.trans value, low⟩
  | empty can done skip stb cyc =>
    rw [leaving_held g done, List.foldl_nil, skip, cyc, stb]
    refine ⟨fun known => ?_, fun high => ?_, fun high => absurd high Bool.false_ne_true⟩
    · rw [outputs.opened known]
      rfl
    · rw [Bool.or_eq_true, Bool.and_eq_true, beq_iff_eq] at high
      have waits : w.mux.tagValid = true → w.mux.tagValue = .passTx →
          (TxMux.clock w.mux (muxIn g w e)).tagValid = true ∧
          (TxMux.clock w.mux (muxIn g w e)).tagValue = .passTx ∧ false = false := by
        intro valid value
        obtain ⟨valid', value'⟩ := tag_kept done valid
        exact ⟨valid', value'.trans value, rfl⟩
      rcases high with high | ⟨valid, value⟩
      · rcases outputs.raised high with known | ⟨valid, value, _⟩
        · exact Or.inl known
        · exact Or.inr (waits valid value)
      · exact Or.inr (waits valid value)
  | loaded can done skip stb dat cyc =>
    obtain ⟨token, tokens, pending, tag⟩ := lines.front (served_ready done).2.1
    have legal := outputs.legal
    have shape : tags w = token.cell.tag :: (tokens.map Token.cell).map Cell.tag := by rw [tags, cells, pending]; rfl
    rw [shape] at legal
    have line : token.cell.tag ≠ .passTx → (w.mux.txCyc = true → (render w.log).2 = true) := by
      intro other high
      rcases outputs.raised high with known | ⟨_, first, _⟩
      · exact known
      · exact absurd (tag.trans first) other
    rw [leaving_served g pending done, List.foldl_cons, List.foldl_nil, renderStep, skip, cyc, ← tag]
    have opened := outputs.opened
    cases value : token.cell.tag with
    | dropTx => exact ⟨fun high => absurd high Bool.false_ne_true, fun high =>
        absurd high Bool.false_ne_true, fun _ => rfl⟩
    | passTx => exact ⟨fun _ => rfl, fun _ => Or.inl rfl, fun high => absurd high Bool.false_ne_true⟩
    | skipTx =>
      refine ⟨opened, fun high => Or.inl (line (by rw [value]; exact Tag.noConfusion) high), fun _ => ?_⟩
      by_contra high
      have known := line (by rw [value]; exact Tag.noConfusion) (Bool.eq_true_of_not_eq_false high)
      rw [legal.1 value] at known
      cases known
    | _ => exact ⟨opened, fun high => Or.inl (line (by rw [value]; exact Tag.noConfusion) high),
        fun high => absurd high Bool.false_ne_true⟩

theorem Outputs.step (lines : Lines w) (outputs : Outputs w)
    (entered : Entered w e (step g w e).fsm) : Outputs (step g w e) := by
  obtain ⟨opened, raised, skips⟩ := step_line g (e := e) lines outputs
  refine ⟨step_errreg g lines outputs, step_sent g lines outputs, opened, raised, skips,
    step_legal g lines outputs entered,
    step_closed g lines outputs entered, fun low => ?_⟩
  cases entered with
  | ended _ _ _ _ _ state => exact state
  | waited _ _ _ _ _ _ high => rw [high] at low; cases low
  | took _ _ _ _ _ _ _ _ _ high => rw [high] at low; cases low

theorem outputs_start (junk : Junk) : Outputs (start g junk : World t) :=
  { errreg := rfl
    sent := rfl
    opened := fun high => absurd high Bool.false_ne_true
    raised := fun high => absurd high Bool.false_ne_true
    skips := fun _ => rfl
    legal := trivial
    closed := fun _ => rfl
    between := fun _ => rfl }

theorem lines_start (junk : Junk) : Lines (start g junk : World t) :=
  { tags := ⟨[], represents_reset _ _, rfl⟩
    passes := ⟨[], represents_reset _ _, rfl⟩
    cfgs := ⟨[], represents_reset _ _, rfl⟩
    data := ⟨[], represents_reset _ _, rfl⟩
    sane := fun _ member => absurd member List.not_mem_nil }

end

end BelProject.SlaveCore.Frames
