import BelProject.Library.Runs
import BelProject.SlaveCore.Frames

/-! The core over whole runs. Nothing that came in is lost: the tokens that left, those
inside and the words still on RX are the packets in the order they came, the answers of the
bus went to the accesses in order, and every word in the log is the one its token calls for. -/

namespace BelProject.SlaveCore.History
open Headers Fsm Requests Fifo SlaveCore.Core Account Frames
open CycleLine (Answer Inflight)
open TxMux (Mux canTx served tagMux datMux)
open BelProject.Library.Runs (Along)

variable {t : Nat}

def answersOf (g : Generics) : World t → List Event → List (Word × Bool)
  | _, [] => []
  | w, e :: events => (w.wbm.push e.answer).toList ++ answersOf g (step g w e) events

def taken (w : World t) : List Token := w.log.map Prod.fst ++ w.pending

def packetCells (p : Packet) : List Cell := p.cells.map Prod.snd ++ [dropCell]

def toEnd (w : World t) : List Cell := if w.rest.isEmpty && !w.fsm.rxCyc then [] else [dropCell]

variable {e : Event} {w : World t}

variable (g : Generics)

theorem answered_front (lines : Lines w) {token : Token} {tokens : List Token}
    (pending : w.pending = token :: tokens) (tag : token.cell.tag = w.mux.tagValue)
    (done : served w.mux (muxIn g w e) = true) :
    ∃ rest, answered w e = token :: rest := by
  unfold answered
  cases w.wbm.push e.answer with
  | none => exact ⟨tokens, pending⟩
  | some answer =>
    have complete : (isWbm token.cell.tag && token.result.isNone) = false := by
      cases bus : isWbm token.cell.tag with
      | false => rfl
      | true =>
        have shown := (TxMux.served_ready done).2.2.2.2 (by rw [← tag]; exact bus)
        rw [(shown_of_lines lines pending).data shown bus]
        rfl
    refine ⟨fillFirst answer tokens, ?_⟩
    show fillFirst answer w.pending = _
    rw [pending, fillFirst, complete, if_neg Bool.false_ne_true]

theorem taken_step (lines : Lines w) : taken (step g w e) = w.log.map Prod.fst ++ answered w e ++ entering w e := by
  have log : (step g w e).log = w.log ++ leaving g w e := rfl
  have pending : (step g w e).pending = left (answered w e) (served w.mux (muxIn g w e)) ++ entering w e := rfl
  rw [taken, log, pending]
  cases done : served w.mux (muxIn g w e) with
  | false =>
    rw [leaving_held g done, List.append_nil, List.append_assoc]
    rfl
  | true =>
    obtain ⟨token, tokens, before, tag⟩ := lines.front (TxMux.served_ready done).2.1
    obtain ⟨rest, after⟩ := answered_front g lines before tag done
    rw [leaving_served g before done, after]
    simp [left]

theorem taken_cells (lines : Lines w) :
    (taken (step g w e)).map Token.cell = (taken w).map Token.cell ++ (entering w e).map Token.cell := by
  rw [taken_step g lines, taken, List.map_append, List.map_append, List.map_append, answered_cells]
  rfl

theorem results_append (first second : List Token) : results (first ++ second) = results first ++ results second := by
  rw [results, List.filter_append, List.map_append]
  rfl

theorem clock_rxCyc (f : Registers) (i : Inputs) : (Fsm.clock f i).rxCyc = i.rxCyc := by
  unfold Fsm.clock
  split
  · split
    · unfold word
      cases f.state with
      | ebHdr =>
        simp only [ebHdrWord, answerHdr]
        split_ifs <;> rfl
      | cycHdr =>
        simp only [cycHdrWord]
        split_ifs <;> rfl
      | _ => rfl
    · rfl
  · rfl

def Kept (w : World t) : Prop :=
  (taken w).map Token.cell ++ (w.rest.map Prod.snd ++ toEnd w) = w.arrived.flatMap packetCells

theorem cells_ne_nil (p : Packet) : p.cells ≠ [] := List.cons_ne_nil _ _

theorem toEnd_begun (begun : w.rest ≠ [] ∨ w.fsm.rxCyc = true) : toEnd w = [dropCell] := by
  unfold toEnd
  rcases begun with words | high
  · rw [List.isEmpty_eq_false_iff.mpr words]
    rfl
  · rw [high, Bool.not_true, Bool.and_false]
    rfl

theorem step_kept (kept : Kept w) (lines : Lines w) (whole : Whole w e) : Kept (step g w e) := by
  unfold Kept at kept ⊢
  rw [taken_cells g lines]
  cases rx : e.rx with
  | idle next =>
    have empty := whole.complete next rx
    have enters : (entering w e).map Token.cell = toEnd w := by
      rw [entering, rx, toEnd, empty]
      cases w.fsm.rxCyc <;> rfl
    have low : (step g w e).fsm.rxCyc = false := (clock_rxCyc _ _).trans (by rw [fsmIn, rx])
    rw [empty, List.map_nil, List.nil_append] at kept
    rw [enters, kept]
    cases next with
    | none =>
      have rest : (step g w e).rest = [] := by
        rw [rest_step, rx]
        exact empty
      have arrived : (step g w e).arrived = w.arrived := by
        rw [arrived_step, rx]
      rw [rest, arrived, toEnd, rest, low]
      simp
    | some p =>
      have rest : (step g w e).rest = p.cells := by
        rw [rest_step, rx]
      have arrived : (step g w e).arrived = w.arrived ++ [p] := by
        rw [arrived_step, rx]
      rw [arrived, toEnd_begun (Or.inl (by rw [rest]; exact cells_ne_nil p)), rest, List.flatMap_append]
      simp [packetCells]
  | _ =>
    have begun := whole.begun (by rw [rx]; exact fun _ => Rx.noConfusion)
    have arrived : (step g w e).arrived = w.arrived := by
      rw [arrived_step, rx]
    have rest : (step g w e).rest = if takes w.fsm (fsmIn w e) then w.rest.tail else w.rest := by
      rw [rest_step, rx]
    have enters : entering w e = if takes w.fsm (fsmIn w e) then (w.rest.head?.map fun word =>
      ⟨word.2, none⟩).toList else [] := by
      rw [entering, rx]
    have high : (step g w e).fsm.rxCyc = true := (clock_rxCyc _ _).trans (by rw [fsmIn, rx])
    rw [arrived, ← kept, toEnd_begun begun, toEnd_begun (Or.inr high), rest, enters]
    cases takes w.fsm (fsmIn w e) with
    | false => simp
    | true => cases w.rest <;> simp

/-- The accesses have the answers in order, and the others have none. -/
def InOrder (w : World t) (answers : List (Word × Bool)) : Prop :=
  results (taken w) = answers.map some ++ List.replicate (w.waiting + w.fsm.wbmStb.toNat) none

variable {answers : List (Word × Bool)}

theorem step_inOrder (order : InOrder w answers)
    (lines : Lines w) (fits : Fits g w e) (entered : Entered w e (step g w e).fsm) :
    InOrder (step g w e) (answers ++ (w.wbm.push e.answer).toList) := by
  obtain ⟨queue, _, known⟩ := lines.data
  have known : results w.pending = queue.map some ++ List.replicate (w.waiting + w.fsm.wbmStb.toNat) none := known
  have before : results (w.log.map Prod.fst) ++ queue.map some = answers.map some := by
    unfold InOrder at order
    rw [taken, results_append, known, ← List.append_assoc] at order
    exact List.append_cancel_right order
  have waiting : (step g w e).waiting = w.waiting + w.fsm.wbmStb.toNat - (w.wbm.counters.rdy e.answer).toNat := rfl
  have new : results (entering w e) = List.replicate (step g w e).fsm.wbmStb.toNat none :=
    (entered_tags entered).2.2.2.1
  unfold InOrder
  rw [taken_step g lines, results_append, results_append, results_answered known fits.waited, new,
    List.map_append, List.map_append,
    ← before, waiting, List.replicate_add]
  simp only [List.append_assoc]

/-- Every word that left is the one its token calls for, at some clock of the run. -/
def Faithful (g : Generics) (w : World t) (events : List Event) : Prop :=
  ∀ before entry after, w.log = before ++ entry :: after →
    ∃ e ∈ events, entry.2 = entry.1.word (errors (before.map Prod.fst)) g.sdbAddress e.regs

theorem step_faithful {events : List Event} (faithful : Faithful g w events) :
    Faithful g (step g w e) (events ++ [e]) := by
  intro before entry after log
  have grown : (step g w e).log = w.log ++ leaving g w e := rfl
  rw [grown] at log
  have old : ∀ {rest}, w.log = before ++ entry :: rest →
      ∃ e' ∈ events ++ [e], entry.2 = entry.1.word (errors (before.map Prod.fst)) g.sdbAddress e'.regs := by
    intro rest same
    obtain ⟨e', member, word⟩ := faithful before entry rest same
    exact ⟨e', List.mem_append_left _ member, word⟩
  unfold leaving at log
  split at log
  · cases pending : w.pending with
    | nil =>
      rw [pending] at log
      exact old (by simpa using log)
    | cons token tokens =>
      rw [pending] at log
      rcases List.eq_nil_or_concat after with rfl | ⟨rest, last, rfl⟩
      · obtain ⟨same, this⟩ := List.append_inj' log rfl
        obtain rfl := (List.cons.inj this).1
        exact ⟨e, List.mem_append_right _ List.mem_cons_self, by rw [same]⟩
      · rw [List.concat_eq_append, ← List.cons_append, ← List.append_assoc] at log
        exact old (List.append_inj' log rfl).1
  · exact old (by simpa using log)

/-- What the counters of `eb_wbm_fifo` know. The count has five bits, and the flag falls with
the last answer. -/
structure Counted (w : World t) : Prop where
  inflight : w.wbm.counters.inflight.toNat = w.waiting % 32
  busy : w.waiting = 0 → w.wbm.counters.busy = false
  killAck : w.wbm.counters.killAck = true → 0 < w.waiting

theorem step_counted (counted : Counted w)
    (waited : w.wbm.counters.rdy e.answer = true → 0 < w.waiting + w.fsm.wbmStb.toNat) : Counted (step g w e) := by
  obtain ⟨inflight, busy, killAck⟩ := counted
  have one : (1 : BitVec 5).toNat = 1 := rfl
  have waiting : (step g w e).waiting = w.waiting + w.fsm.wbmStb.toNat - (w.wbm.counters.rdy e.answer).toNat := rfl
  have counters : (step g w e).wbm.counters = w.wbm.counters.clock g.limit w.fsm.wbmStb e.answer := rfl
  constructor
  · rw [counters, waiting]
    simp only [Inflight.clock]
    cases rdy : w.wbm.counters.rdy e.answer with
    | false =>
      cases w.fsm.wbmStb with
      | false => simpa using inflight
      | true =>
        have added : (w.wbm.counters.inflight + 1).toNat = (w.waiting + 1) % 32 := by
          rw [BitVec.toNat_add, inflight, one]
          omega
        simpa using added
    | true =>
      have some := waited rdy
      cases strobe : w.fsm.wbmStb with
      | true => simpa using inflight
      | false =>
        rw [strobe] at some
        have removed : (w.wbm.counters.inflight - 1).toNat = (w.waiting - 1) % 32 := by
          rw [BitVec.toNat_sub, inflight, one]
          have := Bool.toNat_false
          omega
        simpa using removed
  · rw [counters, waiting]
    simp only [Inflight.clock]
    cases rdy : w.wbm.counters.rdy e.answer with
    | false => cases w.fsm.wbmStb <;> simp_all
    | true =>
      cases strobe : w.fsm.wbmStb with
      | true => simpa using busy
      | false =>
        intro last
        have some := waited rdy
        rw [strobe] at some
        simp only [Bool.toNat_false, Bool.toNat_true, Nat.add_zero] at last some
        have single : w.wbm.counters.inflight = 1 := by
          rw [← BitVec.toNat_inj, inflight, one]
          omega
        simp [single]
  · rw [counters, waiting]
    simp only [Inflight.clock]
    cases rdy : w.wbm.counters.rdy e.answer with
    | true => simp
    | false =>
      intro fires
      have high : w.wbm.counters.busy = true := by
        by_contra low
        simp [Bool.eq_false_of_not_eq_true low] at fires
      have positive : w.waiting ≠ 0 := fun zero => by
        rw [busy zero] at high
        cases high
      simp only [Bool.toNat_false]
      omega

/-- What holds after every run, with the answers and the inputs so far. -/
structure Sound (g : Generics) (w : World t) (answers : List (Word × Bool)) (events : List Event) : Prop where
  placed : Placed w
  lines : Lines w
  outputs : Outputs w
  kept : Kept w
  order : InOrder w answers
  faithful : Faithful g w events
  counted : Counted w

theorem sound_start (junk : Junk) : Sound g (start g junk : World t) [] [] :=
  { placed := ⟨fun some => absurd rfl some, fun _ member => absurd member List.not_mem_nil⟩
    lines := lines_start g junk
    outputs := outputs_start g junk
    kept := rfl
    order := rfl
    faithful := fun before _ _ log => by cases before <;> cases log
    counted := ⟨rfl, fun _ => rfl, fun high => absurd high Bool.false_ne_true⟩ }

/-- RX keeps to its protocol, nothing overflows, and the bus answers accesses only. -/
structure Proper (g : Generics) (w : World t) (e : Event) : Prop where
  whole : Whole w e
  fits : Fits g w e

theorem Sound.step {events : List Event}
    (sound : Sound g w answers events) (proper : Proper g w e) :
    Sound g (Core.step g w e) (answers ++ (w.wbm.push e.answer).toList) (events ++ [e]) := by
  obtain ⟨entered, placed⟩ := step_entered g sound.placed proper.whole
  exact
    { placed := placed
      lines := sound.lines.step g proper.fits entered
      outputs := sound.outputs.step g sound.lines entered
      kept := step_kept g sound.kept sound.lines proper.whole
      order := step_inOrder g sound.order sound.lines proper.fits entered
      faithful := step_faithful g sound.faithful
      counted := step_counted g sound.counted proper.fits.waited }

theorem run_sound {before events : List Event}
    (sound : Sound g w answers before) (meets : Along (step g) (Proper g) w events) :
    Sound g (run g w events) (answers ++ answersOf g w events) (before ++ events) := by
  induction events generalizing w answers before with
  | nil => simpa [run, answersOf] using sound
  | cons e events ih =>
    have next := ih (sound.step g meets.1) meets.2
    simpa [run, answersOf, List.append_assoc] using next

end BelProject.SlaveCore.History
