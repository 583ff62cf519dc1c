import BelProject.Library.Runs
import BelProject.SlaveCore.Requests

/-! The Wishbone cycle line of the slave core. The state machine raises it for the first bus
operation of an Etherbone cycle; `eb_wbm_fifo` keeps it up while accesses are unanswered.
The line is compared with the Etherbone cycle as the records describe it, over every run of
the two. -/

namespace BelProject.SlaveCore.CycleLine
open Headers Fsm Requests
open BelProject.Library.Runs (Along)

/-- The answers of the bus, `t_wishbone_master_in` without its stall. -/
structure Answer where
  ack : Bool
  err : Bool
  rty : Bool
  dat : Word
  deriving DecidableEq

/-- The counters of `eb_wbm_fifo`: unanswered strobes, and the time-out that answers for a bus
that does not. -/
structure Inflight (t : Nat) where
  inflight : BitVec 5
  busy : Bool
  killAck : Bool
  timeout : BitVec t
  deriving DecidableEq

variable {t : Nat}

/-- `s_wb_i_rdy`. -/
def Inflight.rdy (w : Inflight t) (answer : Answer) : Bool := answer.ack || answer.err || answer.rty || w.killAck

/-- The `busy` and `kill_ack` processes, with `g_timeout_cycles` as `limit`. -/
def Inflight.clock (limit : Nat) (w : Inflight t) (fsmStb : Bool) (answer : Answer) : Inflight t :=
  let rdy := w.rdy answer
  { inflight := if fsmStb then (if rdy then w.inflight else w.inflight + 1)
      else if rdy then w.inflight - 1 else w.inflight
    busy := if fsmStb then (if rdy then w.busy else true)
      else if rdy ∧ w.inflight = 1 then false else w.busy
    killAck := if rdy || !w.busy then false else if w.timeout = 1 then true else w.killAck
    timeout := if rdy || !w.busy then BitVec.ofNat t limit else w.timeout - 1 }

def Inflight.reset (limit : Nat) : Inflight t := ⟨0, false, false, BitVec.ofNat t limit⟩

/-- What RX does in a clock: nothing, with the packet that comes next; a gap in the packet; or
its next word. -/
inductive Rx where
  | idle (next : Packet)
  | gap
  | offer

structure Event where
  rx : Rx
  tagFull : Bool
  stall : Bool
  answer : Answer

/-- The two components, the words of the packet that were not taken yet, and two facts about
the past: whether an Etherbone cycle is under way on the bus, and how many strobes were
pushed and not answered. -/
structure World (t : Nat) where
  fsm : Registers
  wbm : Inflight t
  rest : List (Word × Cell)
  opened : Bool
  waiting : Nat

def start (limit : Nat) (p : Packet) : World t := ⟨reset, .reset limit, p.cells, false, 0⟩

def inputs (w : World t) (e : Event) : Inputs :=
  { rxCyc := match e.rx with | .idle _ => false | _ => true
    rxStb := match e.rx with | .offer => !w.rest.isEmpty | _ => false
    rxDat := (w.rest.head?.map Prod.fst).getD 0
    tagFull := e.tagFull
    wbmBusy := w.wbm.busy
    masterStall := e.stall }

def taken (w : World t) (e : Event) : Option Cell :=
  if takes w.fsm (inputs w e) then w.rest.head?.map Prod.snd else none

def cycleAfter (opened : Bool) (c : Cell) : Bool := if c.final && c.drop then false else opened || isWbm c.tag

def step (limit : Nat) (w : World t) (e : Event) : World t :=
  { fsm := clock w.fsm (inputs w e)
    wbm := w.wbm.clock limit w.fsm.wbmStb e.answer
    rest := match e.rx with
      | .idle next => next.cells
      | _ => if takes w.fsm (inputs w e) then w.rest.tail else w.rest
    opened := match e.rx with
      | .idle _ => false
      | _ => match taken w e with
        | none => w.opened
        | some c => cycleAfter w.opened c
    waiting := w.waiting + w.fsm.wbmStb.toNat - (w.wbm.rdy e.answer).toNat }

def run (limit : Nat) (w : World t) (events : List Event) : World t := events.foldl (step limit) w

/-- Answers go to strobes the bus has taken, and the counter of five bits can tell how many
are missing. -/
structure Answered (w : World t) (e : Event) : Prop where
  taken : w.wbm.rdy e.answer = true → (w.fsm.masterStb && e.stall).toNat < w.waiting + w.fsm.wbmStb.toNat
  room : w.waiting + w.fsm.wbmStb.toNat - (w.wbm.rdy e.answer).toNat ≤ 32

/-- The first bus operation of a cycle is not the end of a record that keeps the cycle. -/
def Spread (w : World t) (e : Event) : Prop :=
  ∀ c, taken w e = some c → isWbm c.tag = true → c.final = true → c.drop = false → w.opened = true

instance (w : World t) (e : Event) : Decidable (Answered w e) :=
  decidable_of_iff ((w.wbm.rdy e.answer = true → (w.fsm.masterStb && e.stall).toNat < w.waiting + w.fsm.wbmStb.toNat) ∧
    w.waiting + w.fsm.wbmStb.toNat - (w.wbm.rdy e.answer).toNat ≤ 32) ⟨fun h => ⟨h.1, h.2⟩, fun h => ⟨h.taken, h.room⟩⟩

instance (w : World t) (e : Event) : Decidable (Spread w e) :=
  inferInstanceAs (Decidable (∀ c ∈ taken w e, isWbm c.tag = true → c.final = true → c.drop = false → w.opened = true))

/-- The line in a clock: up while the cycle is open or a strobe is not issued yet, down
otherwise once everything is answered, and down when a cycle begins. -/
structure Held (w : World t) (e : Event) : Prop where
  up : w.opened = true ∨ w.fsm.masterStb = true → cycLine w.fsm (inputs w e) = true
  down : cycLine w.fsm (inputs w e) = true → w.opened = true ∨ 0 < w.waiting + w.fsm.wbmStb.toNat
  begins : ∀ c, taken w e = some c → isWbm c.tag = true → w.opened = false → cycLine w.fsm (inputs w e) = false

/-- The machine is at its place in the packet, its cycle register is the Etherbone cycle, the
FIFO knows how many answers are missing, and a strobe on the bus is one of them. -/
structure Inv (w : World t) : Prop where
  aligned : Aligned w.fsm w.rest
  cyc : w.fsm.masterCyc = w.opened
  inflight : w.wbm.inflight.toNat = w.waiting % 32
  busy : w.wbm.busy = decide (0 < w.waiting)
  room : w.waiting ≤ 32
  strobe : w.fsm.masterStb = true → 0 < w.waiting + w.fsm.wbmStb.toNat

variable {f : Registers}

theorem aligned_packet (p : Packet) (state : f.state = .ebHdr) : Aligned f p.cells := by
  unfold Aligned
  rw [state]
  exact ⟨p, rfl⟩

theorem start_inv (limit : Nat) (p : Packet) : Inv (start limit p : World t) :=
  { aligned := aligned_packet p rfl
    cyc := rfl
    inflight := rfl
    busy := rfl
    room := Nat.zero_le 32
    strobe := fun high => absurd high Bool.false_ne_true }

/-- What a clock does to the machine and to the words that are left. -/
inductive Moved (w : World t) (e : Event) (w' : World t) : Prop where
  /-- Between packets. -/
  | ended (packet : Packet) (rest : w'.rest = packet.cells) (state : w'.fsm.state = .ebHdr)
      (cyc : w'.fsm.masterCyc = false)
      (opened : w'.opened = false) (wbmStb : w'.fsm.wbmStb = false)
      (strobe : w'.fsm.masterStb = (w.fsm.masterStb && e.stall))
  /-- No word was taken. -/
  | waited (rest : w'.rest = w.rest) (fsm : w'.fsm = idle w.fsm (inputs w e)) (opened : w'.opened = w.opened)
  /-- The next word was taken. -/
  | took (c : Cell) (cell : taken w e = some c) (aligned : Aligned w'.fsm w'.rest)
      (effect : Effect w.fsm (inputs w e) c w'.fsm)
      (opened : w'.opened = cycleAfter w.opened c)

theorem clock_ended {i : Inputs} (low : i.rxCyc = false) :
    clock f i = { idle f i with
      state := .ebHdr, masterCyc := false, tagStb := f.rxCyc, tagDat := if f.rxCyc then .dropTx else f.tagDat } := by
  rw [clock, low]
  rfl

theorem clock_waited {i : Inputs} (high : i.rxCyc = true) (held : takes f i = false) : clock f i = idle f i := by
  rw [takes, high, Bool.true_and] at held
  rw [clock, high, held]
  rfl

theorem clock_took {i : Inputs} (moves : takes f i = true) : clock f i = word f (idle f i) i.rxDat := by
  have high : i.rxCyc = true := by
    rw [takes, Bool.and_eq_true, Bool.and_eq_true] at moves
    exact moves.1.1
  rw [takes, high, Bool.true_and] at moves
  rw [clock, high, moves]
  rfl

variable {w : World t}

theorem step_moved (limit : Nat) (e : Event) (aligned : Aligned w.fsm w.rest) : Moved w e (step limit w e) := by
  by_cases between : ∃ next, e.rx = .idle next
  · obtain ⟨next, rx⟩ := between
    have low : (inputs w e).rxCyc = false := by rw [inputs, rx]
    apply Moved.ended next
    all_goals simp only [step, rx, clock_ended low]
    all_goals rfl
  have high : (inputs w e).rxCyc = true := by
    cases rx : e.rx with
    | idle next => exact absurd ⟨next, rx⟩ between
    | gap => rw [inputs, rx]
    | offer => rw [inputs, rx]
  have rest : (step limit w e).rest = if takes w.fsm (inputs w e) then w.rest.tail else w.rest := by
    cases rx : e.rx with
    | idle next => exact absurd ⟨next, rx⟩ between
    | gap => rw [step, rx]
    | offer => rw [step, rx]
  have opened : (step limit w e).opened = match taken w e with
      | none => w.opened
      | some c => cycleAfter w.opened c := by
    cases rx : e.rx with
    | idle next => exact absurd ⟨next, rx⟩ between
    | gap => rw [step, rx]
    | offer => rw [step, rx]
  cases moves : takes w.fsm (inputs w e) with
  | false =>
    have none : taken w e = none := by rw [taken, moves]; rfl
    rw [moves] at rest
    rw [none] at opened
    exact .waited rest (clock_waited high moves) opened
  | true =>
    cases words : w.rest with
    | nil =>
      -- Without a word on offer the strobe is down.
      have silent : (inputs w e).rxStb = false := by
        rw [inputs, words]
        cases e.rx <;> rfl
      rw [takes, silent, Bool.and_false, Bool.false_and] at moves
      cases moves
    | cons first tail =>
      obtain ⟨dat, c⟩ := first
      rw [words] at aligned
      have cell : taken w e = some c := by rw [taken, moves, words]; rfl
      have dat_eq : (inputs w e).rxDat = dat := by rw [inputs, words]; rfl
      obtain ⟨effect, next⟩ := word_step (i := inputs w e) aligned
      have fsm : (step limit w e).fsm = word w.fsm (idle w.fsm (inputs w e)) dat := by
        rw [← dat_eq]
        exact clock_took moves
      rw [moves, words] at rest
      rw [cell] at opened
      exact .took c cell (by rw [fsm, rest]; exact next) (by rw [fsm]; exact effect) opened

theorem inflight_clock (limit : Nat) (w : Inflight t) (waiting : Nat) (fsmStb : Bool) (answer : Answer)
    (inflight : w.inflight.toNat = waiting % 32) (busy : w.busy = decide (0 < waiting)) (room : waiting ≤ 32)
    (answered : w.rdy answer = true → 0 < waiting + fsmStb.toNat) :
    (w.clock limit fsmStb answer).inflight.toNat = (waiting + fsmStb.toNat - (w.rdy answer).toNat) % 32 ∧
      (w.clock limit fsmStb answer).busy = decide (0 < waiting + fsmStb.toNat - (w.rdy answer).toNat) := by
  have one : (1 : BitVec 5).toNat = 1 := rfl
  simp only [Inflight.clock]
  cases rdy : w.rdy answer with
  | false =>
    cases fsmStb with
    | false => simpa using ⟨inflight, busy⟩
    | true =>
      have added : (w.inflight + 1).toNat = (waiting + 1) % 32 := by
        rw [BitVec.toNat_add, inflight, one]
        omega
      simpa using added
  | true =>
    have some := answered rdy
    cases fsmStb with
    | true => simpa using ⟨inflight, busy⟩
    | false =>
      rw [Bool.toNat_false, Nat.add_zero] at some
      have last : w.inflight = 1 ↔ waiting = 1 := by
        rw [← BitVec.toNat_inj, inflight, one]
        omega
      have removed : (w.inflight - 1).toNat = (waiting - 1) % 32 := by
        rw [BitVec.toNat_sub, inflight, one]
        omega
      refine ⟨by simpa using removed, ?_⟩
      simp only [last, true_and, Bool.false_eq_true, if_false, busy, Bool.toNat_false, Bool.toNat_true, Nat.add_zero]
      by_cases single : waiting = 1
      · rw [if_pos single, single]
        rfl
      · rw [if_neg single, decide_eq_decide]
        omega

theorem step_inv (limit : Nat) {e : Event} (inv : Inv w) (answered : Answered w e) (spread : Spread w e) :
    Inv (step limit w e) := by
  obtain ⟨inflight, busy⟩ := inflight_clock limit w.wbm w.waiting w.fsm.wbmStb e.answer inv.inflight inv.busy inv.room
    (fun rdy => Nat.zero_lt_of_lt (answered.taken rdy))
  -- A strobe that is still held up was not answered.
  have pending : (w.fsm.masterStb && e.stall) = true → 0 < (step limit w e).waiting := by
    intro stalled
    have high : w.fsm.masterStb = true := (Bool.and_eq_true _ _ ▸ stalled).1
    have outstanding := inv.strobe high
    cases rdy : w.wbm.rdy e.answer with
    | false =>
      simp only [step, rdy, Bool.toNat_false, Nat.sub_zero]
      exact outstanding
    | true =>
      have more := answered.taken rdy
      rw [stalled, Bool.toNat_true] at more
      simp only [step, rdy, Bool.toNat_true]
      omega
  cases step_moved limit e inv.aligned with
  | ended packet rest state cyc opened wbmStb strobe =>
    refine ⟨?_, ?_, inflight, busy, answered.room, ?_⟩
    · rw [rest]
      exact aligned_packet packet state
    · rw [cyc, opened]
    · rw [strobe]
      exact fun stalled => Nat.lt_of_lt_of_le (pending stalled) (Nat.le_add_right _ _)
  | waited rest fsm opened =>
    refine ⟨?_, ?_, inflight, busy, answered.room, ?_⟩
    · rw [rest, fsm]
      exact inv.aligned
    · rw [fsm, opened]
      exact inv.cyc
    · rw [fsm]
      exact fun stalled => Nat.lt_of_lt_of_le (pending stalled) (Nat.le_add_right _ _)
  | took c cell aligned effect opened =>
    refine ⟨aligned, ?_, inflight, busy, answered.room, ?_⟩
    · rw [effect.masterCyc, opened, inv.cyc, cycleAfter]
      cases final : c.final with
      | false => rfl
      | true =>
        cases drop : c.drop with
        | true => exact Bool.and_false _
        | false =>
          -- The override at the end of a record: here it must not have hidden the first operation.
          have before := spread c cell
          rw [final, drop] at before
          cases bus : isWbm c.tag with
          | false => simp
          | true => simp [before bus rfl rfl]
    · rw [effect.masterStb, effect.wbmStb, Bool.or_eq_true]
      rintro (bus | stalled)
      · rw [bus]
        exact Nat.succ_pos _
      · exact Nat.lt_of_lt_of_le (pending stalled) (Nat.le_add_right _ _)

theorem held_of_inv (inv : Inv w) (e : Event) : Held w e := by
  have busy : (inputs w e).wbmBusy = decide (0 < w.waiting) := inv.busy
  have line : cycLine w.fsm (inputs w e) = (w.opened || (decide (0 < w.waiting) || w.fsm.wbmStb)) := by
    rw [cycLine, wbmBusy, inv.cyc, busy]
  have outstanding : (decide (0 < w.waiting) || w.fsm.wbmStb) = true ↔ 0 < w.waiting + w.fsm.wbmStb.toNat := by
    cases w.fsm.wbmStb <;> simp
  refine ⟨?_, ?_, ?_⟩
  · rintro (opened | strobe)
    · rw [line, opened, Bool.true_or]
    · rw [line, outstanding.mpr (inv.strobe strobe), Bool.or_true]
  · intro high
    rw [line, Bool.or_eq_true, outstanding] at high
    exact high
  · intro c cell _ closed
    have moves : takes w.fsm (inputs w e) = true := by
      by_contra held
      rw [taken, if_neg held] at cell
      cases cell
    have free : stall w.fsm (inputs w e) = false := by
      rw [takes, Bool.and_eq_true, Bool.not_eq_true'] at moves
      exact moves.2
    rw [stall, inv.cyc, closed, Bool.or_eq_false_iff] at free
    rw [cycLine, inv.cyc, closed, Bool.false_or]
    exact free.2

theorem run_inv (limit : Nat) {events : List Event} (inv : Inv w)
    (meets : Along (step limit) (fun w e => Answered w e ∧ Spread w e) w events) : Inv (run limit w events) :=
  meets.invariant Inv inv fun inv both => step_inv limit inv both.1 both.2

/-- As long as the bus keeps to the protocol and no cycle starts with the last operation of a
record that keeps it open, the line is the Etherbone cycle, for any gaps and stalls. -/
theorem cycle_line_held (limit : Nat) (p : Packet) (events : List Event)
    (meets : Along (step limit) (fun w e => Answered w e ∧ Spread w e) (start limit p : World t) events) (e : Event) :
    Held (run limit (start limit p : World t) events) e :=
  held_of_inv (run_inv limit (start_inv limit p) meets) e

def poke (drop : Bool) : Request :=
  { hdr := { cRecInit with dropCyc := drop, sel := 0x0f, wrCnt := 1 }
    baseWrite := 0x1000
    writes := [0xcafe]
    baseRet := 0
    reads := []
    wrCnt := rfl
    rdCnt := rfl }

def pokes (records : List Request) : Packet :=
  { hdr := cEbInit
    probeId := 0
    records := records
    magic := rfl
    ver := rfl
    probes := by decide
    sizes := by decide }

def quiet : Answer := ⟨false, false, false, 0⟩

def offered : Event := ⟨.offer, false, false, quiet⟩

def acked : Event := ⟨.gap, false, false, { quiet with ack := true }⟩

theorem cycle_line_held_dropping :
    Held (run 100 (start 100 (pokes [poke true, poke true]) : World 7)
      (List.replicate 4 offered ++ [acked] ++ List.replicate 3 offered)) offered :=
  cycle_line_held 100 (pokes [poke true, poke true]) (List.replicate 4 offered ++ [acked] ++ List.replicate 3 offered)
    (by decide +kernel) offered

/-- Two records of one cycle with a write each: the line falls between them. -/
theorem cycle_line_falls :
    Along (step 100) Answered (start 100 (pokes [poke false, poke true]) : World 7)
      (List.replicate 4 offered ++ [acked]) ∧
      (run 100 (start 100 (pokes [poke false, poke true]) : World 7)
        (List.replicate 4 offered ++ [acked])).opened = true ∧
      ¬Held (run 100 (start 100 (pokes [poke false, poke true]) : World 7)
        (List.replicate 4 offered ++ [acked])) offered := by
  refine ⟨by decide +kernel, by decide +kernel, ?_⟩
  intro held
  exact absurd (held.up (Or.inl (by decide +kernel))) (by decide +kernel)

end BelProject.SlaveCore.CycleLine
