import BelProject.Library.Runs
import BelProject.Mil.Message

/-! What `Mil_dec_edge_timed` reports, whatever the line does: a word stands for the edges of a
message, all other edges lead to an error or back to idle, and so does a line without edges. -/

namespace BelProject.Mil.Soundness

open Decoder Message Library.Runs

section
variable (hz : Nat) (posLane : Bool)

structure Sane (w : World) : Prop where
  timed : Timed hz w.regs
  follows : Follows hz posLane w.regs w.since
  confined : w.regs.machine.parityOk = true → w.regs.machine.state = .idle
  stored : w.regs.rcvRdy = true → Word hz posLane w.last w.regs.rcvData w.regs.isCmdMemory

/-- The edges come while the flags stand. -/
def CleanAt (w : World) (i : Inputs) : Prop := Clean hz (settle w.regs i.res)

instance (w : World) (i : Inputs) : Decidable (CleanAt hz w i) := by
  unfold CleanAt Clean
  infer_instance

def Level (level : Bool) (r : Registers) : Prop := r.sync0 = level ∧ r.sync1 = level ∧ r.sync2 = level

def Counted (r : Registers) : Prop := r.machine.state ≠ .idle → r.isTimeout = false → r.count ≤ timeoutTimeCnt hz

def left (r : Registers) : Nat :=
  if r.machine.state = .idle then 0 else if r.isTimeout then 1 else timeoutTimeCnt hz + 2 - r.count

end

variable {hz : Nat} {posLane level : Bool} {r : Registers} {i : Inputs} {e : Edges} {w : World} {res : Bool}

theorem ends_of_follows (follows : Follows hz posLane r e) : Ends r := by
  intro state whole
  rw [Follows, state] at follows
  obtain ⟨full, bits, reading⟩ := follows
  exact reading.ends whole

theorem settle_running (running : (res || r.isTimeout) = false) : settle r res = r := by
  obtain ⟨noRes, noTimeout⟩ := Bool.or_eq_false_iff.mp running
  rw [settle, running, noRes]
  rfl

theorem settle_stopped (stopped : (res || r.isTimeout) = true) : (settle r res).machine = r.machine.reset := by
  simp [settle, stopped]

theorem idle_of_stopped (stops : (settle r res).isTimeout = true ∨ res = true) :
    (settle r res).machine.state = .idle := by
  rw [settle_stopped (by rw [Bool.or_eq_true]; exact stops.symm)]
  rfl

theorem machine_edge (hz : Nat) (posLane : Bool) (r : Registers) (i : Inputs) :
    (edge hz posLane (settle r i.res) i).machine = r.machine.reset ∨
      settle r i.res = r ∧ r.isTimeout = false ∧ (edge hz posLane r i).machine = nextMachine posLane r := by
  cases stopped : i.res || r.isTimeout with
  | true =>
    have machine := settle_stopped stopped
    have stays : (edge hz posLane (settle r i.res) i).machine = (settle r i.res).machine := if_pos stopped
    exact Or.inl (stays.trans machine)
  | false =>
    have steps : (edge hz posLane r i).machine = nextMachine posLane r := by simp [edge, stopped]
    exact Or.inr ⟨settle_running stopped, (Bool.or_eq_false_iff.mp stopped).2, steps⟩

theorem confined_nextMachine (ok : (nextMachine posLane r).parityOk = true) :
    (nextMachine posLane r).state = .idle := by
  cases state : r.machine.state with
  | parity =>
    rw [nextMachine_parity state] at ok ⊢
    split at ok
    next leaving =>
      rw [if_pos leaving]
      split at ok
      next odd => rw [if_pos odd]
      next => cases ok
    next => cases ok
  | idle => simp [nextMachine, state, Machine.lower] at ok
  | err => simp [nextMachine, state, Machine.lower] at ok
  | sync1or2 =>
    simp only [nextMachine, state] at ok
    split_ifs at ok <;> cases ok
  | sync2orData =>
    simp only [nextMachine, state] at ok
    split_ifs at ok <;> cases ok
  | data =>
    simp only [nextMachine, state] at ok
    split_ifs at ok <;> cases ok

theorem follows_settle (follows : Follows hz posLane r e) : Follows hz posLane (settle r res) e := by
  cases stopped : res || r.isTimeout with
  | true =>
    rw [Follows, settle_stopped stopped]
    intro ok
    cases ok
  | false =>
    rw [settle_running stopped]
    exact follows

theorem confined_settle (confined : r.machine.parityOk = true → r.machine.state = .idle)
    (ok : (settle r res).machine.parityOk = true) :
    (settle r res).machine.state = .idle := by
  cases stopped : res || r.isTimeout with
  | true =>
    rw [settle_stopped stopped]
    rfl
  | false =>
    rw [settle_running stopped] at ok ⊢
    exact confined ok

theorem Sane.stored_clock (sane : Sane hz posLane w) (ready : (w.clock hz posLane i).regs.rcvRdy = true) :
    Word hz posLane (w.clock hz posLane i).last (w.clock hz posLane i).regs.rcvData
      (w.clock hz posLane i).regs.isCmdMemory := by
  simp only [World.clock, Decoder.clock, edge] at ready ⊢
  cases read : i.rdMil || (settle w.regs i.res).machine.state == .err with
  | true =>
    rw [read] at ready
    cases ready
  | false =>
    by_cases ok : (settle w.regs i.res).machine.parityOk = true
    · have follows : Follows hz posLane (settle w.regs i.res) w.since := follows_settle sane.follows
      rw [Follows, confined_settle sane.confined ok] at follows
      simp only [ok, if_true, Bool.false_eq_true, if_false]
      exact follows ok
    · simp only [read, ok, Bool.false_eq_true, if_false] at ready ⊢
      cases res : i.res with
      | true =>
        rw [res] at ready
        cases ready
      | false =>
        rw [res] at ready
        exact sane.stored ready

theorem Sane.clock (fast : 20000000 ≤ hz) (int : hz < 2 ^ 31) (sane : Sane hz posLane w) (clean : CleanAt hz w i) :
    Sane hz posLane (w.clock hz posLane i) := by
  have timed : Timed hz (settle w.regs i.res) := sane.timed.settle
  have follows : Follows hz posLane (settle w.regs i.res) w.since := follows_settle sane.follows
  constructor
  · exact timed.kept fast int clean (ends_of_follows follows) idle_of_stopped
  · rcases machine_edge hz posLane w.regs i with stopped | ⟨running, -, steps⟩
    · change Follows hz posLane (edge hz posLane (settle w.regs i.res) i) _
      rw [Follows, stopped]
      intro ok
      cases ok
    · change Follows hz posLane (edge hz posLane (settle w.regs i.res) i) (w.since.see (settle w.regs i.res))
      rw [CleanAt, running] at clean
      rw [running] at timed follows ⊢
      exact follows_edge_of steps timed clean follows
  · intro ok
    change (edge hz posLane (settle w.regs i.res) i).machine.parityOk = true at ok
    change (edge hz posLane (settle w.regs i.res) i).machine.state = .idle
    rcases machine_edge hz posLane w.regs i with stopped | ⟨running, -, steps⟩
    · rw [stopped]
      rfl
    · rw [running, steps] at ok ⊢
      exact confined_nextMachine ok
  · exact sane.stored_clock

theorem sane_reset (hz : Nat) (posLane : Bool) (w : World) (reset : i.res = true) :
    Sane hz posLane (w.clock hz posLane i) := by
  have stopped : (i.res || w.regs.isTimeout) = true := by rw [reset, Bool.true_or]
  have machine : (w.clock hz posLane i).regs.machine = w.regs.machine.reset :=
    (if_pos stopped).trans (settle_stopped stopped)
  constructor
  · intro g _
    exact Or.inl (by rw [machine]; rfl)
  · rw [Follows, machine]
    intro ok
    cases ok
  · intro _
    rw [machine]
    rfl
  · intro ready
    have low : (w.clock hz posLane i).regs.rcvRdy = false := by
      simp [World.clock, Decoder.clock, edge, settle, reset, Machine.reset]
    rw [low] at ready
    cases ready

theorem back_to_idle (noRes : i.res = false) (busy : w.regs.machine.state ≠ .idle)
    (back : (w.clock hz posLane i).regs.machine.state = .idle) :
    (w.clock hz posLane i).regs.machine.parityOk = true ∨ (w.clock hz posLane i).regs.rcvError = true ∨
      w.regs.machine.state = .sync1or2 := by
  by_cases timeout : w.regs.isTimeout = true
  · refine Or.inr (Or.inl ?_)
    simp [World.clock, Decoder.clock, edge, settle, noRes, timeout]
  · have running : settle w.regs false = w.regs := settle_running (by simpa using timeout)
    have steps : (w.clock hz posLane i).regs.machine = nextMachine posLane w.regs := by
      simp [World.clock, Decoder.clock, noRes, running, edge, timeout]
    have error (state : w.regs.machine.state = .err) : (w.clock hz posLane i).regs.rcvError = true := by
      simp [World.clock, Decoder.clock, noRes, running, edge, state]
    rw [steps] at back ⊢
    cases state : w.regs.machine.state with
    | idle => exact absurd state busy
    | sync1or2 => exact Or.inr (Or.inr rfl)
    | sync2orData =>
      simp only [nextMachine, state] at back
      split_ifs at back
      simp [Machine.lower, state] at back
    | data =>
      simp only [nextMachine, state] at back
      split_ifs at back <;> simp [Machine.lower, state] at back
    | parity =>
      rw [nextMachine_parity state] at back ⊢
      split at back
      next leaving =>
        rw [if_pos leaving]
        split at back
        next odd =>
          rw [if_pos odd]
          exact Or.inl rfl
        next => cases back
      next => exact absurd back busy
    | err => exact Or.inr (Or.inl (error state))

theorem isTimeout_edge (three : 3 ≤ timeoutTimeCnt hz) (reached : r.count = timeoutTimeCnt hz) :
    (edge hz posLane r i).isTimeout = true := by
  have late : timeoutTimeCnt hz ≠ timeoutTimeCnt hz - 3 := by omega
  simp [edge, reached, late]

theorem counted_clock (three : 3 ≤ timeoutTimeCnt hz) (counted : Counted hz r) :
    Counted hz (Decoder.clock hz posLane r i) := by
  intro busy early
  change (edge hz posLane (settle r i.res) i).machine.state ≠ .idle at busy
  change (edge hz posLane (settle r i.res) i).isTimeout = false at early
  change nextCount hz (settle r i.res) ≤ timeoutTimeCnt hz
  rcases machine_edge hz posLane r i with stopped | ⟨same, running, -⟩
  · rw [stopped] at busy
    exact absurd rfl busy
  · rw [same] at early ⊢
    rw [nextCount]
    split_ifs with starts high
    · exact Nat.zero_le _
    all_goals
      have within : r.count ≤ timeoutTimeCnt hz := by
        refine counted (fun idle => starts ?_) running
        simp [idle]
    · exact within
    · have before : r.count ≠ timeoutTimeCnt hz := by
        intro reached
        rw [isTimeout_edge three reached] at early
        cases early
      omega

theorem left_clock (three : 3 ≤ timeoutTimeCnt hz) (counted : Counted hz r) (still : edgeDetect r = false) :
    left hz (Decoder.clock hz posLane r i) ≤ left hz r - 1 := by
  by_cases reached : (edge hz posLane (settle r i.res) i).machine.state = .idle
  · rw [left, Decoder.clock, if_pos reached]
    exact Nat.zero_le _
  · rcases machine_edge hz posLane r i with stopped | ⟨same, running, steps⟩
    · rw [stopped] at reached
      exact absurd rfl reached
    · rw [same, steps] at reached
      have busy : r.machine.state ≠ .idle := by
        intro idle
        simp [nextMachine, idle, still] at reached
      have early := counted busy running
      rw [left, left, Decoder.clock, same, steps, if_neg reached, if_neg busy, running]
      by_cases last : r.count = timeoutTimeCnt hz
      · rw [isTimeout_edge three last, if_pos rfl, last]
        simp
      · have counts : (edge hz posLane r i).count =
          r.count + 1 := by simp [edge, nextCount, still, busy, not_stopped early]
        simp only [counts, Bool.false_eq_true, if_false]
        split <;> omega

theorem idle_of_left (counted : Counted hz r) (none : left hz r = 0) : r.machine.state = .idle := by
  by_contra busy
  rw [left, if_neg busy] at none
  split at none
  · cases none
  next running =>
    have early := counted busy (Bool.eq_false_of_not_eq_true running)
    omega

theorem level_quiet {a b c : Inputs} (quiet : ∀ i ∈ [a, b, c], i.manchesterIn = level) :
    Level (!level) ([a, b, c].foldl (World.clock hz posLane) w).regs := by
  refine ⟨?_, ?_, ?_⟩
  · exact congrArg (!·) (quiet c (by simp))
  · exact congrArg (!·) (quiet b (by simp))
  · exact congrArg (!·) (quiet a (by simp))

theorem Level.clock (flat : Level (!level) r) (quiet : i.manchesterIn = level) :
    Level (!level) (Decoder.clock hz posLane r i) :=
  ⟨congrArg (!·) quiet, flat.1, flat.2.1⟩

theorem Level.still (flat : Level level r) : edgeDetect r = false := by
  obtain ⟨-, one, two⟩ := flat
  rw [edgeDetect, one, two]
  cases level <;> rfl

theorem idle_of_quiet (three : 3 ≤ timeoutTimeCnt hz) (counted : Counted hz w.regs) {quiet : List Inputs}
    (flat : ∀ i ∈ quiet, i.manchesterIn = level) (enough : timeoutTimeCnt hz + 5 ≤ quiet.length) :
    (quiet.foldl (World.clock hz posLane) w).regs.machine.state = .idle := by
  obtain ⟨a, b, c, rest, rfl⟩ : ∃ a b c rest, quiet = [a, b, c] ++ rest := by
    match quiet, enough with
    | a :: b :: c :: rest, _ => exact ⟨a, b, c, rest, rfl⟩
  rw [List.foldl_append]
  have first : Level (!level) ([a, b, c].foldl (World.clock hz posLane) w).regs :=
    level_quiet fun i listed => flat i (List.mem_append_left rest listed)
  have counts : Counted hz ([a, b, c].foldl (World.clock hz posLane) w).regs :=
    counted_clock three (counted_clock three (counted_clock three counted))
  have along : Along (World.clock hz posLane) (fun _ i => True ∧ i.manchesterIn = level)
    ([a, b, c].foldl (World.clock hz posLane) w) rest :=
    (along_true _ _ rest).and fun i listed _ => flat i (List.mem_append_right [a, b, c] listed)
  have keeps {w : World} {i : Inputs} (holds : Level (!level) w.regs ∧ Counted hz w.regs)
    (here : True ∧ i.manchesterIn = level) :
      Level (!level) (w.clock hz posLane i).regs ∧ Counted hz (w.clock hz posLane i).regs :=
    ⟨holds.1.clock here.2, counted_clock three holds.2⟩
  have room : left hz ([a, b, c].foldl (World.clock hz posLane) w).regs ≤ timeoutTimeCnt hz + 2 := by
    rw [left]
    split_ifs <;> omega
  have ended : left hz (rest.foldl (World.clock hz posLane) ([a, b, c].foldl (World.clock hz posLane) w)).regs = 0 := by
    refine along.settles (fun w => Level (!level) w.regs ∧ Counted hz w.regs) (fun w => left hz w.regs)
      ⟨first, counts⟩ keeps ?_ ?_
    · exact fun holds _ => left_clock three holds.2 holds.1.still
    · rw [List.length_append] at enough
      change 3 + rest.length ≥ _ at enough
      omega
  exact idle_of_left (along.invariant (fun w => Level (!level) w.regs ∧ Counted hz w.regs) ⟨first,
    counts⟩ keeps).2 ended

structure Sound (hz : Nat) (posLane : Bool) (w : World) : Prop where
  /-- `S_Parity_Ok` stands for a message. -/
  reported : w.regs.machine.parityOk = true →
    Word hz posLane w.since (w.regs.shift.extractLsb' 1 16) w.regs.machine.isCmd
  /-- `S_Rcv_Rdy` stands for the message reported last. -/
  stored : w.regs.rcvRdy = true → Word hz posLane w.last w.regs.rcvData w.regs.isCmdMemory
  /-- Idle is reached with a word, with an error, or when the first gap is not that of a sync. -/
  returns : ∀ i : Inputs, i.res = false → w.regs.machine.state ≠ .idle →
    (w.clock hz posLane i).regs.machine.state = .idle →
    (w.clock hz posLane i).regs.machine.parityOk = true ∨ (w.clock hz posLane i).regs.rcvError = true ∨
      w.regs.machine.state = .sync1or2
  /-- Without edges it is reached within the timeout. -/
  ends : ∀ (level : Bool) (quiet : List Inputs), (∀ i ∈ quiet, i.manchesterIn = level) →
    timeoutTimeCnt hz + 5 ≤ quiet.length →
    (quiet.foldl (World.clock hz posLane) w).regs.machine.state = .idle

/-- A word is reported for the edges of a message only, as long as each edge comes while the flags
stand; other edges end in an error or in idle. -/
theorem words_sound (hz : Nat) (posLane : Bool) (fast : 20000000 ≤ hz) (int : hz < 2 ^ 31)
    (start : World) (reset : Inputs)
    (res : reset.res = true) (inputs : List Inputs)
    (clean : Along (World.clock hz posLane) (CleanAt hz) (start.clock hz posLane reset) inputs) :
    Sound hz posLane (inputs.foldl (World.clock hz posLane) (start.clock hz posLane reset)) := by
  have three := three_le_timeout fast int
  have counts : Counted hz (start.clock hz posLane reset).regs := by
    have stopped : (reset.res || start.regs.isTimeout) = true := by rw [res, Bool.true_or]
    intro busy
    exact absurd (congrArg Machine.state ((if_pos stopped).trans (settle_stopped stopped))) busy
  have kept := clean.invariant (fun w => Sane hz posLane w ∧ Counted hz w.regs)
    ⟨sane_reset hz posLane start res, counts⟩
    fun holds here => ⟨holds.1.clock fast int here, counted_clock three holds.2⟩
  obtain ⟨sane, counted⟩ := kept
  constructor
  · intro ok
    have follows := sane.follows
    rw [Follows, sane.confined ok] at follows
    exact follows ok
  · exact sane.stored
  · exact fun i noRes busy back => back_to_idle noRes busy back
  · exact fun level quiet flat enough => idle_of_quiet three counted flat enough

/-- The line at one level. It is inverted at the input. -/
def held (level : Bool) (clocks : Nat) : List Inputs := List.replicate clocks ⟨!level, false, false⟩

def coded (bits : List Bool) : List Inputs := bits.flatMap fun bit => held (!bit) 10 ++ held bit 10

/-- The line rests at one, and a data sync begins. -/
def called : List Inputs := held true 5 ++ held false 30

def resetClock : Inputs := ⟨false, false, true⟩

def powerUp : World :=
  ⟨⟨⟨.idle, false, false, false, false, fun _ => false⟩, true, true, true, 0, fun _ => false, false,
    false, false, 0, false, 0,
    false, false, false, false⟩, ⟨false, []⟩, ⟨false, []⟩⟩

/-- The decoder on the positive lane at 20 MHz, from power-up. -/
def received (inputs : List Inputs) : World :=
  inputs.foldl (World.clock 20000000 true) (powerUp.clock 20000000 true resetClock)

theorem words_sound_data : (received (called ++ coded (messageBits 0x1234 false) ++
    held true 15)).regs.rcvData = 0x1234 ∧
    Sound 20000000 true (received (called ++ coded (messageBits 0x1234 false) ++ held true 15)) :=
  ⟨by decide +kernel, words_sound 20000000 true (by decide) (by decide) powerUp resetClock rfl _ (by decide +kernel)⟩

def glitched : List Inputs :=
  called ++ coded (messageBits 0x1235 true).dropLast ++ held false 10 ++ held true 4 ++ held false 4 ++ held true 17

/-- The gaps of the glitch are in no window. -/
theorem glitch_reported : (received glitched).regs.rcvRdy = true ∧ (received glitched).regs.rcvData = 0x1235 ∧
    ∃ reading ∈ (received glitched).last.readings, ∀ g : Gap, ¬Within 20000000 reading g.halves := by
  refine ⟨by decide +kernel, by decide +kernel, 3, by decide +kernel, ?_⟩
  intro g
  unfold Within
  cases g <;> decide

end BelProject.Mil.Soundness
