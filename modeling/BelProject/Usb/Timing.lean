import BelProject.Library.Dwell
import BelProject.Library.Traces
import BelProject.Usb.Turns
import Mathlib.Data.Nat.Log

/-! The times of the EZ-USB chip on the bus of `ez_usb_fifos`, in clocks of the FPGA. -/

namespace BelProject.Usb.Timing
open EzUsbFifos Library.Dwell Library.Traces
open Turns (defaults)
open Registers (addr fdO fdOen pktendn sloen slrdn slwrn)

variable {num width : Nat} [NeZero num]

section
variable (s : ℕ → Registers num width)

/-- A pin goes down with a rising edge of the clock. -/
def Falls (pin : Registers num width → Bool) (t : ℕ) : Prop := pin (s t) = true ∧ pin (s (t + 1)) = false

def Rises (pin : Registers num width → Bool) (t : ℕ) : Prop := pin (s t) = false ∧ pin (s (t + 1)) = true

def Changes {α : Type} (value : Registers num width → α) (t : ℕ) : Prop := value (s (t + 1)) ≠ value (s t)

def StrobeFalls (t : ℕ) : Prop :=
  Falls s slrdn t ∨ Falls s slwrn t ∨ Falls s pktendn t

def StrobeRises (t : ℕ) : Prop :=
  Rises s slrdn t ∨ Rises s slwrn t ∨ Rises s pktendn t

/-- The data pins are taken into `fd_r`. -/
def Latches (t : ℕ) : Prop := (s t).state = .latchData ∧ (s t).count = 0

def Decides (t : ℕ) : Prop := (s t).state = .dispatch

/-- New data on the bus, or data that was not driven before. -/
def DataComes (t : ℕ) : Prop := Changes s fdO t ∨ Rises s fdOen t

def DataGoes (t : ℕ) : Prop := Changes s fdO t ∨ Falls s fdOen t

/-- From a first edge to a second one, less so many clocks, it takes at least so many ns and the
margin. -/
def Apart (g : Generics) (lag ns : Int) (first second : ℕ → Prop) : Prop :=
  ∀ a b : ℕ, a ≤ b → first a → second b → ns + g.margin ≤ (b - lag - a) * g.clockPeriod

end

def cMaxCount (g : Generics) : Int :=
  max cLatchFlags (max cDispatch (max (cSetAddr g)
    (max (cDriveRead g) (max (cLatchData g) (max (cIdleRead g) (max (cDriveWrite g)
    (max (cIdleWrite g) (max (cIdleData g) (max (cDrivePktend g) (cIdlePktend g))))))))))

/-- The constraints, under the names of the constants. The flags that decide in a clock are those
of the pins two clocks before. -/
structure Timely (g : Generics) (fCeilLog2 : ℕ → ℕ) (s : ℕ → Registers num width) (inputs : ℕ →
    Inputs num width) : Prop where
  sampled : ∀ t, Decides s t → ∃ k, t = k + 2 ∧
    (s t).notready.2 = (inputs k).readyn ∧ (s t).notfull.2 = (inputs k).fulln ∧ (s t).notempty.2 = (inputs k).emptyn
  tXFLGa : Apart g 2 (11 + g.boardDelay * 2) (Changes s addr) (Decides s)
  tXFLGr : Apart g 2 (70 + 10 + g.boardDelay * 2) (Falls s slrdn) (Decides s)
  tXFLGw : Apart g 2 (70 + 10 + g.boardDelay * 2) (Falls s slwrn) (Decides s)
  tXFLGe : Apart g 2 (115 + g.boardDelay * 2) (Falls s pktendn) (Decides s)
  tSFA : Apart g 0 10 (Changes s addr) (StrobeFalls s)
  tFAH : Apart g 0 10 (StrobeRises s) (Changes s addr)
  tRDpwl : Apart g 0 50 (Falls s slrdn) (Rises s slrdn)
  tRDpwh : Apart g 0 50 (Rises s slrdn) (Falls s slrdn)
  tXFD : Apart g 0 (15 + g.boardDelay * 2) (Falls s slrdn) (Latches s)
  tOEon : Apart g 0 (11 + g.boardDelay * 2) (Falls s sloen) (Latches s)
  tOEoff : Apart g 0 11 (Rises s sloen) (Rises s fdOen)
  tWRpwl : Apart g 0 50 (Falls s slwrn) (Rises s slwrn)
  tWRpwh : Apart g 0 70 (Rises s slwrn) (Falls s slwrn)
  tSFD : Apart g 0 10 (DataComes s) (Rises s slwrn)
  tFDH : Apart g 0 10 (Rises s slwrn) (DataGoes s)
  tPEpwl : Apart g 0 50 (Falls s pktendn) (Rises s pktendn)
  tPEpwh : Apart g 0 50 (Rises s pktendn) (Falls s pktendn)
  /-- data are only taken while the chip drives them, and only written while they are driven -/
  taken : ∀ t, Latches s t → (s t).slrdn = false ∧ (s t).sloen = false
  written : ∀ t, Rises s slwrn t → (s t).fdOen = true
  count : ∀ t, (s t).count < 2 ^ fCeilLog2 (cMaxCount g).toNat

/-- What the machine does behind a dispatch. -/
inductive Branch where
  | shared | address | read | write | pktend
  deriving DecidableEq

def branch : FsmState → Branch
  | .latchFlags | .dispatch => .shared
  | .setAddr => .address
  | .driveRead | .latchData | .idleRead => .read
  | .driveWrite | .idleWrite | .idleData => .write
  | .drivePktend | .idlePktend => .pktend

def rank : FsmState → ℕ
  | .latchFlags | .setAddr | .driveRead | .driveWrite | .drivePktend => 0
  | .dispatch | .latchData | .idleWrite | .idlePktend => 1
  | .idleRead | .idleData => 2

def Follows : FsmState → FsmState → Prop
  | .latchFlags, next => next = .dispatch
  | .dispatch, next => branch next ≠ .shared ∧ rank next = 0
  | .driveRead, next => next = .latchData
  | .latchData, next => next = .idleRead
  | .driveWrite, next => next = .idleWrite
  | .idleWrite, next => next = .idleData
  | .drivePktend, next => next = .idlePktend
  | .setAddr, next | .idleRead, next | .idleData, next | .idlePktend, next => next = .latchFlags

section
variable (g : Generics)

def offset : FsmState → Int
  | .latchFlags => 0
  | .dispatch => cycles g .latchFlags
  | .setAddr | .driveRead | .driveWrite | .drivePktend => cycles g .latchFlags + cycles g .dispatch
  | .latchData => cycles g .latchFlags + cycles g .dispatch + cycles g .driveRead
  | .idleRead => cycles g .latchFlags + cycles g .dispatch + cycles g .driveRead + cycles g .latchData
  | .idleWrite => cycles g .latchFlags + cycles g .dispatch + cycles g .driveWrite
  | .idleData => cycles g .latchFlags + cycles g .dispatch + cycles g .driveWrite + cycles g .idleWrite
  | .idlePktend => cycles g .latchFlags + cycles g .dispatch + cycles g .drivePktend

def turn : Branch → Int
  | .shared => 0
  | .address => cycles g .latchFlags + cycles g .dispatch + cycles g .setAddr
  | .read => cycles g .latchFlags + cycles g .dispatch + cycles g .driveRead + cycles g .latchData + cycles g .idleRead
  | .write => cycles g .latchFlags + cycles g .dispatch + cycles g .driveWrite + cycles g .idleWrite +
      cycles g .idleData
  | .pktend => cycles g .latchFlags + cycles g .dispatch + cycles g .drivePktend + cycles g .idlePktend

/-- The clocks from one state to another, which is a later one of the same branch or comes with a
later dispatch. -/
def reach (home state : FsmState) : Int :=
  if branch state = branch home ∧ rank home ≤ rank state then offset g state - offset g home
  else turn g (branch home) - offset g home + offset g state

end

section
variable {g : Generics} {r : Registers num width} {i : Inputs num width} {inputs : ℕ → Inputs num width}

theorem clock_stays (inside : r.count < cycles g r.state) :
    ((clock g r i).state = r.state ∧ (clock g r i).count = r.count + 1) ∨
      (r.count + 1 = cycles g r.state ∧ Follows r.state (clock g r i).state ∧ (clock g r i).count = 0) := by
  cases ends : expires g r with
  | true =>
    have last := Ports.expires_iff.mp ends
    right
    refine ⟨last, ?_⟩
    cases state : r.state with
    | dispatch =>
      simp only [clock, fsm, state, Follows, and_true]
      split_ifs <;> exact ⟨Branch.noConfusion, rfl⟩
    | _ => simp [clock, fsm, state, countNext, ends, Follows]
  | false =>
    have other : r.count + 1 ≠ cycles g r.state := fun last => by
      rw [Ports.expires_iff.mpr last] at ends
      cases ends
    cases state : r.state with
    | dispatch =>
      rw [state] at inside other
      exact absurd (Nat.lt_one_iff.mp inside) (fun zero => other (by rw [zero]; rfl))
    | _ => simp [clock, fsm, state, countNext, ends]

theorem count_trace (notready notempty notfull : Bool × Bool) (inputs : ℕ → Inputs num width) (t : ℕ) :
    (trace (clock g) (reset notready notempty notfull) inputs t).count <
      cycles g (trace (clock g) (reset notready notempty notfull) inputs t).state := by
  induction t with
  | zero => exact cycles_pos g .latchFlags
  | succ t ih => exact Ports.count_clock ih

theorem trace_dwells (notready notempty notfull : Bool × Bool) (inputs : ℕ → Inputs num width) :
    Run (cycles g) Follows (fun t => (trace (clock g) (reset notready notempty notfull) inputs t).state)
      (fun t => (trace (clock g) (reset notready notempty notfull) inputs t).count) where
  start := rfl
  step := fun t => clock_stays (count_trace notready notempty notfull inputs t)

theorem reach_home (home : FsmState) : reach g home home = 0 := by
  rw [reach, if_pos ⟨rfl, Nat.le_refl _⟩, Int.sub_self]

theorem offset_nonneg (state : FsmState) : 0 ≤ offset g state := by
  cases state <;> simp only [offset] <;> omega

theorem turn_nonneg (branch : Branch) : 0 ≤ turn g branch := by
  cases branch <;> simp only [turn] <;> omega

theorem follows_offset {state next : FsmState} (follows : Follows state next) :
    (offset g next = offset g state + cycles g state ∧
        (branch next = branch state ∧ rank next = rank state + 1 ∨ branch state = .shared ∧ branch next ≠ .shared)) ∨
      (next = .latchFlags ∧ turn g (branch state) = offset g state + cycles g state) := by
  cases state with
  | dispatch =>
    obtain ⟨turns, front⟩ := follows
    refine Or.inl ⟨?_, Or.inr ⟨rfl, turns⟩⟩
    cases next with
    | setAddr | driveRead | driveWrite | drivePktend => rfl
    | latchFlags | dispatch => exact absurd rfl turns
    | latchData | idleRead | idleWrite | idleData | idlePktend => cases front
  | latchFlags =>
    obtain rfl := follows
    exact Or.inl ⟨(Int.zero_add _).symm, Or.inl ⟨rfl, rfl⟩⟩
  | driveRead | latchData | driveWrite | idleWrite | drivePktend =>
    obtain rfl := follows
    exact Or.inl ⟨rfl, Or.inl ⟨rfl, rfl⟩⟩
  | setAddr | idleRead | idleData | idlePktend =>
    obtain rfl := follows
    exact Or.inr ⟨rfl, rfl⟩

theorem reach_reaches (home : FsmState) (turns : branch home ≠ .shared) :
    Reach (cycles g) Follows home (reach g home) where
  home := Int.le_of_eq (reach_home home)
  next := by
    intro state next follows
    have whole := turn_nonneg (g := g) (branch home)
    rcases follows_offset (g := g) follows with ⟨sum, place⟩ | ⟨rfl, last⟩
    · by_cases behind : branch next = branch home ∧ rank home ≤ rank next
      · rw [reach, if_pos behind, reach]
        split_ifs <;> omega
      · have before : ¬(branch state = branch home ∧ rank home ≤ rank state) := by
          rintro ⟨same, order⟩
          rcases place with ⟨kept, more⟩ | ⟨shared, _⟩
          · exact behind ⟨kept.trans same, by omega⟩
          · exact turns (same.symm.trans shared)
        rw [reach, if_neg behind, reach, if_neg before]
        omega
    · have other : ¬(branch .latchFlags = branch home ∧ rank home ≤ rank .latchFlags) := fun both => turns both.1.symm
      have start : offset g .latchFlags = 0 := rfl
      have some := offset_nonneg (g := g) state
      rw [reach, if_neg other, reach]
      split_ifs with inside
      · rw [inside.1] at last
        omega
      · omega

/-- One state takes the pin down, another one up, and the others leave it. -/
def Driven (g : Generics) (pin : Registers num width → Bool) (low high : FsmState) : Prop :=
  ∀ r i, pin (clock g r i) = if r.state = low then false else if r.state = high then true else pin r

theorem sloen_driven : Driven g (sloen : Registers num width → Bool) .driveRead .latchData := by
  intro r i
  cases state : r.state <;> simp [clock, fsm, state]

theorem slrdn_driven : Driven g (slrdn : Registers num width → Bool) .driveRead .idleRead := by
  intro r i
  cases state : r.state <;> simp [clock, fsm, state]

theorem slwrn_driven : Driven g (slwrn : Registers num width → Bool) .driveWrite .idleWrite := by
  intro r i
  cases state : r.state <;> simp [clock, fsm, state]

theorem pktendn_driven : Driven g (pktendn : Registers num width → Bool) .drivePktend .idlePktend := by
  intro r i
  cases state : r.state <;> simp [clock, fsm, state]

theorem fdOen_driven : Driven g (fdOen : Registers num width → Bool) .idleData .driveWrite := by
  intro r i
  cases state : r.state <;> simp [clock, fsm, state]

section
variable {start : Registers num width} {pin : Registers num width → Bool} {low high : FsmState} {t : ℕ}

def Enters (s : ℕ → Registers num width) (state : FsmState) (t : ℕ) : Prop := (s t).state = state ∧ (s t).count = 0

theorem before (run : Run (cycles g) Follows (fun t => (trace (clock g) start inputs t).state)
    (fun t => (trace (clock g) start inputs t).count))
    (later : (trace (clock g) start inputs t).count ≠ 0) :
    ∃ k, t = k + 1 ∧ (trace (clock g) start inputs k).state = (trace (clock g) start inputs t).state ∧
      trace (clock g) start inputs t = clock g (trace (clock g) start inputs k) (inputs k) := by
  obtain ⟨k, rfl, same, _⟩ := run.before later
  exact ⟨k, rfl, same, rfl⟩

variable (run : Run (cycles g) Follows (fun t => (trace (clock g) start inputs t).state)
  (fun t => (trace (clock g) start inputs t).count))
include run

theorem Driven.falls (driven : Driven g pin low high) (falls : Falls (trace (clock g) start inputs) pin t) :
    Enters (trace (clock g) start inputs) low t := by
  obtain ⟨up, down⟩ := falls
  rw [trace_succ, driven] at down
  have here : (trace (clock g) start inputs t).state = low := by
    by_contra other
    rw [if_neg other, up, ite_self] at down
    exact Bool.noConfusion down
  refine ⟨here, ?_⟩
  by_contra later
  obtain ⟨k, _, same, clocked⟩ := before run later
  rw [clocked, driven, if_pos (same.trans here)] at up
  exact Bool.noConfusion up

theorem Driven.rises (driven : Driven g pin low high) (rises : Rises (trace (clock g) start inputs) pin t) :
    Enters (trace (clock g) start inputs) high t := by
  obtain ⟨down, up⟩ := rises
  rw [trace_succ, driven] at up
  have other : (trace (clock g) start inputs t).state ≠ low := by
    intro same
    rw [if_pos same] at up
    exact Bool.noConfusion up
  rw [if_neg other] at up
  have here : (trace (clock g) start inputs t).state = high := by
    by_contra rest
    rw [if_neg rest, down] at up
    exact Bool.noConfusion up
  refine ⟨here, ?_⟩
  by_contra later
  obtain ⟨k, _, same, clocked⟩ := before run later
  rw [clocked, driven, if_neg (fun kept => other (same.symm.trans kept)), if_pos (same.trans here)] at down
  exact Bool.noConfusion down

theorem data_enters (changes : Changes (trace (clock g) start inputs) fdO t) :
    Enters (trace (clock g) start inputs) .driveWrite t := by
  have here : (trace (clock g) start inputs t).state = .driveWrite := by
    by_contra other
    apply changes
    rw [trace_succ]
    cases state : (trace (clock g) start inputs t).state with
    | driveWrite => exact absurd state other
    | _ => simp only [clock, fsm, state]
  refine ⟨here, ?_⟩
  by_contra later
  obtain ⟨k, _, same, clocked⟩ := before run later
  apply changes
  rw [trace_succ]
  simp only [clock, fsm, here]
  rw [clocked]
  simp only [clock, fsm, same.trans here]

omit run

theorem addr_enters (start : Registers num width) (inputs : ℕ → Inputs num width)
    (changes : Changes (trace (clock g) start inputs) addr t) :
    Enters (trace (clock g) start inputs) .setAddr t := by
  constructor
  · by_contra other
    exact changes (Ports.clock_addr other)
  · by_contra later
    apply changes
    rw [trace_succ]
    cases state : (trace (clock g) start inputs t).state <;> simp only [clock, fsm, state, if_neg later]

end

theorem le_fCycles (g : Generics) (ns : Int) : ns + g.margin ≤ fCycles g ns * g.clockPeriod := by
  have positive := g.positive
  rw [fCycles]
  split_ifs with none
  · omega
  · have rest : (ns + g.margin + g.clockPeriod - 1) % g.clockPeriod < g.clockPeriod := Int.emod_lt_of_pos _ positive
    have parts := Int.ediv_mul_add_emod (ns + g.margin + g.clockPeriod - 1) g.clockPeriod
    omega

def time (g : Generics) (state : FsmState) : Int := cycles g state * g.clockPeriod

variable {state : FsmState}

theorem le_time {ns : Int} (derived : cycles g state = (fCycles g ns).toNat) : ns + g.margin ≤ time g state := by
  rw [time, derived, Int.toNat_of_nonneg (fCycles_pos g ns).le]
  exact le_fCycles g ns

theorem time_fNs {clocks : Int} (derived : cycles g state = clocks.toNat) (some : 0 < clocks) :
    fNs g clocks = time g state := by
  rw [fNs, time, derived, Int.toNat_of_nonneg some.le]

theorem fNs_add (x y : Int) : fNs g (x + y) = fNs g x + fNs g y := Int.add_mul x y g.clockPeriod

theorem fNs_latchFlags : fNs g cLatchFlags = time g .latchFlags := time_fNs rfl (by decide)

theorem fNs_dispatch : fNs g cDispatch = time g .dispatch := time_fNs rfl (by decide)

theorem fNs_driveRead : fNs g (cDriveRead g) = time g .driveRead := time_fNs rfl (fCycles_pos g _)

theorem fNs_latchData : fNs g (cLatchData g) = time g .latchData := time_fNs rfl (fCycles_pos g _)

theorem fNs_driveWrite : fNs g (cDriveWrite g) = time g .driveWrite := time_fNs rfl (fCycles_pos g _)

theorem fNs_idleWrite : fNs g (cIdleWrite g) = time g .idleWrite := time_fNs rfl (fCycles_pos g _)

theorem fNs_drivePktend : fNs g (cDrivePktend g) = time g .drivePktend := time_fNs rfl (fCycles_pos g _)

theorem time_setAddr : max (11 + g.boardDelay * 2) (10 - (time g .latchFlags + time g .dispatch)) +
    g.margin ≤ time g .setAddr := by
  rw [← fNs_latchFlags, ← fNs_dispatch, ← fNs_add]
  exact le_time rfl

theorem time_driveRead : max 11 15 + g.boardDelay * 2 + g.margin ≤ time g .driveRead := le_time rfl

theorem time_latchData : 50 - time g .driveRead + g.margin ≤ time g .latchData := by
  rw [← fNs_driveRead]
  exact le_time rfl

theorem time_idleRead :
    max (50 - (time g .latchFlags + time g .dispatch))
      (max (70 + 10 + g.boardDelay * 2 - (time g .driveRead + time g .latchData))
        (max (11 - (time g .latchData + time g .latchFlags + time g .dispatch))
          (10 - (time g .latchFlags + time g .dispatch)))) +
      g.margin ≤ time g .idleRead := by
  rw [← fNs_latchFlags, ← fNs_dispatch, ← fNs_driveRead, ← fNs_latchData, ← fNs_add, ← fNs_add, ← fNs_add, ← fNs_add]
  exact le_time rfl

theorem time_driveWrite : max 50 10 + g.margin ≤ time g .driveWrite := le_time rfl

theorem time_idleWrite : 10 + g.margin ≤ time g .idleWrite := le_time rfl

theorem time_idleData :
    max (70 - (time g .latchFlags + time g .dispatch + time g .idleWrite))
      (max (70 + 10 + g.boardDelay * 2 - (time g .driveWrite + time g .idleWrite))
        (10 - (time g .idleWrite + time g .latchFlags + time g .dispatch))) + g.margin ≤ time g .idleData := by
  rw [← fNs_latchFlags, ← fNs_dispatch, ← fNs_driveWrite, ← fNs_idleWrite, ← fNs_add, ← fNs_add,
    ← fNs_add, ← fNs_add, ← fNs_add]
  exact le_time rfl

theorem time_drivePktend : 50 + g.margin ≤ time g .drivePktend := le_time rfl

theorem time_idlePktend :
    max (50 - (time g .latchFlags + time g .dispatch))
      (max (115 + g.boardDelay * 2 - time g .drivePktend) (10 - (time g .latchFlags + time g .dispatch))) + g.margin ≤
      time g .idlePktend := by
  rw [← fNs_latchFlags, ← fNs_dispatch, ← fNs_drivePktend, ← fNs_add]
  exact le_time rfl

section
variable (g : Generics)

theorem cycles_latchFlags : (cycles g .latchFlags : Int) = 2 := rfl

theorem cycles_dispatch : (cycles g .dispatch : Int) = 1 := rfl

theorem reach_within {home state : FsmState} (later : branch state = branch home ∧ rank home ≤ rank state) :
    reach g home state = offset g state - offset g home := if_pos later

theorem reach_around {home state : FsmState} (other : ¬(branch state = branch home ∧ rank home ≤ rank state)) :
    reach g home state = turn g (branch home) - offset g home + offset g state := if_neg other

theorem setAddr_bounds :
    (11 + g.boardDelay * 2 + g.margin ≤ (reach g .setAddr .dispatch - 2) * g.clockPeriod) ∧
      (10 + g.margin ≤ (reach g .setAddr .driveRead - 0) * g.clockPeriod) ∧
      (10 + g.margin ≤ (reach g .setAddr .driveWrite - 0) * g.clockPeriod) ∧
      (10 + g.margin ≤ (reach g .setAddr .drivePktend - 0) * g.clockPeriod) := by
  have adr := time_setAddr (g := g)
  simp only [time, cycles_latchFlags, cycles_dispatch] at adr
  simp (disch := decide) only [reach_around, branch, offset, turn, cycles_latchFlags, cycles_dispatch,
    Int.add_mul, Int.sub_mul]
  omega

theorem driveRead_bounds :
    (70 + 10 + g.boardDelay * 2 + g.margin ≤ (reach g .driveRead .dispatch - 2) * g.clockPeriod) ∧
      (50 + g.margin ≤ (reach g .driveRead .idleRead - 0) * g.clockPeriod) ∧
      (15 + g.boardDelay * 2 + g.margin ≤ (reach g .driveRead .latchData - 0) * g.clockPeriod) ∧
      (11 + g.boardDelay * 2 + g.margin ≤ (reach g .driveRead .latchData - 0) * g.clockPeriod) := by
  have drive := time_driveRead (g := g)
  have latch := time_latchData (g := g)
  have idle := time_idleRead (g := g)
  simp only [time, cycles_latchFlags, cycles_dispatch] at drive latch idle
  simp (disch := decide) only [reach_within, reach_around, branch, offset, turn, cycles_latchFlags,
    cycles_dispatch, Int.add_mul, Int.sub_mul]
  omega

theorem latchData_bound : 11 + g.margin ≤ (reach g .latchData .driveWrite - 0) * g.clockPeriod := by
  have idle := time_idleRead (g := g)
  simp only [time, cycles_latchFlags, cycles_dispatch] at idle
  simp (disch := decide) only [reach_around, branch, offset, turn, cycles_latchFlags, cycles_dispatch,
    Int.add_mul, Int.sub_mul]
  omega

theorem idleRead_bounds :
    (10 + g.margin ≤ (reach g .idleRead .setAddr - 0) * g.clockPeriod) ∧
      (50 + g.margin ≤ (reach g .idleRead .driveRead - 0) * g.clockPeriod) := by
  have idle := time_idleRead (g := g)
  simp only [time, cycles_latchFlags, cycles_dispatch] at idle
  simp (disch := decide) only [reach_around, branch, offset, turn, cycles_latchFlags, cycles_dispatch,
    Int.add_mul, Int.sub_mul]
  omega

theorem driveWrite_bounds :
    (70 + 10 + g.boardDelay * 2 + g.margin ≤ (reach g .driveWrite .dispatch - 2) * g.clockPeriod) ∧
      (50 + g.margin ≤ (reach g .driveWrite .idleWrite - 0) * g.clockPeriod) ∧
      (10 + g.margin ≤ (reach g .driveWrite .idleWrite - 0) * g.clockPeriod) := by
  have drive := time_driveWrite (g := g)
  have idle := time_idleData (g := g)
  simp only [time, cycles_latchFlags, cycles_dispatch] at drive idle
  simp (disch := decide) only [reach_within, reach_around, branch, offset, turn, cycles_latchFlags,
    cycles_dispatch, Int.add_mul, Int.sub_mul]
  omega

theorem idleWrite_bounds :
    (10 + g.margin ≤ (reach g .idleWrite .setAddr - 0) * g.clockPeriod) ∧
      (70 + g.margin ≤ (reach g .idleWrite .driveWrite - 0) * g.clockPeriod) ∧
      (10 + g.margin ≤ (reach g .idleWrite .driveWrite - 0) * g.clockPeriod) ∧
      (10 + g.margin ≤ (reach g .idleWrite .idleData - 0) * g.clockPeriod) := by
  have hold := time_idleWrite (g := g)
  have idle := time_idleData (g := g)
  simp only [time, cycles_latchFlags, cycles_dispatch] at hold idle
  simp (disch := decide) only [reach_within, reach_around, branch, offset, turn, cycles_latchFlags,
    cycles_dispatch, Int.add_mul, Int.sub_mul]
  omega

theorem drivePktend_bounds :
    (115 + g.boardDelay * 2 + g.margin ≤ (reach g .drivePktend .dispatch - 2) * g.clockPeriod) ∧
      (50 + g.margin ≤ (reach g .drivePktend .idlePktend - 0) * g.clockPeriod) := by
  have drive := time_drivePktend (g := g)
  have idle := time_idlePktend (g := g)
  simp only [time, cycles_latchFlags, cycles_dispatch] at drive idle
  simp (disch := decide) only [reach_within, reach_around, branch, offset, turn, cycles_latchFlags,
    cycles_dispatch, Int.add_mul, Int.sub_mul]
  omega

theorem idlePktend_bounds :
    (10 + g.margin ≤ (reach g .idlePktend .setAddr - 0) * g.clockPeriod) ∧
      (50 + g.margin ≤ (reach g .idlePktend .drivePktend - 0) * g.clockPeriod) := by
  have idle := time_idlePktend (g := g)
  simp only [time, cycles_latchFlags, cycles_dispatch] at idle
  simp (disch := decide) only [reach_around, branch, offset, turn, cycles_latchFlags, cycles_dispatch,
    Int.add_mul, Int.sub_mul]
  omega

end

theorem apart {start : Registers num width} {home state : FsmState} {lag ns : Int} {first second : ℕ → Prop}
    (run : Run (cycles g) Follows (fun t => (trace (clock g) start inputs t).state)
      (fun t => (trace (clock g) start inputs t).count))
    (turns : branch home ≠ .shared) (leaves : ∀ a, first a → Enters (trace (clock g) start inputs) home a)
    (comes : ∀ b, second b → Enters (trace (clock g) start inputs) state b)
    (bound : ns + g.margin ≤ (reach g home state - lag) * g.clockPeriod) : Apart g lag ns first second := by
  intro a b later begins ends
  have far := (reach_reaches (g := g) home turns).first run (leaves a begins) (comes b ends) later
  calc
    ns + g.margin ≤ (reach g home state - lag) * g.clockPeriod := bound
    _ ≤ (b - lag - a) * g.clockPeriod := by
      apply Int.mul_le_mul_of_nonneg_right _ g.positive.le
      omega

theorem Apart.or_right {lag ns : Int} {first second second' : ℕ → Prop} (one : Apart g lag ns first second)
    (other : Apart g lag ns first second') : Apart g lag ns first fun t => second t ∨ second' t := by
  intro a b later begins ends
  rcases ends with ends | ends
  · exact one a b later begins ends
  · exact other a b later begins ends

theorem Apart.or_left {lag ns : Int} {first first' second : ℕ → Prop} (one : Apart g lag ns first second)
    (other : Apart g lag ns first' second) : Apart g lag ns (fun t => first t ∨ first' t) second := by
  intro a b later begins ends
  rcases begins with begins | begins
  · exact one a b later begins ends
  · exact other a b later begins ends

section
variable (notready notempty notfull : Bool × Bool) (inputs : ℕ → Inputs num width)

def fromReset (g : Generics) (t : ℕ) : Registers num width := trace (clock g) (reset notready notempty notfull) inputs t

theorem decides_enters {t : ℕ} (decides : Decides (fromReset notready notempty notfull inputs g) t) :
    Enters (fromReset notready notempty notfull inputs g) .dispatch t := by
  have bound := count_trace (g := g) notready notempty notfull inputs t
  change (fromReset notready notempty notfull inputs g t).count <
    cycles g (fromReset notready notempty notfull inputs g t).state at bound
  rw [show (fromReset notready notempty notfull inputs g t).state = .dispatch from decides] at bound
  exact ⟨decides, Nat.lt_one_iff.mp bound⟩

theorem decides_late {t : ℕ} (decides : Decides (fromReset notready notempty notfull inputs g) t) : ∃ k, t = k + 2 := by
  match t with
  | 0 => cases decides
  | 1 => cases decides
  | k + 2 => exact ⟨k, rfl⟩

theorem follows_latchData (follows : Follows state .latchData) : state = .driveRead := by
  cases state <;> simp_all [Follows, rank]

theorem follows_idleWrite (follows : Follows state .idleWrite) : state = .driveWrite := by
  cases state <;> simp_all [Follows, rank]

theorem cycles_le_max (g : Generics) (state : FsmState) : cycles g state ≤ (cMaxCount g).toNat := by
  cases state with
  | latchFlags => exact Int.toNat_le_toNat (le_max_left cLatchFlags _)
  | dispatch => exact Int.toNat_le_toNat (le_max_of_le_right (le_max_left cDispatch _))
  | _ => exact Int.toNat_le_toNat (by simp [cMaxCount])

theorem latches_driven {t : ℕ} (latches : Latches (fromReset notready notempty notfull inputs g) t) :
    (fromReset notready notempty notfull inputs g t).slrdn = false ∧
    (fromReset notready notempty notfull inputs g t).sloen = false := by
  have late : t ≠ 0 := by
    rintro rfl
    cases latches.1
  obtain ⟨k, rfl, follows⟩ := (trace_dwells notready notempty notfull inputs).came latches late
  have from_ : (fromReset notready notempty notfull inputs g k).state = .driveRead := follows_latchData follows
  constructor
  · exact (slrdn_driven _ _).trans (if_pos from_)
  · exact (sloen_driven _ _).trans (if_pos from_)

theorem idleWrite_driven {t : ℕ} (enters : Enters (fromReset notready notempty notfull inputs g) .idleWrite t) :
    (fromReset notready notempty notfull inputs g t).fdOen = true := by
  have late : t ≠ 0 := by
    rintro rfl
    cases enters.1
  obtain ⟨k, rfl, follows⟩ := (trace_dwells notready notempty notfull inputs).came enters late
  have from_ : (fromReset notready notempty notfull inputs g k).state = .driveWrite := follows_idleWrite follows
  have other : (fromReset notready notempty notfull inputs g k).state ≠ .idleData := by
    rw [from_]
    decide
  exact (fdOen_driven _ _).trans ((if_neg other).trans (if_pos from_))

/-- For each clock period, board delay and margin, in every run from a reset on. -/
theorem run_timely (g : Generics) (fCeilLog2 : ℕ → ℕ) (wide : ∀ x, x ≤ 2 ^ fCeilLog2 x) :
    Timely g fCeilLog2 (fromReset notready notempty notfull inputs g) inputs := by
  have run := trace_dwells (g := g) notready notempty notfull inputs
  have adr := fun t => addr_enters (g := g) (reset notready notempty notfull) inputs (t := t)
  have data := fun t => data_enters (t := t) run
  have oeFalls := fun t => (sloen_driven (g := g)).falls (t := t) run
  have oeRises := fun t => (sloen_driven (g := g)).rises (t := t) run
  have rdFalls := fun t => (slrdn_driven (g := g)).falls (t := t) run
  have rdRises := fun t => (slrdn_driven (g := g)).rises (t := t) run
  have wrFalls := fun t => (slwrn_driven (g := g)).falls (t := t) run
  have wrRises := fun t => (slwrn_driven (g := g)).rises (t := t) run
  have peFalls := fun t => (pktendn_driven (g := g)).falls (t := t) run
  have peRises := fun t => (pktendn_driven (g := g)).rises (t := t) run
  have fdFalls := fun t => (fdOen_driven (g := g)).falls (t := t) run
  have fdRises := fun t => (fdOen_driven (g := g)).rises (t := t) run
  have latches := fun t (latches : Latches (fromReset notready notempty notfull inputs g) t) => latches
  have decides := fun t => decides_enters (g := g) notready notempty notfull inputs (t := t)
  obtain ⟨adrFlags, adrRead, adrWrite, adrPktend⟩ := setAddr_bounds g
  obtain ⟨readFlags, readLow, readData, readOn⟩ := driveRead_bounds g
  obtain ⟨readAdr, readHigh⟩ := idleRead_bounds g
  obtain ⟨writeFlags, writeLow, writeData⟩ := driveWrite_bounds g
  obtain ⟨writeAdr, writeHigh, writeNext, writeHold⟩ := idleWrite_bounds g
  obtain ⟨pktendFlags, pktendLow⟩ := drivePktend_bounds g
  obtain ⟨pktendAdr, pktendHigh⟩ := idlePktend_bounds g
  exact
    { sampled := by
        intro t here
        obtain ⟨k, rfl⟩ := decides_late notready notempty notfull inputs here
        exact ⟨k, rfl, rfl, rfl, rfl⟩
      tXFLGa := apart run (by decide) adr decides adrFlags
      tXFLGr := apart run (by decide) rdFalls decides readFlags
      tXFLGw := apart run (by decide) wrFalls decides writeFlags
      tXFLGe := apart run (by decide) peFalls decides pktendFlags
      tSFA := (apart run (by decide) adr rdFalls adrRead).or_right
        ((apart run (by decide) adr wrFalls adrWrite).or_right (apart run (by decide) adr peFalls adrPktend))
      tFAH := (apart run (by decide) rdRises adr readAdr).or_left
        ((apart run (by decide) wrRises adr writeAdr).or_left (apart run (by decide) peRises adr pktendAdr))
      tRDpwl := apart run (by decide) rdFalls rdRises readLow
      tRDpwh := apart run (by decide) rdRises rdFalls readHigh
      tXFD := apart run (by decide) rdFalls latches readData
      tOEon := apart run (by decide) oeFalls latches readOn
      tOEoff := apart run (by decide) oeRises fdRises (latchData_bound g)
      tWRpwl := apart run (by decide) wrFalls wrRises writeLow
      tWRpwh := apart run (by decide) wrRises wrFalls writeHigh
      tSFD := (apart run (by decide) data wrRises writeData).or_left (apart run (by decide) fdRises wrRises writeData)
      tFDH := (apart run (by decide) wrRises data writeNext).or_right (apart run (by decide) wrRises fdFalls writeHold)
      tPEpwl := apart run (by decide) peFalls peRises pktendLow
      tPEpwh := apart run (by decide) peRises peFalls pktendHigh
      taken := fun _ here => latches_driven notready notempty notfull inputs here
      written := fun t here => idleWrite_driven notready notempty notfull inputs (wrRises t here)
      count := by
        intro t
        calc
          (fromReset notready notempty notfull inputs g t).count
            < cycles g (fromReset notready notempty notfull inputs g t).state :=
              count_trace notready notempty notfull inputs t
          _ ≤ (cMaxCount g).toNat := cycles_le_max g _
          _ ≤ 2 ^ fCeilLog2 (cMaxCount g).toNat := wide _ }

end

end

def idle : Inputs 4 8 :=
  { slave := fun _ => ⟨false, false, false, 0⟩, readyn := false, fulln := true, emptyn := false, fd := 0 }

theorem run_timely_defaults :
    Timely defaults (Nat.clog 2) (fromReset (true, true) (false, false) (false, false)
      (fun _ => idle) defaults) fun _ => idle :=
  run_timely (true, true) (false, false) (false, false) (fun _ => idle) defaults (Nat.clog 2)
    (Nat.le_pow_clog (by decide))

end BelProject.Usb.Timing
