import Mathlib.Tactic.Common
import BelProject.Usb.EzUsbFifos

/-! What each port and its FIFO see: a strobe is taken, there is one external access for it, and
one acknowledge; packet ends come in between. -/

namespace BelProject.Usb.Ports
open EzUsbFifos
open Function (update)

/-! ### The protocol of a port -/

structure Access (width : Nat) where
  we : Bool
  dat : BitVec width
  deriving DecidableEq

/-- What can be seen at a port or on the bus of the chip with the address of its FIFO. -/
inductive Event (width : Nat) where
  | accept (access : Access width)
  | write (dat : BitVec width)
  | read (dat : BitVec width)
  | ack (dat : BitVec width)
  | pktend
  deriving DecidableEq

/-- What a port waits for. The flag says whether data was written since the last packet end. -/
inductive Port (width : Nat) where
  | idle (unfinished : Bool)
  | pending (unfinished : Bool) (access : Access width)
  | finished (unfinished : Bool) (returns : Option (BitVec width))
  deriving DecidableEq

/-- The only order there is. A write carries the data of its access, and the acknowledge of a
read what the FIFO gave. -/
def Port.step {width : Nat} : Port width → Event width → Option (Port width)
  | .idle unfinished, .accept access => some (.pending unfinished access)
  | .idle true, .pktend => some (.idle false)
  | .pending _ ⟨true, dat⟩, .write written => if written = dat then some (.finished true none) else none
  | .pending unfinished ⟨false, _⟩, .read dat => some (.finished unfinished (some dat))
  | .finished unfinished none, .ack _ => some (.idle unfinished)
  | .finished unfinished (some dat), .ack shown => if shown = dat then some (.idle unfinished) else none
  | _, _ => none

/-- The port after a sequence of events, if it is one that can be. -/
def Port.run {width : Nat} (port : Port width) (events : List (Event width)) : Option (Port width) :=
  events.foldlM Port.step port

theorem Port.run_append {width : Nat} {port : Port width} {front back : List (Event width)} :
    port.run (front ++ back) = (port.run front).bind (·.run back) := List.foldlM_append ..

variable {num width : Nat} [NeZero num]

/-! ### The run -/

/-- Beside the registers, what the chip had on the data bus when its output enable was taken away,
and what each port has seen. -/
structure World (num width : Nat) where
  regs : Registers num width
  driven : BitVec width
  log : Fin num → List (Event width)

def accessOf (i : Inputs num width) (port : Fin num) : Access width :=
  ⟨(i.slave port).we, (i.slave port).dat.setWidth width⟩

/-- What the bus of the chip shows in one clock: a write or a read ends, or a packet end begins. -/
def external (driven : BitVec width) (r r' : Registers num width) : List (Event width) :=
  (if !r.slwrn && r'.slwrn then [.write r.fdO] else []) ++ (if !r.slrdn && r'.slrdn then [.read driven] else []) ++
    if r.pktendn && !r'.pktendn then [.pktend] else []

/-- What a port and its FIFO see in one clock. -/
def events (w : World num width) (i : Inputs num width) (r' : Registers num width) (port : Fin num) :
    List (Event width) :=
  (if accepts w.regs i port then [.accept (accessOf i port)] else []) ++
    (if w.regs.addr = port then external w.driven w.regs r' else []) ++
      if r'.ack port then [.ack (r'.dat4wb port)] else []

def step (g : Generics) (w : World num width) (i : Inputs num width) : World num width :=
  { regs := clock g w.regs i
    driven := if !w.regs.sloen && (clock g w.regs i).sloen then i.fd else w.driven
    log := fun port => w.log port ++ events w i (clock g w.regs i) port }

def run (g : Generics) (w : World num width) (inputs : List (Inputs num width)) : World num width :=
  inputs.foldl (step g) w

def start (notready notempty notfull : Bool × Bool) : World num width :=
  ⟨reset notready notempty notfull, 0, fun _ => []⟩

def stands (w : World num width) (port : Fin num) : Option (Port width) := (Port.idle false).run (w.log port)

/-! ### The ports and the machine -/

/-- A port that the machine is not working for. -/
def Resting (r : Registers num width) (port : Fin num) (at' : Option (Port width)) : Prop :=
  if r.request port then ∃ access, at' = some (.pending (r.needend port) access) ∧ access.we = r.write port ∧
    (access.we = true → access.dat = r.dat4usb port)
  else at' = some (.idle (r.needend port))

/-- The strobes to the chip, all inactive but for the named ones. -/
structure Strobes (r : Registers num width) (sloen slrdn slwrn pktendn : Bool) : Prop where
  sloen : r.sloen = sloen
  slrdn : r.slrdn = slrdn
  slwrn : r.slwrn = slwrn
  pktendn : r.pktendn = pktendn

/-- The port that has its turn, by the state of the machine. -/
def Working (r : Registers num width) (driven : BitVec width) (at' : Option (Port width)) : Prop :=
  match r.state with
  | .latchFlags =>
    Strobes r true true true true ∧ r.count < 2 ∧ r.stall r.addr = (r.count == 0 || r.request r.addr) ∧
      (r.count ≠ 0 → r.ack r.addr = false) ∧ Resting r r.addr at'
  | .dispatch | .setAddr =>
    Strobes r true true true true ∧ r.stall r.addr = true ∧ r.ack r.addr = false ∧ Resting r r.addr at'
  | .driveRead =>
    Strobes r (r.count == 0) (r.count == 0) true true ∧ r.stall r.addr = true ∧ r.ack r.addr = false ∧
      r.request r.addr = false ∧
      ∃ dat, at' = some (.pending (r.needend r.addr) ⟨false, dat⟩)
  | .latchData =>
    Strobes r (r.count != 0) false true true ∧ r.stall r.addr = true ∧ r.ack r.addr = false ∧ r.request r.addr = false ∧
      (r.count ≠ 0 → r.fdR = driven) ∧ ∃ dat, at' = some (.pending (r.needend r.addr) ⟨false, dat⟩)
  | .idleRead =>
    Strobes r true (r.count != 0) true true ∧ r.stall r.addr = true ∧ r.ack r.addr = false ∧ r.request r.addr = false ∧
      if r.count = 0 then r.fdR = driven ∧ ∃ dat, at' = some (.pending (r.needend r.addr) ⟨false, dat⟩)
      else at' = some (.finished (r.needend r.addr) (some r.fdR))
  | .driveWrite =>
    Strobes r true true (r.count == 0) true ∧ r.stall r.addr = true ∧ r.ack r.addr = false ∧ r.request r.addr = false ∧
      (r.count ≠ 0 → r.needend r.addr = true ∧ r.fdO = r.dat4usb r.addr) ∧
      ∃ unfinished, at' = some (.pending unfinished ⟨true, r.dat4usb r.addr⟩)
  | .idleWrite =>
    Strobes r true true (r.count != 0) true ∧ r.stall r.addr = true ∧ r.ack r.addr = false ∧ r.request r.addr = false ∧
      r.needend r.addr = true ∧
      if r.count = 0 then ∃ unfinished, at' = some (.pending unfinished ⟨true, r.fdO⟩)
        else at' = some (.finished true none)
  | .idleData =>
    Strobes r true true true true ∧ r.stall r.addr = true ∧ r.ack r.addr = false ∧ r.request r.addr = false ∧
      r.needend r.addr = true ∧ at' = some (.finished true none)
  | .drivePktend =>
    Strobes r true true true (r.count == 0) ∧ r.stall r.addr = true ∧ r.ack r.addr = false ∧ r.request r.addr = false ∧
      r.needend r.addr = (r.count == 0) ∧ at' = some (.idle (r.needend r.addr))
  | .idlePktend =>
    Strobes r true true true (r.count != 0) ∧ r.stall r.addr = true ∧ r.ack r.addr = false ∧ r.request r.addr = false ∧
      r.needend r.addr = false ∧ at' = some (.idle false)

structure Inv (g : Generics) (w : World num width) : Prop where
  count : w.regs.count < cycles g w.regs.state
  working : Working w.regs w.driven (stands w w.regs.addr)
  resting : ∀ port, port ≠ w.regs.addr → w.regs.stall port = true ∧ w.regs.ack port = false ∧
    Resting w.regs port (stands w port)

theorem start_inv (g : Generics) (notready notempty notfull : Bool × Bool) :
    Inv g (start notready notempty notfull : World num width) where
  count := cycles_pos g .latchFlags
  working := ⟨⟨rfl, rfl, rfl, rfl⟩, Nat.zero_lt_two, rfl, fun some => absurd rfl some, rfl⟩
  resting := fun _ _ => ⟨rfl, rfl, rfl⟩

theorem bind_nil (at' : Option (Port width)) : at'.bind (·.run []) = at' := by
  cases at' <;> rfl

theorem stands_step {g : Generics} {w : World num width} {i : Inputs num width} {port : Fin num} :
    stands (step g w i) port = (stands w port).bind (·.run (events w i (clock g w.regs i) port)) := Port.run_append

/-! ### One clock -/

section Clock

variable {g : Generics} {w : World num width} {i : Inputs num width}

variable {r : Registers num width}

omit [NeZero num] in
theorem expires_iff : expires g r = true ↔ r.count + 1 = cycles g r.state := decide_eq_true_iff

theorem count_clock (inside : r.count < cycles g r.state) :
    (clock g r i).count < cycles g (clock g r i).state := by
  have first := cycles_pos g
  cases ends : expires g r with
  | true =>
    cases state : r.state <;> simp only [clock, fsm, state, countNext, ends, if_true] <;> exact first _
  | false =>
    have more : r.count + 1 < cycles g r.state := by
      have other : ¬r.count + 1 = cycles g r.state := fun last => by
        rw [expires_iff.mpr last] at ends
        cases ends
      omega
    cases state : r.state with
    | dispatch =>
      simp only [clock, fsm, state]
      exact first _
    | _ =>
      rw [state] at more
      simp only [clock, fsm, state, countNext, ends, Bool.false_eq_true, if_false]
      exact more

theorem clock_others {port : Fin num} (other : port ≠ r.addr) :
    (clock g r i).stall port = r.stall port ∧ (clock g r i).ack port = r.ack port ∧
    (clock g r i).request port = r.request port ∧
      (clock g r i).write port = r.write port ∧ (clock g r i).dat4usb port = r.dat4usb port ∧
      (clock g r i).needend port = r.needend port := by
  cases state : r.state <;> simp only [clock, fsm, state, Function.update_of_ne other,
    apply_ite (fun f : Fin num → Bool => f port),
    apply_ite (fun f : Fin num → BitVec width => f port), ite_self, and_self]

theorem clock_addr (turn : r.state ≠ .setAddr) : (clock g r i).addr = r.addr := by
  cases state : r.state with
  | setAddr => exact absurd state turn
  | _ => simp only [clock, fsm, state]

omit [NeZero num] in
theorem events_rest {r' : Registers num width} {port : Fin num} (other : port ≠ w.regs.addr)
    (stall : w.regs.stall port = true)
    (ack : r'.ack port = false) : events w i r' port = [] := by
  rw [events, accepts, stall, ack, if_neg (Ne.symm other)]
  rfl

theorem Inv.others (inv : Inv g w) {port : Fin num} (other : port ≠ w.regs.addr) :
    (step g w i).regs.stall port = true ∧ (step g w i).regs.ack port = false ∧
      Resting (step g w i).regs port (stands (step g w i) port) := by
  obtain ⟨stall, ack, resting⟩ := inv.resting port other
  obtain ⟨stall', ack', request', write', dat', needend'⟩ := clock_others (g := g) (i := i) other
  refine ⟨stall'.trans stall, ack'.trans ack, ?_⟩
  rw [stands_step, events_rest other stall (ack'.trans ack)]
  show Resting (clock g w.regs i) port ((stands w port).bind (·.run []))
  rw [bind_nil, Resting, request', write', dat', needend']
  exact resting

theorem Inv.of_working (inv : Inv g w) (turn : w.regs.state ≠ .setAddr)
    (working : Working (clock g w.regs i) (step g w i).driven
      ((stands w w.regs.addr).bind (·.run (events w i (clock g w.regs i) w.regs.addr)))) : Inv g (step g w i) := by
  have same : (step g w i).regs.addr = w.regs.addr := clock_addr turn
  refine ⟨count_clock inv.count, ?_, fun port other => inv.others (by rw [← same]; exact other)⟩
  rw [same, stands_step]
  exact working

omit [NeZero num] in
theorem external_none {driven : BitVec width} {r r' : Registers num width} {sloen slrdn slwrn pktendn sloen' : Bool}
    (before : Strobes r sloen slrdn slwrn pktendn) (after : Strobes r' sloen' slrdn slwrn pktendn) :
    external driven r r' = [] := by
  rw [external, before.slrdn, before.slwrn, before.pktendn, after.slrdn, after.slwrn, after.pktendn]
  cases slrdn <;> cases slwrn <;> cases pktendn <;> rfl

omit [NeZero num] in
theorem events_own {r' : Registers num width} (stall : w.regs.stall w.regs.addr = true)
    (ack : r'.ack w.regs.addr = false) :
    events w i r' w.regs.addr = external w.driven w.regs r' := by
  rw [events, accepts, stall, ack, if_pos rfl]
  simp

theorem Strobes.kept {sloen slrdn slwrn pktendn : Bool} (strobes : Strobes w.regs sloen slrdn slwrn pktendn)
    (silent : w.regs.state ∈ [.latchFlags, .dispatch, .setAddr, .idleData]) :
    Strobes (clock g w.regs i) sloen slrdn slwrn pktendn := by
  cases state : w.regs.state with
  | latchFlags | dispatch | setAddr | idleData =>
    refine ⟨?_, ?_, ?_, ?_⟩ <;> simp only [clock, fsm, state]
    · exact strobes.sloen
    · exact strobes.slrdn
    · exact strobes.slwrn
    · exact strobes.pktendn
  | _ => exact absurd (state ▸ silent) (by decide)

/-- The states in which the machine works for a port, and does not look at its request. -/
def busy : FsmState → Bool
  | .latchFlags | .dispatch | .setAddr => false
  | _ => true

def behind : FsmState → FsmState
  | .driveRead => .latchData
  | .latchData => .idleRead
  | .driveWrite => .idleWrite
  | .idleWrite => .idleData
  | .drivePktend => .idlePktend
  | _ => .latchFlags

theorem clock_busy (works : busy w.regs.state = true) :
    (clock g w.regs i).state = (if expires g w.regs then behind w.regs.state else w.regs.state) ∧
      (clock g w.regs i).count = countNext g w.regs ∧ (clock g w.regs i).stall = w.regs.stall ∧
      (clock g w.regs i).request = w.regs.request ∧ (clock g w.regs i).addr = w.regs.addr := by
  cases state : w.regs.state with
  | latchFlags | dispatch | setAddr =>
    rw [state] at works
    cases works
  | _ => simp only [clock, fsm, state, behind, and_self]

section
variable (inv : Inv g w)
include inv

theorem Inv.latchFlags (state : w.regs.state = .latchFlags) : Inv g (step g w i) := by
  apply inv.of_working (by rw [state]; exact FsmState.noConfusion)
  have working := inv.working
  unfold Working at working
  rw [state] at working
  obtain ⟨strobes, short, stall, ack, resting⟩ := working
  have cleared : (clock g w.regs i).ack w.regs.addr = false := by
    simp only [clock, fsm, state, Function.update_self]
  have quiet : Strobes (clock g w.regs i) true true true true := strobes.kept (by rw [state]; decide)
  have addr : (clock g w.regs i).addr = w.regs.addr := clock_addr (by rw [state]; exact FsmState.noConfusion)
  have needend : (clock g w.regs i).needend = w.regs.needend := by simp only [clock, fsm, state]
  have keeps : accepts w.regs i w.regs.addr = false →
      Resting (clock g w.regs i) w.regs.addr ((stands w w.regs.addr).bind
        (·.run (events w i (clock g w.regs i) w.regs.addr))) := by
    intro none
    have nothing : events w i (clock g w.regs i) w.regs.addr = [] := by
      rw [events, none, cleared, external_none strobes quiet]
      simp
    rw [nothing, bind_nil, Resting, needend]
    simp only [clock, fsm, state, none, Bool.false_eq_true, if_false]
    exact resting
  rcases Nat.lt_or_ge w.regs.count 1 with first | second
  · have zero : w.regs.count = 0 := by omega
    have stays : expires g w.regs = false := by
      rw [expires, zero, state]
      rfl
    have none : accepts w.regs i w.regs.addr = false := by
      rw [accepts, stall, zero]
      rfl
    have next : (clock g w.regs i).state = .latchFlags ∧ (clock g w.regs i).count = 1 ∧
        (clock g w.regs i).stall w.regs.addr = w.regs.request w.regs.addr ∧ (clock g w.regs i).request =
          w.regs.request := by
      simp only [clock, fsm, state, stays, none, countNext, zero, Bool.false_eq_true, if_false,
        Function.update_self, and_self]
    unfold Working
    rw [next.1, addr]
    refine ⟨quiet, ?_, ?_, fun _ => cleared, keeps none⟩
    · rw [next.2.1]
      decide
    · rw [next.2.1, next.2.2.1, next.2.2.2]
      rfl
  · have one : w.regs.count = 1 := by omega
    have ends : expires g w.regs = true := by
      rw [expires, one, state]
      rfl
    have next : (clock g w.regs i).state = .dispatch ∧ (clock g w.regs i).stall w.regs.addr = true := by
      simp only [clock, fsm, state, ends, if_true, Function.update_self, and_self]
    unfold Working
    rw [next.1, addr]
    refine ⟨quiet, next.2, cleared, ?_⟩
    cases taken : accepts w.regs i w.regs.addr with
    | false => exact keeps taken
    | true =>
      have open' : w.regs.request w.regs.addr = false := by
        rw [accepts, stall, one, Bool.and_eq_true, Bool.and_eq_true] at taken
        simpa using taken.1.1
      have something : events w i (clock g w.regs i) w.regs.addr = [.accept (accessOf i w.regs.addr)] := by
        rw [events, taken, cleared, external_none strobes quiet]
        simp
      have idle : stands w w.regs.addr = some (.idle (w.regs.needend w.regs.addr)) := by
        rw [Resting, open'] at resting
        exact resting
      have fields : (clock g w.regs i).request w.regs.addr = true ∧
        (clock g w.regs i).write w.regs.addr = (i.slave w.regs.addr).we ∧
          (clock g w.regs i).dat4usb w.regs.addr = (i.slave w.regs.addr).dat.setWidth width := by
        simp only [clock, fsm, state, taken, if_true, Function.update_self, and_self]
      rw [something, idle, Resting, fields.1, fields.2.1, fields.2.2, needend]
      exact ⟨accessOf i w.regs.addr, rfl, rfl, fun _ => rfl⟩

theorem Inv.dispatch (state : w.regs.state = .dispatch) : Inv g (step g w i) := by
  apply inv.of_working (by rw [state]; exact FsmState.noConfusion)
  have working := inv.working
  unfold Working at working
  rw [state] at working
  obtain ⟨strobes, stall, ack, resting⟩ := working
  have quiet : Strobes (clock g w.regs i) true true true true := strobes.kept (by rw [state]; decide)
  have addr : (clock g w.regs i).addr = w.regs.addr := clock_addr (by rw [state]; exact FsmState.noConfusion)
  have same : (clock g w.regs i).count = 0 ∧ (clock g w.regs i).needend = w.regs.needend ∧
    (clock g w.regs i).write = w.regs.write ∧
      (clock g w.regs i).dat4usb = w.regs.dat4usb ∧ (clock g w.regs i).stall = w.regs.stall ∧
      (clock g w.regs i).ack = w.regs.ack := by
    simp only [clock, fsm, state, and_self]
  obtain ⟨count, needend, write, dat, stall', ack'⟩ := same
  have nothing : events w i (clock g w.regs i) w.regs.addr = [] := by
    rw [events_own stall (by rw [ack']; exact ack), external_none strobes quiet]
  rw [nothing, bind_nil]
  unfold Working
  cases asks : w.regs.request w.regs.addr with
  | true =>
    rw [Resting, asks] at resting
    obtain ⟨⟨we, own⟩, at', direction, data⟩ := resting
    cases allows : allowed w.regs with
    | true =>
      have request : (clock g w.regs i).request w.regs.addr = false := by
        simp only [clock, fsm, state, asks, allows, Bool.and_self, if_true, Function.update_self]
      have next : (clock g w.regs i).state = if w.regs.write w.regs.addr then .driveWrite else .driveRead := by
        simp only [clock, fsm, state, asks, allows, if_true]
      rw [next, addr, count, needend, dat, stall', ack', request, at']
      cases writes : w.regs.write w.regs.addr with
      | true =>
        have writing : we = true := direction.trans writes
        subst writing
        exact ⟨quiet, stall, ack, rfl, fun some => absurd rfl some, _, by rw [← data rfl]⟩
      | false =>
        have reading : we = false := direction.trans writes
        subst reading
        exact ⟨quiet, stall, ack, rfl, _, rfl⟩
    | false =>
      have next : (clock g w.regs i).state = .setAddr ∧ (clock g w.regs i).request = w.regs.request := by
        simp only [clock, fsm, state, asks, allows, Bool.and_false, if_true, Bool.false_eq_true, if_false, and_self]
      rw [next.1, addr, stall', ack']
      refine ⟨quiet, stall, ack, ?_⟩
      rw [Resting, next.2, asks, needend, write, dat]
      exact ⟨⟨we, own⟩, at', direction, data⟩
  | false =>
    rw [Resting, asks] at resting
    have idle : stands w w.regs.addr = some (.idle (w.regs.needend w.regs.addr)) := resting
    have request : (clock g w.regs i).request = w.regs.request := by
      simp only [clock, fsm, state, asks, Bool.false_and, Bool.false_eq_true, if_false]
    cases ends : w.regs.needend w.regs.addr with
    | true =>
      have next : (clock g w.regs i).state = .drivePktend := by
        simp only [clock, fsm, state, asks, ends, Bool.false_eq_true, if_false, if_true]
      rw [next, addr, count, needend, stall', ack', request, asks, ends, idle, ends]
      exact ⟨quiet, stall, ack, rfl, rfl, rfl⟩
    | false =>
      have next : (clock g w.regs i).state = .setAddr := by
        simp only [clock, fsm, state, asks, ends, Bool.false_eq_true, if_false]
      rw [next, addr, stall', ack']
      refine ⟨quiet, stall, ack, ?_⟩
      rw [Resting, request, asks, needend]
      exact idle

theorem Inv.setAddr (state : w.regs.state = .setAddr) : Inv g (step g w i) := by
  have working := inv.working
  unfold Working at working
  rw [state] at working
  obtain ⟨strobes, stall, ack, resting⟩ := working
  have same : (clock g w.regs i).stall = w.regs.stall ∧ (clock g w.regs i).ack = w.regs.ack ∧
    (clock g w.regs i).request = w.regs.request ∧
      (clock g w.regs i).write = w.regs.write ∧ (clock g w.regs i).dat4usb = w.regs.dat4usb ∧
      (clock g w.regs i).needend = w.regs.needend := by
    simp only [clock, fsm, state, and_self]
  obtain ⟨stall', ack', request, write, dat, needend⟩ := same
  have quiet : Strobes (clock g w.regs i) true true true true := strobes.kept (by rw [state]; decide)
  -- every port rests, also the one whose turn is over
  have all : ∀ port, (clock g w.regs i).stall port = true ∧ (clock g w.regs i).ack port = false ∧
      Resting (clock g w.regs i) port (stands (step g w i) port) := by
    intro port
    by_cases own : port = w.regs.addr
    · subst own
      have nothing : events w i (clock g w.regs i) w.regs.addr = [] := by
        rw [events_own stall (by rw [ack']; exact ack), external_none strobes quiet]
      refine ⟨by rw [stall']; exact stall, by rw [ack']; exact ack, ?_⟩
      rw [stands_step, nothing, bind_nil, Resting, request, write, dat, needend]
      exact resting
    · exact inv.others own
  refine ⟨count_clock inv.count, ?_, fun port _ => all port⟩
  obtain ⟨stalled, silent, rests⟩ := all (clock g w.regs i).addr
  show Working (clock g w.regs i) _ (stands (step g w i) (clock g w.regs i).addr)
  have next : (clock g w.regs i).state = (if expires g w.regs then .latchFlags else .setAddr) ∧
      (clock g w.regs i).count = countNext g w.regs := by
    simp only [clock, fsm, state, and_self]
  unfold Working
  rw [next.1, next.2, countNext]
  cases expires g w.regs with
  | true => exact ⟨quiet, Nat.zero_lt_two, stalled, fun some => absurd rfl some, rests⟩
  | false => exact ⟨quiet, stalled, silent, rests⟩

theorem Inv.driveRead (state : w.regs.state = .driveRead) : Inv g (step g w i) := by
  apply inv.of_working (by rw [state]; exact FsmState.noConfusion)
  have working := inv.working
  unfold Working at working
  rw [state] at working
  obtain ⟨strobes, stall, ack, request, dat, at'⟩ := working
  obtain ⟨next, count, stall', request', addr⟩ := clock_busy (g := g) (i := i) (by rw [state]; rfl)
  rw [state] at next
  have same : (clock g w.regs i).ack = w.regs.ack ∧ (clock g w.regs i).needend = w.regs.needend := by
    simp only [clock, fsm, state, and_self]
  obtain ⟨ack', needend⟩ := same
  have low : Strobes (clock g w.regs i) false false true true := by
    refine ⟨?_, ?_, ?_, ?_⟩ <;> simp only [clock, fsm, state]
    · exact strobes.slwrn
    · exact strobes.pktendn
  have nothing : events w i (clock g w.regs i) w.regs.addr = [] := by
    rw [events_own stall (by rw [ack']; exact ack), external, low.slrdn, low.slwrn, low.pktendn,
      strobes.slwrn, strobes.pktendn, Bool.and_false]
    rfl
  rw [nothing, bind_nil]
  unfold Working
  rw [next, count, countNext, addr, stall', ack', request', needend]
  cases expires g w.regs with
  | true => exact ⟨low, stall, ack, request, fun some => absurd rfl some, dat, at'⟩
  | false => exact ⟨low, stall, ack, request, dat, at'⟩

theorem Inv.latchData (state : w.regs.state = .latchData) : Inv g (step g w i) := by
  apply inv.of_working (by rw [state]; exact FsmState.noConfusion)
  have working := inv.working
  unfold Working at working
  rw [state] at working
  obtain ⟨strobes, stall, ack, request, latched, dat, at'⟩ := working
  obtain ⟨next, count, stall', request', addr⟩ := clock_busy (g := g) (i := i) (by rw [state]; rfl)
  rw [state] at next
  have same : (clock g w.regs i).ack = w.regs.ack ∧ (clock g w.regs i).needend = w.regs.needend := by
    simp only [clock, fsm, state, and_self]
  obtain ⟨ack', needend⟩ := same
  have reading : Strobes (clock g w.regs i) true false true true := by
    refine ⟨?_, ?_, ?_, ?_⟩ <;> simp only [clock, fsm, state]
    · exact strobes.slrdn
    · exact strobes.slwrn
    · exact strobes.pktendn
  have nothing : events w i (clock g w.regs i) w.regs.addr = [] := by
    rw [events_own stall (by rw [ack']; exact ack), external_none strobes reading]
  -- the data is taken in the clock in which the output enable goes away
  have taken : (clock g w.regs i).fdR = (step g w i).driven := by
    have fdR : (clock g w.regs i).fdR = if w.regs.count = 0 then i.fd else w.regs.fdR := by
      simp only [clock, fsm, state]
    show _ = if !w.regs.sloen && (clock g w.regs i).sloen then i.fd else w.driven
    rw [fdR, strobes.sloen, reading.sloen]
    by_cases first : w.regs.count = 0
    · rw [if_pos first, first]
      rfl
    · rw [if_neg first, latched first]
      have later : (w.regs.count != 0) = true := bne_iff_ne.mpr first
      rw [later]
      rfl
  rw [nothing, bind_nil]
  unfold Working
  rw [next, count, countNext, addr, stall', ack', request', needend]
  cases expires g w.regs with
  | true => exact ⟨reading, stall, ack, request, taken, dat, at'⟩
  | false => exact ⟨reading, stall, ack, request, fun _ => taken, dat, at'⟩

theorem Inv.idleRead (state : w.regs.state = .idleRead) : Inv g (step g w i) := by
  apply inv.of_working (by rw [state]; exact FsmState.noConfusion)
  have working := inv.working
  unfold Working at working
  rw [state] at working
  obtain ⟨strobes, stall, ack, request, progress⟩ := working
  obtain ⟨next, count, stall', request', addr⟩ := clock_busy (g := g) (i := i) (by rw [state]; rfl)
  rw [state] at next
  have same : (clock g w.regs i).needend = w.regs.needend ∧ (clock g w.regs i).fdR = w.regs.fdR ∧
      (clock g w.regs i).dat4wb w.regs.addr = w.regs.fdR := by
    simp only [clock, fsm, state, Function.update_self, and_self]
  obtain ⟨needend, fdR, dat4wb⟩ := same
  have quiet : Strobes (clock g w.regs i) true true true true := by
    refine ⟨?_, ?_, ?_, ?_⟩ <;> simp only [clock, fsm, state]
    · exact strobes.sloen
    · exact strobes.slwrn
    · exact strobes.pktendn
  -- after this clock the read is over
  have over' : (stands w w.regs.addr).bind (·.run (external w.driven w.regs (clock g w.regs i))) =
      some (.finished (w.regs.needend w.regs.addr) (some w.regs.fdR)) := by
    rw [external, strobes.slrdn, strobes.slwrn, strobes.pktendn, quiet.slrdn, quiet.slwrn, quiet.pktendn]
    by_cases first : w.regs.count = 0
    · rw [if_pos first] at progress
      obtain ⟨latched, dat, at'⟩ := progress
      rw [at', first, latched]
      rfl
    · rw [if_neg first] at progress
      have later : (w.regs.count != 0) = true := bne_iff_ne.mpr first
      rw [progress, later]
      rfl
  unfold Working
  rw [next, count, countNext, addr, stall', request', needend, fdR]
  cases ends : expires g w.regs with
  | true =>
    have acks : (clock g w.regs i).ack w.regs.addr = true := by
      simp only [clock, fsm, state, ends, if_true, Function.update_self]
    have all : events w i (clock g w.regs i) w.regs.addr =
      external w.driven w.regs (clock g w.regs i) ++ [.ack w.regs.fdR] := by
      rw [events, accepts, stall, acks, dat4wb, if_pos rfl]
      rfl
    have idle : (stands w w.regs.addr).bind (·.run (external w.driven w.regs (clock g w.regs i) ++ [.ack w.regs.fdR])) =
        some (.idle (w.regs.needend w.regs.addr)) := by
      simp only [Port.run_append, ← Option.bind_assoc, over']
      simp [Port.run, Port.step]
    rw [all, idle]
    refine ⟨quiet, Nat.zero_lt_two, ?_, fun some => absurd rfl some, ?_⟩
    · rw [stall]
      rfl
    · rw [Resting, request', request, needend]
      rfl
  | false =>
    have silent : (clock g w.regs i).ack = w.regs.ack := by
      simp only [clock, fsm, state, ends, Bool.false_eq_true, if_false]
    rw [events_own stall (by rw [silent]; exact ack), over', silent]
    exact ⟨quiet, stall, ack, request, rfl⟩

theorem Inv.driveWrite (state : w.regs.state = .driveWrite) : Inv g (step g w i) := by
  apply inv.of_working (by rw [state]; exact FsmState.noConfusion)
  have working := inv.working
  unfold Working at working
  rw [state] at working
  obtain ⟨strobes, stall, ack, request, _, unfinished, at'⟩ := working
  obtain ⟨next, count, stall', request', addr⟩ := clock_busy (g := g) (i := i) (by rw [state]; rfl)
  rw [state] at next
  have same : (clock g w.regs i).ack = w.regs.ack ∧ (clock g w.regs i).needend w.regs.addr = true ∧
      (clock g w.regs i).fdO = w.regs.dat4usb w.regs.addr ∧ (clock g w.regs i).dat4usb = w.regs.dat4usb := by
    simp only [clock, fsm, state, Function.update_self, and_self]
  obtain ⟨ack', needend, fdO, dat4usb⟩ := same
  have writing : Strobes (clock g w.regs i) true true false true := by
    refine ⟨?_, ?_, ?_, ?_⟩ <;> simp only [clock, fsm, state]
    · exact strobes.sloen
    · exact strobes.slrdn
    · exact strobes.pktendn
  have nothing : events w i (clock g w.regs i) w.regs.addr = [] := by
    rw [events_own stall (by rw [ack']; exact ack), external, writing.slrdn, writing.slwrn,
      writing.pktendn, strobes.slrdn, strobes.pktendn,
      Bool.and_false]
    rfl
  rw [nothing, bind_nil]
  unfold Working
  rw [next, count, countNext, addr, stall', ack', request', needend, fdO, dat4usb]
  cases expires g w.regs with
  | true => exact ⟨writing, stall, ack, request, rfl, unfinished, at'⟩
  | false => exact ⟨writing, stall, ack, request, fun _ => ⟨rfl, rfl⟩, unfinished, at'⟩

theorem Inv.idleWrite (state : w.regs.state = .idleWrite) : Inv g (step g w i) := by
  apply inv.of_working (by rw [state]; exact FsmState.noConfusion)
  have working := inv.working
  unfold Working at working
  rw [state] at working
  obtain ⟨strobes, stall, ack, request, needend, progress⟩ := working
  obtain ⟨next, count, stall', request', addr⟩ := clock_busy (g := g) (i := i) (by rw [state]; rfl)
  rw [state] at next
  have same : (clock g w.regs i).ack = w.regs.ack ∧ (clock g w.regs i).needend = w.regs.needend := by
    simp only [clock, fsm, state, and_self]
  obtain ⟨ack', needend'⟩ := same
  have quiet : Strobes (clock g w.regs i) true true true true := by
    refine ⟨?_, ?_, ?_, ?_⟩ <;> simp only [clock, fsm, state]
    · exact strobes.sloen
    · exact strobes.slrdn
    · exact strobes.pktendn
  have over' : (stands w w.regs.addr).bind (·.run (events w i (clock g w.regs i) w.regs.addr)) =
    some (.finished true none) := by
    rw [events_own stall (by rw [ack']; exact ack), external, strobes.slrdn, strobes.slwrn,
      strobes.pktendn, quiet.slrdn, quiet.slwrn,
      quiet.pktendn]
    by_cases first : w.regs.count = 0
    · rw [if_pos first] at progress
      obtain ⟨unfinished, at'⟩ := progress
      rw [at', first]
      simp [Port.run, Port.step]
    · rw [if_neg first] at progress
      have later : (w.regs.count != 0) = true := bne_iff_ne.mpr first
      rw [progress, later]
      rfl
  rw [over']
  unfold Working
  rw [next, count, countNext, addr, stall', ack', request', needend']
  cases expires g w.regs with
  | true => exact ⟨quiet, stall, ack, request, needend, rfl⟩
  | false => exact ⟨quiet, stall, ack, request, needend, rfl⟩

theorem Inv.idleData (state : w.regs.state = .idleData) : Inv g (step g w i) := by
  apply inv.of_working (by rw [state]; exact FsmState.noConfusion)
  have working := inv.working
  unfold Working at working
  rw [state] at working
  obtain ⟨strobes, stall, ack, request, needend, at'⟩ := working
  obtain ⟨next, count, stall', request', addr⟩ := clock_busy (g := g) (i := i) (by rw [state]; rfl)
  rw [state] at next
  have needend' : (clock g w.regs i).needend = w.regs.needend := by simp only [clock, fsm, state]
  have quiet : Strobes (clock g w.regs i) true true true true := strobes.kept (by rw [state]; decide)
  unfold Working
  rw [next, count, countNext, addr, stall', request', needend', at']
  cases ends : expires g w.regs with
  | true =>
    have acks : (clock g w.regs i).ack w.regs.addr = true := by
      simp only [clock, fsm, state, ends, if_true, Function.update_self]
    have all : events w i (clock g w.regs i) w.regs.addr = [.ack ((clock g w.regs i).dat4wb w.regs.addr)] := by
      rw [events, accepts, stall, acks, external_none strobes quiet]
      simp
    rw [all]
    refine ⟨quiet, Nat.zero_lt_two, ?_, fun some => absurd rfl some, ?_⟩
    · rw [stall]
      rfl
    · rw [Resting, request', request, needend', needend]
      rfl
  | false =>
    have silent : (clock g w.regs i).ack = w.regs.ack := by
      simp only [clock, fsm, state, ends, Bool.false_eq_true, if_false]
    rw [events_own stall (by rw [silent]; exact ack), external_none strobes quiet, silent]
    exact ⟨quiet, stall, ack, request, needend, rfl⟩

theorem Inv.drivePktend (state : w.regs.state = .drivePktend) : Inv g (step g w i) := by
  apply inv.of_working (by rw [state]; exact FsmState.noConfusion)
  have working := inv.working
  unfold Working at working
  rw [state] at working
  obtain ⟨strobes, stall, ack, request, needend, at'⟩ := working
  obtain ⟨next, count, stall', request', addr⟩ := clock_busy (g := g) (i := i) (by rw [state]; rfl)
  rw [state] at next
  have same : (clock g w.regs i).ack = w.regs.ack ∧ (clock g w.regs i).needend w.regs.addr = false := by
    simp only [clock, fsm, state, Function.update_self, and_self]
  obtain ⟨ack', needend'⟩ := same
  have ending : Strobes (clock g w.regs i) true true true false := by
    refine ⟨?_, ?_, ?_, ?_⟩ <;> simp only [clock, fsm, state]
    · exact strobes.sloen
    · exact strobes.slrdn
    · exact strobes.slwrn
  have over' : (stands w w.regs.addr).bind (·.run (events w i (clock g w.regs i) w.regs.addr)) =
    some (.idle false) := by
    rw [events_own stall (by rw [ack']; exact ack), external, strobes.slrdn, strobes.slwrn,
      strobes.pktendn, ending.slrdn, ending.slwrn,
      ending.pktendn, at', needend]
    cases w.regs.count == 0 <;> rfl
  rw [over']
  unfold Working
  rw [next, count, countNext, addr, stall', ack', request', needend']
  cases expires g w.regs with
  | true => exact ⟨ending, stall, ack, request, rfl, rfl⟩
  | false => exact ⟨ending, stall, ack, request, rfl, rfl⟩

theorem Inv.idlePktend (state : w.regs.state = .idlePktend) : Inv g (step g w i) := by
  apply inv.of_working (by rw [state]; exact FsmState.noConfusion)
  have working := inv.working
  unfold Working at working
  rw [state] at working
  obtain ⟨strobes, stall, ack, request, needend, at'⟩ := working
  obtain ⟨next, count, stall', request', addr⟩ := clock_busy (g := g) (i := i) (by rw [state]; rfl)
  rw [state] at next
  have same : (clock g w.regs i).ack = w.regs.ack ∧ (clock g w.regs i).needend = w.regs.needend := by
    simp only [clock, fsm, state, and_self]
  obtain ⟨ack', needend'⟩ := same
  have quiet : Strobes (clock g w.regs i) true true true true := by
    refine ⟨?_, ?_, ?_, ?_⟩ <;> simp only [clock, fsm, state]
    · exact strobes.sloen
    · exact strobes.slrdn
    · exact strobes.slwrn
  have nothing : events w i (clock g w.regs i) w.regs.addr = [] := by
    rw [events_own stall (by rw [ack']; exact ack), external, strobes.slrdn, strobes.slwrn,
      strobes.pktendn, quiet.slrdn, quiet.slwrn,
      quiet.pktendn]
    cases w.regs.count != 0 <;> rfl
  rw [nothing, bind_nil, at']
  unfold Working
  rw [next, count, countNext, addr, stall', ack', request', needend']
  cases expires g w.regs with
  | true =>
    refine ⟨quiet, Nat.zero_lt_two, ?_, fun some => absurd rfl some, ?_⟩
    · rw [stall]
      rfl
    · rw [Resting, request', request, needend', needend]
      rfl
  | false => exact ⟨quiet, stall, ack, request, needend, rfl⟩

theorem Inv.step : Inv g (Ports.step g w i) := by
  cases state : w.regs.state with
  | latchFlags => exact inv.latchFlags state
  | dispatch => exact inv.dispatch state
  | setAddr => exact inv.setAddr state
  | driveRead => exact inv.driveRead state
  | latchData => exact inv.latchData state
  | idleRead => exact inv.idleRead state
  | driveWrite => exact inv.driveWrite state
  | idleWrite => exact inv.idleWrite state
  | idleData => exact inv.idleData state
  | drivePktend => exact inv.drivePktend state
  | idlePktend => exact inv.idlePktend state

end

end Clock

omit [NeZero num] in
theorem Inv.stands {g : Generics} {w : World num width} (inv : Inv g w) (port : Fin num) :
    ∃ at', stands w port = some at' := by
  have rests : ∀ {r : Registers num width} {at' : Option (Port width)}, Resting r port at' →
    ∃ found, at' = some found := by
    intro r at' resting
    rw [Resting] at resting
    split_ifs at resting
    · obtain ⟨access, known, _⟩ := resting
      exact ⟨_, known⟩
    · exact ⟨_, resting⟩
  by_cases own : port = w.regs.addr
  · subst own
    have working := inv.working
    unfold Working at working
    cases state : w.regs.state with
    | latchFlags => rw [state] at working; exact rests working.2.2.2.2
    | dispatch => rw [state] at working; exact rests working.2.2.2
    | setAddr => rw [state] at working; exact rests working.2.2.2
    | driveRead =>
      rw [state] at working
      obtain ⟨_, _, _, _, _, known⟩ := working
      exact ⟨_, known⟩
    | latchData =>
      rw [state] at working
      obtain ⟨_, _, _, _, _, _, known⟩ := working
      exact ⟨_, known⟩
    | idleRead =>
      rw [state] at working
      obtain ⟨_, _, _, _, progress⟩ := working
      split_ifs at progress
      · obtain ⟨_, _, known⟩ := progress
        exact ⟨_, known⟩
      · exact ⟨_, progress⟩
    | driveWrite =>
      rw [state] at working
      obtain ⟨_, _, _, _, _, _, known⟩ := working
      exact ⟨_, known⟩
    | idleWrite =>
      rw [state] at working
      obtain ⟨_, _, _, _, _, progress⟩ := working
      split_ifs at progress
      · obtain ⟨_, known⟩ := progress
        exact ⟨_, known⟩
      · exact ⟨_, progress⟩
    | idleData => rw [state] at working; exact ⟨_, working.2.2.2.2.2⟩
    | drivePktend => rw [state] at working; exact ⟨_, working.2.2.2.2.2⟩
    | idlePktend => rw [state] at working; exact ⟨_, working.2.2.2.2.2⟩
  · exact rests (inv.resting port own).2.2

theorem Inv.run {g : Generics} {w : World num width} {inputs : List (Inputs num width)}
    (inv : Inv g w) : Inv g (Ports.run g w inputs) := by
  induction inputs generalizing w with
  | nil => exact inv
  | cons i inputs ih => exact ih inv.step

end BelProject.Usb.Ports
