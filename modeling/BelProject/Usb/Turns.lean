import BelProject.Usb.Ports

/-! How long an access can wait. The machine stays with a port as long as there is something to
do for it, so the time is bounded when the other ports take no new strobes and the flags of the
chip allow the access. -/

namespace BelProject.Usb.Turns
open EzUsbFifos Ports
open FsmState (noConfusion)

def isAccept {width : Nat} : Event width → Bool
  | .accept _ => true
  | _ => false

def isAck {width : Nat} : Event width → Bool
  | .ack _ => true
  | _ => false

/-- The accesses a port has taken, and those it has acknowledged. -/
def taken {num width : Nat} (w : World num width) (port : Fin num) : Nat := (w.log port).countP isAccept

def acknowledged {num width : Nat} (w : World num width) (port : Fin num) : Nat := (w.log port).countP isAck

def Port.busy {width : Nat} : Port width → Bool
  | .idle _ => false
  | _ => true

section Left

variable (g : Generics)

def access : Nat :=
  max (cycles g .driveRead + cycles g .latchData + cycles g .idleRead)
    (cycles g .driveWrite + cycles g .idleWrite + cycles g .idleData)

/-- From the dispatch of a port without anything to do to the next port, and from that of a port
with a packet to end. -/
def leaves : Nat := 1 + cycles g .setAddr

def finishes : Nat := 1 + cycles g .drivePktend + cycles g .idlePktend + 2 + leaves g

def dispatched (request needend : Bool) : Nat := if request then 1 + access g + 2 + finishes g
    else if needend then finishes g else leaves g

def turn : Nat := 2 + dispatched g true true

variable {num width : Nat} [NeZero num]

def rest (r : Registers num width) : Nat :=
  match r.state with
  | .latchFlags => 2 - r.count + dispatched g (r.request r.addr) (r.needend r.addr)
  | .dispatch => dispatched g (r.request r.addr) (r.needend r.addr)
  | .setAddr => cycles g .setAddr - r.count + turn g
  | .driveRead => cycles g .driveRead - r.count + cycles g .latchData + cycles g .idleRead + 2 + finishes g
  | .latchData => cycles g .latchData - r.count + cycles g .idleRead + 2 + finishes g
  | .idleRead => cycles g .idleRead - r.count + 2 + finishes g
  | .driveWrite => cycles g .driveWrite - r.count + cycles g .idleWrite + cycles g .idleData + 2 + finishes g
  | .idleWrite => cycles g .idleWrite - r.count + cycles g .idleData + 2 + finishes g
  | .idleData => cycles g .idleData - r.count + 2 + finishes g
  | .drivePktend => cycles g .drivePktend - r.count + cycles g .idlePktend + 2 + leaves g
  | .idlePktend => cycles g .idlePktend - r.count + 2 + leaves g

def before (r : Registers num width) (port : Fin num) : Nat :=
  if r.state = .setAddr ∧ r.count = 0 then (port - (r.addr + 1)).val else (port - r.addr).val

def left (r : Registers num width) (port : Fin num) : Nat := rest g r + before r port * turn g

def longest (num : Nat) : Nat := 3 + cycles g .setAddr + num * turn g

end Left

variable {num width : Nat} [NeZero num] {g : Generics} {w : World num width} {r : Registers num width}
  {i : Inputs num width} {port : Fin num}

/-- The flags of the chip allow everything, now and as the machine sees them. -/
def Free (i : Inputs num width) : Prop := i.readyn = false ∧ i.fulln = true ∧ i.emptyn = true

structure Fine (r : Registers num width) : Prop where
  notready : r.notready = (false, false)
  notfull : r.notfull = (true, true)
  notempty : r.notempty = (true, true)

/-- The flags allow everything, and only one port has strobes. -/
def Alone (port : Fin num) (i : Inputs num width) : Prop :=
  Free i ∧ ∀ other, other ≠ port → (i.slave other).cyc = false ∨ (i.slave other).stb = false

theorem Fine.clock (fine : Fine r) (free : Free i) : Fine (EzUsbFifos.clock g r i) := by
  refine ⟨?_, ?_, ?_⟩
  · show (i.readyn, r.notready.1) = _
    rw [free.1, fine.notready]
  · show (i.fulln, r.notfull.1) = _
    rw [free.2.1, fine.notfull]
  · show (i.emptyn, r.notempty.1) = _
    rw [free.2.2, fine.notempty]

omit [NeZero num] in
theorem Fine.allowed (fine : Fine r) : allowed r = true := by
  rw [EzUsbFifos.allowed, fine.notready, fine.notfull, fine.notempty]
  cases r.write r.addr <;> rfl

theorem dispatched_le (request needend : Bool) : dispatched g request needend + 2 ≤ turn g := by
  unfold turn dispatched finishes
  cases request <;> cases needend <;> simp <;> omega

theorem nearer (other : port ≠ r.addr) : (port - (r.addr + 1)).val + 1 = (port - r.addr).val := by
  have apart : port - r.addr ≠ 0 := sub_ne_zero.mpr other
  have same : port - (r.addr + 1) = port - r.addr - 1 := (sub_sub _ _ _).symm
  rw [same, Fin.val_sub_one_of_ne_zero apart]
  have positive : (port - r.addr).val ≠ 0 := fun zero => apart (Fin.ext zero)
  omega

variable {found : Port width}

omit [NeZero num] in
theorem asks {at' : Option (Port width)} (resting : Resting r port at') (known : at' = some found)
    (busy : Port.busy found = true) : r.request port = true := by
  by_contra silent
  rw [Resting, if_neg silent, known] at resting
  cases resting
  cases busy

theorem rest_clock {k : Nat} (inside : r.count < cycles g r.state) (here : rest g r = cycles g r.state - r.count + k)
    (stays : expires g r = false → rest g (clock g r i) = cycles g r.state - (r.count + 1) + k)
    (ends : expires g r = true → rest g (clock g r i) ≤ k) : rest g (clock g r i) + 1 ≤ rest g r := by
  cases last : expires g r with
  | true =>
    have fits := ends last
    omega
  | false =>
    have more : r.count + 1 ≠ cycles g r.state := fun same => by
      rw [expires_iff.mpr same] at last
      cases last
    have less := stays last
    omega

theorem left_le (r : Registers num width) (port : Fin num) : left g r port ≤ cycles g .setAddr + num * turn g := by
  obtain ⟨others, some⟩ : ∃ others, num = others + 1 := ⟨num - 1, by have := Nat.pos_of_ne_zero (NeZero.ne num); omega⟩
  have near : before r port ≤ others := by
    unfold before
    split_ifs
    · have := (port - (r.addr + 1)).isLt
      omega
    · have := (port - r.addr).isLt
      omega
  have turns : before r port * turn g ≤ others * turn g := Nat.mul_le_mul_right _ near
  have own : rest g r ≤ cycles g .setAddr + turn g := by
    have all := dispatched_le (g := g) (r.request r.addr) (r.needend r.addr)
    have most : turn g = 2 + (1 + access g + 2 + finishes g) := rfl
    have ends : finishes g = 1 + cycles g .drivePktend + cycles g .idlePktend + 2 + leaves g := rfl
    have busy : access g = max (cycles g .driveRead + cycles g .latchData + cycles g .idleRead)
        (cycles g .driveWrite + cycles g .idleWrite + cycles g .idleData) := rfl
    unfold rest
    cases r.state <;> simp only <;> omega
  have all : num * turn g = others * turn g + turn g := by rw [some, Nat.succ_mul]
  unfold left
  omega

theorem taken_step : taken w port ≤ taken (Ports.step g w i) port := by
  have split : taken (Ports.step g w i) port =
    taken w port + (events w i (clock g w.regs i) port).countP isAccept := List.countP_append
  omega

variable {inputs : List (Inputs num width)}

/-- Every port goes through its protocol, with one open access at most, and an open access is
acknowledged in the longest wait when the port is alone and the flags allow it. -/
structure Faithful (g : Generics) (w : World num width) (inputs : List (Inputs num width)) : Prop where
  protocol : ∀ port, (stands (run g w inputs) port).isSome = true
  outstanding : ∀ port, acknowledged (run g w inputs) port ≤ taken (run g w inputs) port ∧
    taken (run g w inputs) port ≤ acknowledged (run g w inputs) port + 1
  answers : ∀ port past more, inputs = past ++ more → longest g num ≤ more.length → (∀ i ∈ more, Alone port i) →
    taken (run g w past) port ≤ acknowledged (run g w inputs) port

def defaults : Generics := ⟨16, 2, 4, by decide⟩

/-! A port that has a strobe in each of its turns keeps the machine. -/

/-- The flags allow everything, and a port has a strobe. -/
def Greedy (port : Fin num) (i : Inputs num width) :
    Prop := Free i ∧ (i.slave port).cyc = true ∧ (i.slave port).stb = true

/-- The machine works for a port, and finds a request of it whenever it looks. -/
structure Keeps (r : Registers num width) (port : Fin num) : Prop where
  addr : r.addr = port
  turn : r.state ≠ .setAddr
  request : r.state = .dispatch → r.request port = true
  fine : Fine r

theorem Keeps.step (keeps : Keeps w.regs port) (inv : Inv g w) (greedy : Greedy port i) :
    Keeps (clock g w.regs i) port := by
  obtain ⟨rfl, turn, request, fine⟩ := keeps
  obtain ⟨free, cyc, stb⟩ := greedy
  have addr : (clock g w.regs i).addr = w.regs.addr := clock_addr turn
  cases state : w.regs.state with
  | setAddr => exact absurd state turn
  | latchFlags =>
    have working := inv.working
    unfold Working at working
    rw [state] at working
    obtain ⟨_, _, stall, _⟩ := working
    have next : (clock g w.regs i).state = if expires g w.regs then .dispatch
      else .latchFlags := by simp only [clock, fsm, state]
    have asks : (clock g w.regs i).request w.regs.addr =
      (accepts w.regs i w.regs.addr || w.regs.request w.regs.addr) := by
      simp only [clock, fsm, state]
      cases accepts w.regs i w.regs.addr <;> simp
    refine ⟨addr, ?_, fun looks => ?_, fine.clock free⟩
    · rw [next]
      split_ifs <;> exact noConfusion
    · have last : w.regs.count + 1 = 2 := by
        rw [next] at looks
        split_ifs at looks with ends
        rw [expires_iff.mp ends, state]
        rfl
      have one : w.regs.count = 1 := by omega
      rw [asks, accepts, stall, cyc, stb, one]
      cases w.regs.request w.regs.addr <;> rfl
  | dispatch =>
    have next : (clock g w.regs i).state = if w.regs.write w.regs.addr then .driveWrite else .driveRead := by
      simp only [clock, fsm, state, request state, fine.allowed, if_true]
    refine ⟨addr, ?_, ?_, fine.clock free⟩ <;> rw [next] <;> split_ifs <;> simp
  | _ =>
    have works : Ports.busy w.regs.state = true := by rw [state]; rfl
    have next := (clock_busy (g := g) (i := i) works).1
    rw [state] at next
    refine ⟨addr, ?_, ?_, fine.clock free⟩ <;> rw [next] <;> split_ifs <;> simp [behind]

theorem Keeps.run {other : Fin num} (keeps : Keeps w.regs port) (inv : Inv g w)
    (greedy : ∀ i ∈ inputs, Greedy port i) (apart : other ≠ port) : (Ports.run g w inputs).log other = w.log other := by
  induction inputs generalizing w with
  | nil => rfl
  | cons i inputs ih =>
    have first : other ≠ w.regs.addr := by
      rw [keeps.addr]
      exact apart
    obtain ⟨stall, ack, _⟩ := inv.resting other first
    have nothing := events_rest (i := i) first stall ((clock_others (g := g) (i := i) first).2.1.trans ack)
    have now := keeps.step inv (greedy i List.mem_cons_self)
    refine (ih now inv.step fun later mem => greedy later (List.mem_cons_of_mem i mem)).trans ?_
    exact (congrArg (w.log other ++ ·) nothing).trans (List.append_nil _)

def busy : Inputs 4 8 := ⟨fun port => ⟨port == 1, port == 1, true, 0x5a⟩, false, true, false, 0⟩

/-- Two ports. The second one has a strobe while its FIFO is full, and the first one from then on. -/
def full : Inputs 2 8 := ⟨fun port => ⟨port == 1, port == 1, true, 0x5a⟩, false, false, false, 0⟩

def greedy : Inputs 2 8 := ⟨fun port => ⟨port == 0, port == 0, true, 0xa5⟩, false, true, true, 0⟩

def early : List (Inputs 2 8) := List.replicate 10 full ++ List.replicate 2 greedy

end BelProject.Usb.Turns
