import BelProject.Etherbone.RoundTrip

/-! Any number of cycles in flight. `eb_device_flush` is called whenever the user likes, and
`eb_device_slave` for each packet that arrives at either end; packets overtake each other or get
lost. In whatever order things happen, each cycle is called back at most once, and with what its
own accesses came to. -/

namespace BelProject.Etherbone.Interleaving
open Width Operations Wire Format Flush Packets Requests Header Execute Slave Deliver Seams Transfer Answers ReplyRun
  Exchanges RoundTrip

/-- Two ends that exchange packets, with the bus behind the other one. -/
structure Ends (σ : Type) where
  port : Port
  mtu : Nat
  socket : Socket
  home : Socket
  peer : Peer
  peer' : Peer
  bus : Bus σ
  devices : Bus Inbox
  packet : mtu ≠ 0
  word : port.word = socket.word
  word' : port.word = home.word
  supported : ebWidthRefine (port.widths &&& socket.widths) = port.widths
  supported' : ebWidthRefine (port.widths &&& home.widths) = port.widths

variable {σ : Type} {e : Ends σ}

structure Flight (e : Ends σ) where
  cycle : Cycle
  alloc : Nat → Bool
  time : Nat
  rba : UInt16
  operations : List Operation
  response : Response
  bytes : List Byte
  screened : screen e.port alloc cycle = .ok operations
  few : needsCheck operations = false → busCount operations < 2 ^ 32 - 1
  even : rba.toNat % 2 = 0
  claimed : .respond response ∈ (ebDeviceFlush e.port e.mtu time alloc rba.toNat [cycle]).effects
  sent : bytes ∈ sends (ebDeviceFlush e.port e.mtu time alloc rba.toNat [cycle]).effects
  room : bytes.length ≤ e.socket.bufferSize

/-- A cycle that was carried out, with the accesses made for it. -/
structure Served (e : Ends σ) where
  flight : Flight e
  exchanges : List (Item × Access)
  operations : (own exchanges).map Prod.fst = flight.operations
  requests : ∀ exchange ∈ exchanges, exchange.2.request = carriedRequest e.port exchange.1

namespace Served

def accesses (s : Served e) : List Access := s.exchanges.map Prod.snd

/-- Every operation with the answer of its own access. -/
def callback (s : Served e) : Nat × List Operation × Status :=
  let answers := (own s.exchanges).map (answer (needsCheck s.flight.operations))
  (s.flight.cycle.handle, answers, verdict answers)

end Served

structure Net (e : Ends σ) where
  inbox : Inbox
  remote : σ
  trace : List Access
  requests : List (List Byte)
  answers : List (List Byte)
  flown : List (Flight e)
  lost : Nat

namespace Net

def start (e : Ends σ) (remote : σ) : Net e := ⟨⟨[], [], []⟩, remote, [], [], [], [], 0⟩

variable (n : Net e)

def flush (f : Flight e) : Net e :=
  { n with
    inbox := { n.inbox with queue := n.inbox.queue ++ [f.response] }
    requests := n.requests ++ [f.bytes]
    flown := n.flown ++ [f] }

def serve (bytes : List Byte) (others : List (List Byte)) : Net e :=
  let called := ebDeviceSlave e.socket e.peer e.mtu e.bus (Link.fresh none n.remote [bytes])
  { n with
    remote := called.2.bus
    trace := n.trace ++ called.2.trace
    requests := others
    answers := n.answers ++ called.2.sent }

def deliver (bytes : List Byte) (others : List (List Byte)) : Net e :=
  { n with
    inbox := (ebDeviceSlave e.home e.peer' e.mtu (Inbox.bus e.devices) (Link.fresh none n.inbox [bytes])).2.bus
    answers := others }

end Net

/-- Packets are taken in any order. A response address is not claimed again while it is in use. -/
inductive Step : Net e → Net e → Prop
  | flush (n : Net e) (f : Flight e) (unused : ∀ other ∈ n.inbox.queue, other.address ≠ f.rba.toNat) :
      Step n (n.flush f)
  | serve (n : Net e) {bytes : List Byte} {before behind : List (List Byte)}
      (taken : n.requests = before ++ bytes :: behind) :
    Step n (n.serve bytes (before ++ behind))
  | deliver (n : Net e) {bytes : List Byte} {before behind : List (List Byte)}
      (taken : n.answers = before ++ bytes :: behind) :
    Step n (n.deliver bytes (before ++ behind))
  | loseRequest (n : Net e) {bytes : List Byte} {before behind : List (List Byte)}
    (taken : n.requests = before ++ bytes :: behind) :
    Step n { n with requests := before ++ behind, lost := n.lost + 1 }
  | loseAnswer (n : Net e) {bytes : List Byte} {before behind : List (List Byte)}
    (taken : n.answers = before ++ bytes :: behind) : Step n { n with answers := before ++ behind, lost := n.lost + 1 }

def Underway (s : Served e) (bytes : List Byte) : Prop :=
  Reported e.port e.devices e.home.bufferSize s.flight.rba.toNat s.flight.operations s.exchanges bytes

/-- Where the cycles are. One that waits has a packet on its way there, a packet on its way back,
or lost one of the two. -/
structure Places (e : Ends σ) where
  there : List (Flight e)
  dropped : List (Flight e)
  back : List (Served e)
  missed : List (Served e)
  called : List (Served e)

namespace Places

def waiting (at' : Places e) : List (Flight e) := at'.there ++ at'.dropped ++ (at'.back ++ at'.missed).map Served.flight

def served (at' : Places e) : List (Served e) := at'.back ++ at'.missed ++ at'.called

end Places

/-- `waiting` and `served` are in the order of the queue and of the trace. -/
structure Inv (n : Net e) (places : Places e) (waiting : List (Flight e)) (served : List (Served e)) : Prop where
  requests : n.requests = places.there.map Flight.bytes
  answers : List.Forall₂ Underway places.back n.answers
  lost : n.lost = places.dropped.length + places.missed.length
  placed : places.waiting.Perm waiting
  queue : n.inbox.queue = waiting.map Flight.response
  apart : (waiting.map Flight.rba).Nodup
  flown : n.flown.Perm (places.called.map Served.flight ++ waiting)
  calls : n.inbox.calls = places.called.map Served.callback
  performed : places.served.Perm served
  trace : n.trace = served.flatMap Served.accesses

namespace Flight

variable (f : Flight e)

theorem accepted : ∀ op ∈ f.operations, Accepted e.port op := accepted_of_screen e.port f.screened

theorem in_flight : f.response = newResponse f.time f.rba.toNat f.cycle.handle f.operations ∧
    readback (formatCycle e.port f.operations) = true ∧
    f.bytes = packetHeader e.port false ++ stream e.port (cycleRecords e.port f.rba.toNat f.operations) :=
  flush_in_flight e.mtu f.time f.rba.toNat e.packet f.alloc f.cycle f.operations f.screened f.claimed f.sent

theorem address : f.response.address = f.rba.toNat := by
  rw [f.in_flight.1]
  rfl

end Flight

section
variable {n : Net e} {places : Places e} {waiting : List (Flight e)} {served : List (Served e)} {bytes : List Byte}
  {before behind : List (List Byte)}

theorem perm_of_count {α : Type} {old new target : List α} (placed : old.Perm target)
    (moved : ∀ [DecidableEq α] (x : α), new.count x = old.count x) : new.Perm target := by
  classical
  exact (List.perm_iff_count.mpr moved).trans placed

theorem Inv.request_taken (inv : Inv n places waiting served) (taken : n.requests = before ++ bytes :: behind) :
    ∃ first f rest, places.there = first ++ f :: rest ∧ f.bytes = bytes ∧
      before ++ behind = (first ++ rest).map Flight.bytes := by
  obtain ⟨first, others, split, rfl, tail⟩ := List.map_eq_append_iff.mp (inv.requests.symm.trans taken)
  obtain ⟨f, rest, rfl, rfl, rfl⟩ := List.map_eq_cons_iff.mp tail
  exact ⟨first, f, rest, split, rfl, List.map_append.symm⟩

theorem Inv.answer_taken (inv : Inv n places waiting served) (taken : n.answers = before ++ bytes :: behind) :
    ∃ first s rest, places.back = first ++ s :: rest ∧ Underway s bytes ∧
      List.Forall₂ Underway (first ++ rest) (before ++ behind) := by
  have answers := inv.answers
  rw [taken] at answers
  have front := List.forall₂_take_append places.back before _ answers
  have tail := List.forall₂_drop_append places.back before _ answers
  obtain ⟨s, rest, underway, later, split⟩ := List.forall₂_cons_right_iff.mp tail
  refine ⟨places.back.take before.length, s, rest, ?_, underway, List.rel_append front later⟩
  rw [← split, List.take_append_drop]

theorem Inv.flush (inv : Inv n places waiting served) {f : Flight e}
    (unused : ∀ other ∈ n.inbox.queue, other.address ≠ f.rba.toNat) :
    Inv (n.flush f) { places with there := places.there ++ [f] } (waiting ++ [f]) served :=
  { inv with
    requests := by rw [List.map_append, ← inv.requests]; rfl
    placed := by
      apply perm_of_count (inv.placed.append_right [f])
      intro _ x
      simp only [Places.waiting, List.count_append]
      omega
    queue := by rw [List.map_append, ← inv.queue]; rfl
    apart := by
      rw [List.map_append, List.nodup_append]
      refine ⟨inv.apart, List.nodup_singleton _, ?_⟩
      rintro rba member _ last rfl
      obtain ⟨other, waits, same⟩ := List.mem_map.mp member
      apply unused other.response (inv.queue ▸ List.mem_map_of_mem waits)
      rw [other.address, same, List.mem_singleton.mp last]
    flown := by
      rw [← List.append_assoc]
      exact inv.flown.append_right [f] }

theorem Inv.serve (inv : Inv n places waiting served) (taken : n.requests = before ++ bytes :: behind) :
    ∃ places' served', Inv (n.serve bytes (before ++ behind)) places' waiting served' := by
  obtain ⟨first, f, rest, there, rfl, others⟩ := inv.request_taken taken
  obtain ⟨_, reads, packet⟩ := f.in_flight
  obtain ⟨exchanges, answer, _, trace, sent, reported⟩ := cycle_served e.socket e.home e.word e.word' e.supported e.peer
    e.packet e.bus n.remote e.devices f.rba.toNat_lt f.accepted f.few reads (packet ▸ f.room)
  rw [← packet] at trace sent
  let s : Served e := ⟨f, exchanges, reported.operations, reported.requests⟩
  have flight : s.flight = f := rfl
  refine ⟨{ places with there := first ++ rest, back := places.back ++ [s] }, served ++ [s], ?_⟩
  dsimp only [Net.serve]
  rw [trace, sent]
  exact
    { inv with
      requests := others
      answers := List.rel_append inv.answers (.cons reported .nil)
      placed := by
        apply perm_of_count inv.placed
        intro _ x
        simp only [Places.waiting, there, flight, List.map_append, List.map_singleton, List.count_append,
          List.count_cons, List.count_nil]
        omega
      performed := by
        apply perm_of_count (inv.performed.append_right [s])
        intro _ x
        simp only [Places.served, List.count_append]
        omega
      trace := by
        rw [inv.trace, List.flatMap_append, List.flatMap_singleton]
        rfl }

theorem Inv.deliver (inv : Inv n places waiting served) (taken : n.answers = before ++ bytes :: behind) :
    ∃ places' waiting', Inv (n.deliver bytes (before ++ behind)) places' waiting' served := by
  obtain ⟨first, s, rest, back, underway, others⟩ := inv.answer_taken taken
  have waits : s.flight ∈ waiting := inv.placed.mem_iff.mp (by simp [Places.waiting, back])
  obtain ⟨front, behind, rfl⟩ := List.append_of_mem waits
  have apart := inv.apart
  rw [List.map_append, List.map_cons, List.nodup_middle, List.nodup_cons, ← List.map_append] at apart
  have other : ∀ other ∈ front.map Flight.response, other.address ≠ s.flight.rba.toNat := by
    intro other member
    obtain ⟨g, here, rfl⟩ := List.mem_map.mp member
    rw [g.address]
    intro same
    exact apart.1 (List.mem_map.mpr ⟨g, List.mem_append_left _ here, UInt16.toNat_inj.mp same⟩)
  have queued := inv.queue
  rw [List.map_append, List.map_cons, s.flight.in_flight.1] at queued
  obtain ⟨writes, _, _, bus, completes⟩ := underway.completes e.home e.word' e.supported' e.peer' e.packet s.flight.time
    s.flight.rba.toNat_lt s.flight.even s.flight.cycle.handle s.flight.accepted s.flight.few
      s.flight.in_flight.2.1 queued
    other
  refine ⟨{ places with back := first ++ rest, called := places.called ++ [s] }, front ++ behind, ?_⟩
  dsimp only [Net.deliver]
  rw [bus, completes.completed]
  exact
    { inv with
      answers := others
      placed := by
        apply List.Perm.cons_inv (a := s.flight)
        apply perm_of_count (inv.placed.trans List.perm_middle)
        intro _ x
        simp only [Places.waiting, back, List.map_append, List.map_cons, List.count_append, List.count_cons]
        omega
      queue := List.map_append.symm
      apart := apart.2
      flown := by
        rw [List.map_append, List.append_assoc]
        exact inv.flown.trans (List.perm_middle.symm.append_left _).symm
      calls := by rw [List.map_append, ← inv.calls]; rfl
      performed := by
        apply perm_of_count inv.performed
        intro _ x
        simp only [Places.served, back, List.count_append, List.count_cons, List.count_nil]
        omega }

theorem Inv.loseRequest (inv : Inv n places waiting served) (taken : n.requests = before ++ bytes :: behind) :
    ∃ places', Inv { n with requests := before ++ behind, lost := n.lost + 1 } places' waiting served := by
  obtain ⟨first, f, rest, there, _, others⟩ := inv.request_taken taken
  exact ⟨{ places with there := first ++ rest, dropped := f :: places.dropped },
    { inv with
      requests := others
      lost := by
        rw [inv.lost]
        exact Nat.add_right_comm _ _ 1
      placed := by
        apply perm_of_count inv.placed
        intro _ x
        simp only [Places.waiting, there, List.count_append, List.count_cons]
        omega }⟩

theorem Inv.loseAnswer (inv : Inv n places waiting served) (taken : n.answers = before ++ bytes :: behind) :
    ∃ places', Inv { n with answers := before ++ behind, lost := n.lost + 1 } places' waiting served := by
  obtain ⟨first, s, rest, back, _, others⟩ := inv.answer_taken taken
  exact ⟨{ places with back := first ++ rest, missed := s :: places.missed },
    { inv with
      answers := others
      lost := by rw [inv.lost, List.length_cons, Nat.add_assoc]
      placed := by
        apply perm_of_count inv.placed
        intro _ x
        simp only [Places.waiting, back, List.map_append, List.map_cons, List.count_append, List.count_cons]
        omega
      performed := by
        apply perm_of_count inv.performed
        intro _ x
        simp only [Places.served, back, List.count_append, List.count_cons]
        omega }⟩

theorem Inv.step (inv : Inv n places waiting served) {n' : Net e} (step : Step n n') :
    ∃ places' waiting' served', Inv n' places' waiting' served' := by
  cases step with
  | flush f unused => exact ⟨_, _, _, inv.flush unused⟩
  | serve taken =>
    obtain ⟨places', served', inv'⟩ := inv.serve taken
    exact ⟨_, _, _, inv'⟩
  | deliver taken =>
    obtain ⟨places', waiting', inv'⟩ := inv.deliver taken
    exact ⟨_, _, _, inv'⟩
  | loseRequest taken =>
    obtain ⟨places', inv'⟩ := inv.loseRequest taken
    exact ⟨_, _, _, inv'⟩
  | loseAnswer taken =>
    obtain ⟨places', inv'⟩ := inv.loseAnswer taken
    exact ⟨_, _, _, inv'⟩

end

theorem inv_start (remote : σ) : Inv (Net.start e remote) ⟨[], [], [], [], []⟩ [] [] :=
  ⟨rfl, .nil, rfl, .refl _, rfl, .nil, .refl _, rfl, .refl _, rfl⟩

theorem inv_run {remote : σ} {n : Net e} (run : Relation.ReflTransGen Step (Net.start e remote) n) :
    ∃ places waiting served, Inv n places waiting served := by
  induction run with
  | refl => exact ⟨_, _, _, inv_start remote⟩
  | tail _ step ih =>
    obtain ⟨_, _, _, inv⟩ := ih
    exact inv.step step

/-- The other end carries the cycles out one after the other, each at most once. A cycle is
called back with what its own accesses came to, or it waits in the queue; for each that waits,
one packet is under way or lost. -/
theorem run_callbacks {remote : σ} {n : Net e} (run : Relation.ReflTransGen Step (Net.start e remote) n) :
    ∃ (served called : List (Served e)) (waiting : List (Flight e)),
      n.trace = served.flatMap Served.accesses ∧ (served.map Served.flight).Subperm n.flown ∧
      n.inbox.calls = called.map Served.callback ∧ called.Subperm served ∧
      n.inbox.queue = waiting.map Flight.response ∧ n.flown.Perm (called.map Served.flight ++ waiting) ∧
      waiting.length = n.requests.length + n.answers.length + n.lost := by
  obtain ⟨places, waiting, served, inv⟩ := inv_run run
  refine ⟨served, places.called, waiting, inv.trace, ?_, inv.calls, ?_, inv.queue, inv.flown, ?_⟩
  · have placed : (places.called.map Served.flight ++ places.waiting).Perm n.flown :=
      (inv.placed.append_left _).trans inv.flown.symm
    have performed := inv.performed.symm.map Served.flight
    have inside : (places.served.map Served.flight).Subperm (places.called.map Served.flight ++ places.waiting) := by
      rw [Places.served, Places.waiting, List.map_append]
      apply List.perm_append_comm.subperm.trans
      exact ((List.sublist_append_right _ _).append_left _).subperm
    exact performed.subperm.trans (inside.trans placed.subperm)
  · exact (List.sublist_append_right _ _).subperm.trans inv.performed.subperm
  · rw [← inv.placed.length_eq, inv.requests, ← inv.answers.length_eq, inv.lost]
    simp only [Places.waiting, List.length_append, List.length_map]
    omega

theorem board_word : Port.wishbone32.word = board.word := rfl

theorem board_supported : ebWidthRefine (Port.wishbone32.widths &&& board.widths) = Port.wishbone32.widths := by decide

def mixedEnds : Ends Unit where
  port := Port.wishbone32
  mtu := 1472
  socket := board
  home := board
  peer := .passive
  peer' := .active
  bus := broken
  devices := nobody
  packet := Nat.succ_ne_zero 1471
  word := board_word
  word' := board_word
  supported := board_supported
  supported' := board_supported

def mixedFlight (rba : UInt16) (first : rba = 0x8000 ∨ rba = 0x8002) : Flight mixedEnds where
  cycle := mixedCycle
  alloc := fun _ => true
  time := 0
  rba := rba
  operations := mixedOperations
  response := newResponse 0 rba.toNat 1 mixedOperations
  bytes := packetHeader Port.wishbone32 false ++ stream Port.wishbone32
    (cycleRecords Port.wishbone32 rba.toNat mixedOperations)
  screened := by decide +kernel
  few := by decide
  even := by rcases first with rfl | rfl <;> rfl
  claimed := by rcases first with rfl | rfl <;> decide +kernel
  sent := by rcases first with rfl | rfl <;> decide +kernel
  room := by rcases first with rfl | rfl <;> decide +kernel

/-- The second of two cycles overtakes the first. -/
theorem run_callbacks_overtaken :
    let one := mixedFlight 0x8000 (.inl rfl)
    let two := mixedFlight 0x8002 (.inr rfl)
    let n := (((Net.start mixedEnds ()).flush one).flush two).serve two.bytes [one.bytes]
    ∃ (served called : List (Served mixedEnds)) (waiting : List (Flight mixedEnds)),
      n.trace = served.flatMap Served.accesses ∧ n.inbox.calls = called.map Served.callback ∧
      [one, two].Perm (called.map Served.flight ++ waiting) := by
  intro one two n
  have start : Step (Net.start mixedEnds ()) _ := .flush _ one (by simp [Net.start])
  have later : Step ((Net.start mixedEnds ()).flush one) _ := .flush _ two (by
    simp only [Net.flush, Net.start, List.nil_append, List.forall_mem_singleton]
    decide)
  have inside : (((Net.start mixedEnds ()).flush one).flush two).requests = [one.bytes] ++ two.bytes :: [] := rfl
  have overtaken : Step (((Net.start mixedEnds ()).flush one).flush two) n := .serve _ inside
  obtain ⟨served, called, waiting, trace, _, calls, _, _, flown, _⟩ :=
    run_callbacks (((Relation.ReflTransGen.single start).tail later).tail overtaken)
  exact ⟨served, called, waiting, trace, calls, flown⟩

end BelProject.Etherbone.Interleaving
