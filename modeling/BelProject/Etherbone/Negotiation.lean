import BelProject.Etherbone.Slave
import BelProject.Etherbone.Operations

/-! Opening a device. `eb_device_open` sends probes until `eb_device_slave` has found the
widths of the other end in a response, and settles on the largest sizes both have. A response
that arrives later is not told apart from one that was waited for. -/

namespace BelProject.Etherbone.Negotiation
open BelProject.Library BigEndian Width Wire Operations Header Execute Slave

/-- A call of `eb_device_open` with the sockets at both ends; `others` are the other devices of
the near one. -/
structure Call where
  near : Socket
  far : Socket
  proposed : UInt8
  attempts : Int
  mtu : Nat
  devicep : Nat
  others : List Nat

namespace Call
variable (c : Call)

/-- `proposed_widths &= socket->widths`. -/
def offered : UInt8 := c.proposed &&& c.near.widths

def tag (devicep : Nat) : Nat := devicep % 256 ^ 4

def probe : List Byte := [0x4E, 0x6F, 0x11, c.offered] ++ encode 4 c.devicep

end Call

/-- Where `eb_device_open` is, or how it ended. -/
inductive Phase where
  | probing (attempts : Int)
  | opened
  | failed (status : Status)
  | closed
  deriving DecidableEq

structure Device where
  widths : UInt8
  up : Bool
  phase : Phase
  deriving DecidableEq

/-- `eb_device_open` up to its first wait. -/
def ebDeviceOpen (c : Call) : Device :=
  if ebWidthPossible c.offered = false then ⟨0, false, .failed .width⟩
  -- if the connection is streaming, we must do exactly one handshake
  else if c.mtu = 0 then ⟨0, true, .probing 1⟩
  else if c.attempts = 0 then
    -- only ok if the proposed widths are distinct
    if ebWidthRefined c.offered then ⟨c.offered, true, .opened⟩ else ⟨0, false, .failed .width⟩
  else ⟨0, true, .probing c.attempts⟩

/-- The header block of `eb_device_slave` on a packet for the link of the device. -/
def arrive (c : Call) (d : Device) (packet : List Byte) : Device :=
  if c.mtu = 0 then
    -- a stream has a header only as long as there are no widths
    if d.up = false ∨ d.widths ≠ 0 then d
    else match parseHeader c.near.widths .active packet with
      | .kill => { d with up := false }
      | .response tag widths =>
        if tag = Call.tag c.devicep then { d with widths := widths }
        else if tag ∈ c.others.map Call.tag then d
        else { d with up := false }
      | _ => d
  else match parseHeader c.near.widths .transport packet with
    | .response tag widths => if tag = Call.tag c.devicep then { d with widths := widths } else d
    | _ => d

/-- The end of `eb_device_open` once it stops waiting. -/
def settle (c : Call) (d : Device) : Device :=
  if d.up = false then { d with phase := .failed .fail }
  else if ebWidthPossible (d.widths &&& c.offered) = false then
    { d with widths := d.widths &&& c.offered, phase := .failed .width }
  else { d with widths := ebWidthRefine (d.widths &&& c.offered), phase := .opened }

inductive Event where
  /-- a packet for the link arrives -/
  | packet (bytes : List Byte)
  /-- `eb_socket_run` returns to `eb_device_open` -/
  | ran
  /-- three seconds are over -/
  | timeout
  | linkDown
  | close

def step (c : Call) (d : Device) : Event → Device
  | .packet bytes => match d.phase with
    | .probing _ => arrive c d bytes
    | .opened => arrive c d bytes
    | _ => d
  | .ran => match d.phase with
    | .probing _ => if d.up = true ∧ d.widths = 0 then d else settle c d
    | _ => d
  | .timeout => match d.phase with
    | .probing attempts =>
      if d.up = true ∧ d.widths = 0 then
        if attempts - 1 = 0 then { d with phase := .failed .timeout } else { d with phase := .probing (attempts - 1) }
      else settle c d
    | _ => d
  | .linkDown => { d with up := false }
  | .close => if d.phase = .opened then { d with phase := .closed } else d

/-- The states of a device in all runs whose events satisfy a condition. -/
inductive Reach (c : Call) (condition : Device → Event → Prop) : Device → Prop
  | start : Reach c condition (ebDeviceOpen c)
  | event {d : Device} {event : Event} (before : Reach c condition d) (met : condition d event) :
      Reach c condition (step c d event)

def answer (c : Call) (packet : List Byte) : Option UInt8 :=
  match parseHeader c.near.widths (if c.mtu = 0 then .active else .transport) packet with
  | .response tag widths => if tag = Call.tag c.devicep then some widths else none
  | _ => none

theorem arrive_widths (c : Call) (d : Device) (packet : List Byte) :
    (arrive c d packet).phase = d.phase ∧ ((arrive c d packet).widths = d.widths ∨
      ((c.mtu ≠ 0 ∨ d.widths = 0) ∧ answer c packet = some (arrive c d packet).widths)) := by
  unfold arrive answer
  by_cases stream : c.mtu = 0
  · rw [if_pos stream, if_pos stream]
    split
    · exact ⟨rfl, Or.inl rfl⟩
    next headed =>
      have none : d.widths = 0 := by
        by_contra some
        exact headed (Or.inr some)
      split
      · exact ⟨rfl, Or.inl rfl⟩
      next tag widths parsed =>
        by_cases ours : tag = Call.tag c.devicep
        · rw [if_pos ours]
          refine ⟨rfl, Or.inr ⟨Or.inr none, ?_⟩⟩
          rw [parsed]
          exact if_pos ours
        · rw [if_neg ours]
          split
          · exact ⟨rfl, Or.inl rfl⟩
          · exact ⟨rfl, Or.inl rfl⟩
      · exact ⟨rfl, Or.inl rfl⟩
  · rw [if_neg stream, if_neg stream]
    split
    · split
      · exact ⟨rfl, Or.inr ⟨Or.inl stream, rfl⟩⟩
      · exact ⟨rfl, Or.inl rfl⟩
    · exact ⟨rfl, Or.inl rfl⟩

/-- The widths the claim of the header file leaves: the largest sizes of all three. -/
def Call.agreed (c : Call) : UInt8 := ebWidthRefine (c.proposed &&& c.near.widths &&& c.far.widths)

/-- Until `eb_device_open` is done a response carries the widths of the far end; later there is
none, unless it repeats the widths of the device. -/
def Trusted (c : Call) (d : Device) : Event → Prop
  | .packet bytes => ∀ widths, answer c bytes = some widths → c.mtu ≠ 0 ∨ d.widths = 0 →
    (d.phase = .opened → widths = d.widths) ∧ (d.phase ≠ .opened → widths = c.far.widths)
  | _ => True

/-- A handshake takes place, or the far end has the sizes that are taken for granted. -/
def Shaken (c : Call) : Prop := c.mtu ≠ 0 → c.attempts = 0 → c.offered &&& c.far.widths = c.offered

/-- What a device knows in each phase. -/
structure Settled (c : Call) (d : Device) : Prop where
  probing : ∀ attempts, d.phase = .probing attempts → d.widths = 0 ∨ d.widths = c.far.widths
  opened : d.phase = .opened → d.widths = c.agreed ∧ ebWidthRefined d.widths = true

variable {d : Device}

theorem settled_done (c : Call) (probing : ∀ attempts, d.phase ≠ .probing attempts)
    (opened : d.phase ≠ .opened) : Settled c d :=
  ⟨fun attempts same => absurd same (probing attempts), fun same => absurd same opened⟩

theorem agreed_eq (c : Call) : ebWidthRefine (c.far.widths &&& c.offered) = c.agreed := by
  unfold Call.agreed Call.offered
  rw [UInt8.and_comm]

theorem settled_open (c : Call) (shaken : Shaken c) : Settled c (ebDeviceOpen c) := by
  unfold ebDeviceOpen
  split
  · exact settled_done c (by simp) (by simp)
  · split
    · exact ⟨fun _ _ => Or.inl rfl, by simp⟩
    next packets =>
      split
      next none =>
        split
        next refined =>
          refine ⟨by simp, fun _ => ⟨?_, refined⟩⟩
          show c.offered = ebWidthRefine (c.offered &&& c.far.widths)
          rw [shaken packets none, refine_of_refined _ refined]
        · exact settled_done c (by simp) (by simp)
      · exact ⟨fun _ _ => Or.inl rfl, by simp⟩

theorem Settled.settle {c : Call} (settled : Settled c d) {attempts : Int} (probing : d.phase = .probing attempts)
    (done : ¬ (d.up = true ∧ d.widths = 0)) : Settled c (settle c d) := by
  unfold Negotiation.settle
  split
  · exact settled_done c (by simp) (by simp)
  next up =>
    have far : d.widths = c.far.widths := by
      rcases settled.probing attempts probing with none | far
      · exact absurd ⟨by simpa using up, none⟩ done
      · exact far
    split
    · exact settled_done c (by simp) (by simp)
    next possible =>
      rw [Bool.not_eq_false] at possible
      refine ⟨by simp, fun _ => ⟨?_, ?_⟩⟩
      · rw [far]
        exact agreed_eq c
      · show ebWidthRefined (ebWidthRefine (d.widths &&& c.offered)) = true
        rw [refined_refine]
        exact possible

theorem Settled.step {c : Call} (settled : Settled c d) {event : Event} (trusted : Trusted c d event) :
    Settled c (step c d event) := by
  cases event with
  | packet bytes =>
    obtain ⟨phase, widths⟩ := arrive_widths c d bytes
    have kept : Settled c (arrive c d bytes) := by
      constructor
      · intro attempts probing
        rw [phase] at probing
        rcases widths with same | ⟨headed, answered⟩
        · rw [same]
          exact settled.probing attempts probing
        · right
          apply (trusted _ answered headed).2
          rw [probing]
          exact fun same => nomatch same
      · intro opened
        rw [phase] at opened
        have same : (arrive c d bytes).widths = d.widths := by
          rcases widths with same | ⟨headed, answered⟩
          · exact same
          · exact (trusted _ answered headed).1 opened
        rw [same]
        exact settled.opened opened
    show Settled c (match d.phase with
      | .probing _ => arrive c d bytes
      | .opened => arrive c d bytes
      | _ => d)
    split
    · exact kept
    · exact kept
    · exact settled
  | ran =>
    show Settled c (match d.phase with
      | .probing _ => if d.up = true ∧ d.widths = 0 then d else Negotiation.settle c d
      | _ => d)
    split
    next attempts probing =>
      split
      · exact settled
      next done => exact settled.settle probing done
    · exact settled
  | timeout =>
    show Settled c (match d.phase with
      | .probing attempts =>
        if d.up = true ∧ d.widths = 0 then
          if attempts - 1 = 0 then { d with phase := .failed .timeout } else { d with phase := .probing (attempts - 1) }
        else Negotiation.settle c d
      | _ => d)
    split
    next attempts probing =>
      split
      next waiting =>
        split
        · exact settled_done c (by simp) (by simp)
        · exact ⟨fun _ _ => Or.inl waiting.2, by simp⟩
      next done => exact settled.settle probing done
    · exact settled
  | linkDown => exact ⟨settled.probing, settled.opened⟩
  | close =>
    show Settled c (if d.phase = .opened then { d with phase := .closed } else d)
    split
    · exact settled_done c (by simp) (by simp)
    · exact settled

theorem widths_port (socket : Socket) (offered : UInt8)
    (possible : ebWidthPossible (ebWidthRefine (offered &&& socket.widths)) = true) :
    (socket.port offered possible).widths = ebWidthRefine (offered &&& socket.widths) := by
  have nibbles : ∀ byte : UInt8, UInt8.ofNat (addrSize byte * 16 + dataSize byte) = byte := forall_byte (by decide)
  exact nibbles _

theorem parseHeader_probe (c : Call) (peer : Peer) (passive : peer ≠ .active) :
    parseHeader c.far.widths peer c.probe = .probe c.offered := by
  have length : c.probe.length = 8 := by simp [Call.probe]
  unfold Call.probe at length ⊢
  simp only [List.cons_append, List.nil_append] at length ⊢
  unfold parseHeader
  dsimp only
  rw [if_neg (by decide), if_pos (by decide), if_neg (not_not.mpr length), if_neg passive]

theorem passive_negotiated {σ : Type} (c : Call) (bus : Bus σ) (start : σ)
    (possible : ebWidthPossible (ebWidthRefine (c.offered &&& c.far.widths)) = true) :
    ∃ p, (ebDeviceSlave c.far .passive 0 bus (Link.fresh none start [c.probe])).2.negotiated = some p ∧
      p.val.widths = c.agreed := by
  have length : c.probe.length = 8 := by simp [Call.probe]
  have room : c.probe.length ≤ c.far.bufferSize := by
    rw [length]
    exact Nat.le_add_left _ _
  have polled : poll c.far.bufferSize 0 [c.probe] = (c.probe, []) := by
    unfold poll
    dsimp only
    rw [List.take_of_length_le room, if_pos (Or.inr room)]
  unfold ebDeviceSlave
  rw [show (Link.fresh none start [c.probe] : Link σ c.far).input = [c.probe] from rfl, polled]
  dsimp only
  rw [if_neg (by omega), if_neg (by omega), if_pos rfl,
    show (Link.fresh none start [c.probe] : Link σ c.far).negotiated = none from rfl]
  dsimp only
  rw [parseHeader_probe c .passive (by decide)]
  dsimp only
  rw [dif_pos possible, if_pos rfl]
  exact ⟨_, rfl, widths_port c.far c.offered possible⟩

theorem answer_probe (c : Call) : answer c (probeAnswer c.far.widths c.probe) = some c.far.widths := by
  have length : (probeAnswer c.far.widths c.probe).length = 8 := by simp [probeAnswer, Call.probe]
  have bytes : probeAnswer c.far.widths c.probe =
      0x4E :: 0x6F :: (0x10 ||| headerPr ||| headerNr) :: c.far.widths :: encode 4 c.devicep := by
    simp [probeAnswer, Call.probe, List.take_of_length_le]
  have parsed : ∀ peer, peer ≠ .passive → parseHeader c.near.widths peer (probeAnswer c.far.widths c.probe) =
      .response (Call.tag c.devicep) c.far.widths := by
    intro peer active
    rw [bytes] at length ⊢
    unfold parseHeader
    dsimp only
    rw [if_neg (by decide), if_neg (by decide), if_pos (by decide), if_neg (not_not.mpr length),
      if_neg active, decode_encode]
    rfl
  unfold answer
  rw [parsed]
  · exact if_pos rfl
  · split <;> decide

/-- The device has the widths all three agree on, one size of each kind, and on a stream those
of the passive end. -/
def Negotiated (c : Call) (d : Device) : Prop :=
  d.widths = ebWidthRefine (c.proposed &&& c.near.widths &&& c.far.widths) ∧ ebWidthRefined d.widths = true ∧
    (c.mtu = 0 → ∀ (σ : Type) (bus : Bus σ) (start : σ),
      ∃ p, (ebDeviceSlave c.far .passive 0 bus (Link.fresh none start [c.probe])).2.negotiated = some p ∧
        p.val.widths = d.widths)

theorem Settled.negotiated {c : Call} (settled : Settled c d) (opened : d.phase = .opened) : Negotiated c d := by
  obtain ⟨widths, refined⟩ := settled.opened opened
  refine ⟨widths, refined, ?_⟩
  intro _ σ bus start
  have possible : ebWidthPossible (ebWidthRefine (c.offered &&& c.far.widths)) = true := by
    have same : d.widths = ebWidthRefine (c.offered &&& c.far.widths) := widths
    rw [← same]
    revert refined
    generalize d.widths = byte
    revert byte
    exact forall_byte (by decide)
  rw [widths]
  exact passive_negotiated c bus start possible

/-- As long as the device is open it keeps the negotiated widths, in every run in which a handshake
takes place and no response but that of the far end is taken, and none after it. -/
theorem widths_negotiated {c : Call} (shaken : Shaken c) (run : Reach c (Trusted c) d)
    (opened : d.phase = .opened) : Negotiated c d := by
  have settled : Settled c d := by
    clear opened
    induction run with
    | start => exact settled_open c shaken
    | event _ met ih => exact ih.step met
  exact settled.negotiated opened

def example64 : Call :=
  { near := ⟨8, 0xff, Port.wishbone64.word_size, by decide, by decide⟩
    far := ⟨8, 0xff, Port.wishbone64.word_size, by decide, by decide⟩
    proposed := 0xff
    attempts := 5
    mtu := 1472
    devicep := 1
    others := [] }

def opened64 : Device :=
  step example64 (step example64 (ebDeviceOpen example64) (.packet (probeAnswer 0xff example64.probe))) .ran

theorem opened64_trusted : Reach example64 (Trusted example64) opened64 := by
  refine .event (.event .start ?_) trivial
  intro widths answered _
  rw [show (0xff : UInt8) = example64.far.widths from rfl, answer_probe] at answered
  exact ⟨fun opened => absurd opened (by decide), fun _ => (Option.some.inj answered).symm⟩

theorem widths_negotiated_64 : opened64.widths = 0x88 ∧ Negotiated example64 opened64 :=
  ⟨by decide, widths_negotiated (fun _ zero => absurd zero (by decide)) opened64_trusted (by decide)⟩

/-- The same answer once more, and the open device has all sizes at once. -/
theorem widths_rewritten : ∃ d, Reach example64 (fun _ _ => True) d ∧ d.phase = .opened ∧ d.widths = 0xff ∧
    ¬ Negotiated example64 d := by
  refine ⟨step example64 opened64 (.packet (probeAnswer 0xff example64.probe)),
    .event (.event (.event .start trivial) trivial) trivial, by decide, by decide, ?_⟩
  intro negotiated
  exact absurd negotiated.2.1 (by decide)

end BelProject.Etherbone.Negotiation
