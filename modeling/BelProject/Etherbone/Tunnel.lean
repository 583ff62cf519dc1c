import BelProject.Library.BigEndian
import BelProject.Library.Pieces

/-! Packets through a TCP stream. Each is sent behind its length in two bytes; the other end
takes the length, in two reads if it must, and then the payload in a single one. -/

namespace BelProject.Etherbone.Tunnel
open BelProject.Library Pieces

/-- What `eb_tunnel_send` puts on the stream. -/
def ebTunnelSend (packet : List UInt8) : List UInt8 :=
  [UInt8.ofNat (packet.length >>> 8), UInt8.ofNat packet.length] ++ packet

def stream (packets : List (List UInt8)) : List UInt8 := packets.flatMap ebTunnelSend

inductive Polled where
  | nothing
  | packet (bytes : List UInt8)
  | failed
  deriving DecidableEq

/-- `eb_posix_tcp_recv`: a read that returns nothing counts as a failure. -/
def ebPosixTcpRecv (len : Nat) (pieces : List (List UInt8)) : Option (List UInt8) × List (List UInt8) :=
  if (read len pieces).1.length = 0 then (none, (read len pieces).2)
    else (some (read len pieces).1, (read len pieces).2)

/-- `eb_posix_tcp_poll`: as long as nothing has arrived it returns 0, here no bytes. -/
def ebPosixTcpPoll (ready : Bool) (len : Nat) (pieces : List (List UInt8)) :
    Option (List UInt8) × List (List UInt8) :=
  if ready = false then (some [], pieces)
  else if pieces = [] then (some [], pieces)
  else ebPosixTcpRecv len pieces

/-- The end of `eb_tunnel_poll`, with both bytes of the length there. -/
def pollPayload (maxlen : Nat) (lenBuf : List UInt8) (pieces : List (List UInt8)) : Polled × List (List UInt8) :=
  let len := BigEndian.decode lenBuf
  if len > maxlen then (.failed, pieces)
  else
    match ebPosixTcpRecv len pieces with
    | (none, pieces) => (.failed, pieces)
    | (some bytes, pieces) => if bytes.length ≠ len then (.failed, pieces) else (.packet bytes, pieces)

def ebTunnelPoll (maxlen : Nat) (ready : Bool) (pieces : List (List UInt8)) : Polled × List (List UInt8) :=
  match ebPosixTcpPoll ready 2 pieces with
  | (none, pieces) => (.failed, pieces)
  | (some lenBuf, pieces) =>
    if lenBuf.length = 0 then (.nothing, pieces)
    else if lenBuf.length = 1 then
      match ebPosixTcpRecv 1 pieces with
      | (none, pieces) => (.failed, pieces)
      | (some low, pieces) => pollPayload maxlen (lenBuf ++ low) pieces
    else pollPayload maxlen lenBuf pieces

/-- Successive polls, each of which finds the link ready or not. A link that failed is gone. -/
def polls (maxlen : Nat) : List Bool → List (List UInt8) → List Polled
  | [], _ => []
  | ready :: more, pieces =>
    match ebTunnelPoll maxlen ready pieces with
    | (.failed, _) => [.failed]
    | (result, pieces) => result :: polls maxlen more pieces

/-- Any schedule of polls returns the packets that were sent, in order, one for each poll that
found the link ready, and nothing else. -/
def Delivers (maxlen : Nat) (packets pieces : List (List UInt8)) : Prop :=
  ∀ readies : List Bool, (polls maxlen readies pieces).filter (· ≠ .nothing) =
    (packets.take (readies.count true)).map .packet

theorem length_send (packet : List UInt8) : (ebTunnelSend packet).length = 2 + packet.length := by
  rw [ebTunnelSend, List.length_append]
  rfl

theorem decode_length (packet : List UInt8) (small : packet.length < 2 ^ 16) :
    BigEndian.decode [UInt8.ofNat (packet.length >>> 8), UInt8.ofNat packet.length] = packet.length := by
  have encoded : [UInt8.ofNat (packet.length >>> 8), UInt8.ofNat packet.length] = BigEndian.encode 2 packet.length := by
    rw [Nat.shiftRight_eq_div_pow]
    simp [BigEndian.encode]
  rw [encoded, BigEndian.decode_encode_of_lt (by omega)]

theorem ebTunnelPoll_length (maxlen : Nat) {pieces : List (List UInt8)} (solid : Solid pieces)
    {lenBuf rest : List UInt8}
    (two : lenBuf.length = 2) (sent : pieces.flatten = lenBuf ++ rest) :
    ∃ pieces', ebTunnelPoll maxlen true pieces = pollPayload maxlen lenBuf pieces' ∧ Solid pieces' ∧
      pieces'.flatten = rest ∧ ∀ cut, cut ∈ cuts pieces' ↔ 0 < cut ∧ 2 + cut ∈ cuts pieces := by
  have some : pieces ≠ [] := by
    rintro rfl
    have length := congrArg List.length sent
    rw [List.length_append, two] at length
    change 0 = 2 + rest.length at length
    omega
  have positive := solid.read_pos some (show 0 < 2 by decide)
  have atMost := length_read_le 2 pieces
  have whole := read_flatten 2 pieces
  have polled : ebPosixTcpPoll true 2 pieces = (Option.some (read 2 pieces).1, (read 2 pieces).2) := by
    rw [ebPosixTcpPoll, if_neg (by simp), if_neg some, ebPosixTcpRecv, if_neg (by omega)]
  have kept := solid.read 2
  have moved := fun cut => mem_cuts_read (n := 2) solid cut
  rw [sent] at whole
  generalize (read 2 pieces).1 = first at positive atMost whole polled moved
  generalize (read 2 pieces).2 = left at whole polled kept moved
  rw [ebTunnelPoll, polled]
  simp only
  rw [if_neg (by omega)]
  by_cases one : first.length = 1
  · rw [if_pos one]
    have more : left ≠ [] := by
      rintro rfl
      have length := congrArg List.length whole
      rw [List.length_append, List.length_append, one, two] at length
      change 1 + 0 = 2 + rest.length at length
      omega
    have again := kept.read_pos more (show 0 < 1 by decide)
    have atMost' := length_read_le 1 left
    have rest' := read_flatten 1 left
    rw [ebPosixTcpRecv, if_neg (by omega)]
    have buffer : first ++ (read 1 left).1 = lenBuf ∧ (read 1 left).2.flatten = rest := by
      apply List.append_inj
      · rw [List.append_assoc, rest', whole]
      · rw [List.length_append]
        omega
    refine ⟨(read 1 left).2, congrArg (fun lenBuf => pollPayload maxlen lenBuf _) buffer.1, kept.read 1, buffer.2, ?_⟩
    intro cut
    rw [mem_cuts_read kept, moved, one, show (read 1 left).1.length = 1 by omega]
    constructor
    · rintro ⟨there, _, member⟩
      exact ⟨there, by rwa [← Nat.add_assoc] at member⟩
    · rintro ⟨there, member⟩
      exact ⟨there, by omega, by rwa [← Nat.add_assoc]⟩
  · rw [if_neg one]
    have buffer : first = lenBuf ∧ left.flatten = rest := List.append_inj whole (by omega)
    refine ⟨left, by rw [buffer.1], kept, buffer.2, ?_⟩
    intro cut
    rw [moved, show first.length = 2 by omega]

def Uncut (pieces : List (List UInt8)) (start length : Nat) : Prop :=
  ∀ cut ∈ cuts pieces, ¬(start < cut ∧ cut < start + length)

instance (pieces : List (List UInt8)) (start length : Nat) : Decidable (Uncut pieces start length) :=
  inferInstanceAs (Decidable (∀ cut ∈ cuts pieces, ¬(start < cut ∧ cut < start + length)))

theorem ebTunnelPoll_packet (maxlen : Nat) {pieces : List (List UInt8)} (solid : Solid pieces)
    {packet rest : List UInt8}
    (small : packet.length < 2 ^ 16) (sent : pieces.flatten = ebTunnelSend packet ++ rest) :
    if 1 ≤ packet.length ∧ packet.length ≤ maxlen ∧ Uncut pieces 2 packet.length then
      ∃ pieces', ebTunnelPoll maxlen true pieces = (.packet packet, pieces') ∧ Solid pieces' ∧ pieces'.flatten = rest ∧
        ∀ cut, cut ∈ cuts pieces' ↔ 0 < cut ∧ (ebTunnelSend packet).length + cut ∈ cuts pieces
    else (ebTunnelPoll maxlen true pieces).1 = .failed := by
  rw [ebTunnelSend, List.append_assoc] at sent
  obtain ⟨left, polled, kept, payload, moved⟩ := ebTunnelPoll_length maxlen solid rfl sent
  rw [polled, pollPayload, decode_length packet small]
  by_cases long : packet.length > maxlen
  · rw [if_neg (fun good => by omega), if_pos long]
  rw [if_neg long, ebPosixTcpRecv]
  by_cases empty : packet.length = 0
  · have none : (read packet.length left).1.length = 0 := by
      have := length_read_le packet.length left
      omega
    rw [if_neg (fun good => by omega), if_pos none]
  have some : left ≠ [] := by
    rintro rfl
    have length := congrArg List.length payload
    rw [List.length_append] at length
    change 0 = packet.length + rest.length at length
    omega
  have positive := kept.read_pos some (show 0 < packet.length by omega)
  have enough : packet.length ≤ left.flatten.length := by rw [payload, List.length_append]; omega
  have whole : (read packet.length left).1.length = packet.length ↔ Uncut pieces 2 packet.length := by
    rw [length_read_iff enough]
    constructor
    · intro behind cut member inside
      have reached := behind (cut - 2) ((moved (cut - 2)).mpr ⟨by omega, by rwa [Nat.add_sub_cancel' (by omega)]⟩)
      omega
    · intro uncut cut member
      obtain ⟨there, member⟩ := (moved cut).mp member
      by_contra inside
      exact uncut (2 + cut) member ⟨by omega, by omega⟩
  have received : ¬(read packet.length left).1.length = 0 := by omega
  simp only [if_neg received]
  by_cases uncut : Uncut pieces 2 packet.length
  · have taken := whole.mpr uncut
    have same := read_flatten packet.length left
    rw [payload] at same
    obtain ⟨bytes, after⟩ := List.append_inj same taken
    rw [if_pos ⟨by omega, by omega, uncut⟩, if_neg (not_not.mpr taken), bytes]
    refine ⟨_, rfl, kept.read packet.length, after, ?_⟩
    intro cut
    have place : (ebTunnelSend packet).length + cut = 2 + (packet.length + cut) := by
      rw [length_send, Nat.add_assoc]
    rw [mem_cuts_read kept, moved, taken, place]
    constructor
    · rintro ⟨there, _, member⟩
      exact ⟨there, member⟩
    · rintro ⟨there, member⟩
      exact ⟨there, by omega, member⟩
  · rw [if_neg (fun good => uncut good.2.2), if_pos (fun taken => uncut (whole.mp taken))]

/-- Every packet of a sequence can be taken: it is not empty, fits the buffer of the call, and
no piece ends inside its payload. -/
def Whole (maxlen : Nat) (packets pieces : List (List UInt8)) : Prop :=
  ∀ before packet after, packets = before ++ packet :: after →
    1 ≤ packet.length ∧ packet.length ≤ maxlen ∧ Uncut pieces ((stream before).length + 2) packet.length

section
variable {maxlen : Nat} {packets pieces left : List (List UInt8)} {packet : List UInt8}

theorem whole_cons (behind : ∀ cut, cut ∈ cuts left ↔ 0 < cut ∧ (ebTunnelSend packet).length + cut ∈ cuts pieces) :
    Whole maxlen (packet :: packets) pieces ↔
      (1 ≤ packet.length ∧ packet.length ≤ maxlen ∧ Uncut pieces 2 packet.length) ∧ Whole maxlen packets left := by
  have moved : ∀ before length, Uncut pieces ((stream (packet :: before)).length + 2) length ↔
      Uncut left ((stream before).length + 2) length := by
    intro before length
    have place : (stream (packet :: before)).length = (ebTunnelSend packet).length + (stream before).length := by
      rw [stream, List.flatMap_cons, List.length_append, ← stream]
    rw [place]
    constructor
    · intro uncut cut member inside
      exact uncut _ ((behind cut).mp member).2 ⟨by omega, by omega⟩
    · intro uncut cut member inside
      have back : (ebTunnelSend packet).length + (cut - (ebTunnelSend packet).length) = cut := by omega
      exact uncut _ ((behind (cut - (ebTunnelSend packet).length)).mpr ⟨by omega, by rwa [back]⟩) ⟨by omega, by omega⟩
  constructor
  · intro whole
    refine ⟨whole [] packet packets rfl, ?_⟩
    rintro before other after rfl
    obtain ⟨some, fits, uncut⟩ := whole (packet :: before) other after rfl
    exact ⟨some, fits, (moved before other.length).mp uncut⟩
  · rintro ⟨first, whole⟩ before other after same
    cases before with
    | nil =>
      obtain ⟨rfl, rfl⟩ := List.cons.inj same
      exact first
    | cons front before =>
      obtain ⟨rfl, rfl⟩ := List.cons.inj same
      obtain ⟨some, fits, uncut⟩ := whole before other after rfl
      exact ⟨some, fits, (moved before other.length).mpr uncut⟩

theorem polls_idle (more : List Bool) : polls maxlen (false :: more) pieces =
    .nothing :: polls maxlen more pieces := rfl

theorem delivers_cons (polled : ebTunnelPoll maxlen true pieces = (.packet packet, left)) :
    Delivers maxlen (packet :: packets) pieces ↔ Delivers maxlen packets left := by
  have taken : ∀ more, polls maxlen (true :: more) pieces = .packet packet :: polls maxlen more left := by
    intro more
    rw [polls, polled]
  constructor
  · intro delivers readies
    have all := delivers (true :: readies)
    rw [taken, List.filter_cons_of_pos (by simp), List.count_cons_self, List.take_succ_cons, List.map_cons] at all
    exact (List.cons.inj all).2
  · intro delivers readies
    induction readies with
    | nil => rfl
    | cons ready more ih =>
      cases ready with
      | false =>
        rw [polls_idle, List.filter_cons_of_neg (by simp), ih, List.count_cons_of_ne (by decide)]
      | true =>
        rw [taken, List.filter_cons_of_pos (by simp), delivers more, List.count_cons_self,
          List.take_succ_cons, List.map_cons]

theorem delivers_nil : Delivers maxlen [] [] := by
  intro readies
  induction readies with
  | nil => rfl
  | cons ready more ih =>
    have idle : polls maxlen (ready :: more) [] = .nothing :: polls maxlen more [] := by
      cases ready <;> rfl
    rw [idle, List.filter_cons_of_neg (by simp), ih, List.take_nil, List.take_nil]

/-- Polls return exactly the packets that were sent, unless one of them is empty, too long for
the buffer, or cut inside its payload. -/
theorem delivers_iff (solid : Solid pieces) (small : ∀ packet ∈ packets, packet.length < 2 ^ 16)
    (sent : pieces.flatten = stream packets) : Delivers maxlen packets pieces ↔ Whole maxlen packets pieces := by
  induction packets generalizing pieces with
  | nil =>
    have none : pieces = [] := by
      cases pieces with
      | nil => rfl
      | cons piece pieces =>
        have empty := List.flatten_eq_nil_iff.mp sent piece List.mem_cons_self
        exact absurd empty (solid piece List.mem_cons_self)
    rw [none]
    refine ⟨fun _ => ?_, fun _ => delivers_nil⟩
    intro before packet after same
    exact absurd same (by simp)
  | cons packet packets ih =>
    have step := ebTunnelPoll_packet maxlen solid (small packet List.mem_cons_self) sent
    by_cases good : 1 ≤ packet.length ∧ packet.length ≤ maxlen ∧ Uncut pieces 2 packet.length
    · rw [if_pos good] at step
      obtain ⟨left, polled, kept, rest, behind⟩ := step
      rw [delivers_cons polled, whole_cons behind,
        ih kept (fun other member => small other (List.mem_cons_of_mem _ member)) rest]
      exact ⟨fun whole => ⟨good, whole⟩, fun whole => whole.2⟩
    · rw [if_neg good] at step
      refine ⟨fun delivers => ?_, fun whole => absurd (whole [] packet packets rfl) good⟩
      have once := delivers [true]
      have failed : polls maxlen [true] pieces = [.failed] := by
        rw [polls]
        generalize ebTunnelPoll maxlen true pieces = result at step ⊢
        obtain ⟨polled, left⟩ := result
        obtain rfl : polled = .failed := step
        rfl
      rw [failed] at once
      exact absurd once (by simp)

end

/-- A packet of three bytes, whole and with its last byte in a piece of its own. -/
theorem delivers_iff_whole :
    Delivers 1500 [[1, 2, 3]] [[0, 3, 1, 2, 3]] ↔ Whole 1500 [[1, 2, 3]] [[0, 3, 1, 2, 3]] :=
  delivers_iff (by decide) (by decide) rfl

theorem not_delivers_cut :
    [[0, 3, 1, 2], [3]].flatten = stream [[1, 2, 3]] ∧ ¬Delivers 1500 [[1, 2, 3]] [[0, 3, 1, 2], [3]] := by
  refine ⟨by decide, ?_⟩
  intro delivers
  exact absurd (delivers [true]) (by decide)

end BelProject.Etherbone.Tunnel
