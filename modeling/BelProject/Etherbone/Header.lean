import BelProject.Etherbone.Wire

/-! Sockets and the Etherbone header. A socket only keeps the widths its build can hold,
so whatever a peer proposes, the width both ends settle on is a `Port` of that build. -/

namespace BelProject.Etherbone.Header
open Width Wire

/-- The sizes `eb_socket_open` leaves in a width byte on a build with `word` byte registers. -/
def constrainWidths (word : Nat) (widths : UInt8) : UInt8 :=
  let widths := if word < 8 then widths &&& ~~~0x08 else widths
  let widths := if word < 4 then widths &&& ~~~0x04 else widths
  let widths := if word < 2 then widths &&& ~~~0x02 else widths
  let widths := if word < 8 then widths &&& ~~~0x80 else widths
  let widths := if word < 4 then widths &&& ~~~0x40 else widths
  if word < 2 then widths &&& ~~~0x20 else widths

/-- The part of `struct eb_socket` that width negotiation reads. -/
structure Socket where
  word : Nat
  widths : UInt8
  word_size : word = 2 ∨ word = 4 ∨ word = 8
  constrained : constrainWidths word widths = widths
  possible : ebWidthPossible widths = true

theorem constrainWidths_idem (word : Nat) (word_size : word = 2 ∨ word = 4 ∨ word = 8) (widths : UInt8) :
    constrainWidths word (constrainWidths word widths) = constrainWidths word widths := by
  revert widths
  rcases word_size with rfl | rfl | rfl <;> exact forall_byte (by decide)

/-- `eb_socket_open` as far as the widths go. -/
def ebSocketOpen (word : Nat) (word_size : word = 2 ∨ word = 4 ∨ word = 8) (supported : UInt8) :
    Option Socket :=
  if possible : ebWidthPossible (constrainWidths word supported) = true then
    some ⟨word, constrainWidths word supported, word_size, constrainWidths_idem word word_size supported, possible⟩
  else none

/-- Every socket is one that `eb_socket_open` makes. -/
theorem ebSocketOpen_widths (socket : Socket) : ebSocketOpen socket.word socket.word_size socket.widths = some socket := by
  obtain ⟨word, widths, word_size, constrained, possible⟩ := socket
  simp only [ebSocketOpen, constrained, possible, dite_true]

theorem constrainWidths_and (word : Nat) (word_size : word = 2 ∨ word = 4 ∨ word = 8) (widths other : UInt8)
    (constrained : constrainWidths word widths = widths) :
    constrainWidths word (other &&& widths) = other &&& widths := by
  have mask : ∃ keep : UInt8, ∀ byte, constrainWidths word byte = byte &&& keep := by
    rcases word_size with rfl | rfl | rfl
    · exact ⟨0x33, forall_byte (by decide)⟩
    · exact ⟨0x77, forall_byte (by decide)⟩
    · exact ⟨0xff, forall_byte (by decide)⟩
  obtain ⟨keep, mask⟩ := mask
  rw [mask] at constrained ⊢
  rw [UInt8.and_assoc, constrained]

def dataSize (widths : UInt8) : Nat := (widths &&& 0xf).toNat

def addrSize (widths : UInt8) : Nat := (widths >>> 4).toNat

theorem refine_fits (word : Nat) (word_size : word = 2 ∨ word = 4 ∨ word = 8) (widths : UInt8)
    (constrained : constrainWidths word widths = widths)
    (possible : ebWidthPossible (ebWidthRefine widths) = true) :
    IsSize (dataSize (ebWidthRefine widths)) ∧ IsSize (addrSize (ebWidthRefine widths)) ∧
      dataSize (ebWidthRefine widths) ≤ word ∧ addrSize (ebWidthRefine widths) ≤ word := by
  revert widths
  rcases word_size with rfl | rfl | rfl <;> exact forall_byte (by decide)

def Socket.port (socket : Socket) (offered : UInt8)
    (possible : ebWidthPossible (ebWidthRefine (offered &&& socket.widths)) = true) : Port :=
  have constrained := constrainWidths_and socket.word socket.word_size socket.widths offered socket.constrained
  have fits := refine_fits socket.word socket.word_size _ constrained possible
  { word := socket.word
    data := dataSize (ebWidthRefine (offered &&& socket.widths))
    addr := addrSize (ebWidthRefine (offered &&& socket.widths))
    word_size := socket.word_size
    data_size := fits.1
    addr_size := fits.2.1
    data_le := fits.2.2.1
    addr_le := fits.2.2.2 }

def Socket.bufferSize (socket : Socket) : Nat := socket.word * (255 + 255 + 1 + 1) + 8

theorem Socket.port_word (socket : Socket) (offered : UInt8)
    (possible : ebWidthPossible (ebWidthRefine (offered &&& socket.widths)) = true) :
    (socket.port offered possible).word = socket.word := rfl

/-- Whom a call of `eb_device_slave` serves: a transport itself, or one of its links. -/
inductive Peer where
  | transport
  | passive
  | active
  deriving DecidableEq, Repr

/-- What the header phase makes of a packet. -/
inductive Verdict where
  | kill
  | probe (offered : UInt8)
  | response (tag : Nat) (widths : UInt8)
  | proceed (offered : UInt8)
  deriving DecidableEq, Repr

/-- The `if (header)` block of `eb_device_slave` on the bytes that were polled. -/
def parseHeader (socketWidths : UInt8) (peer : Peer) (packet : List Byte) : Verdict :=
  match packet with
  | b0 :: b1 :: b2 :: b3 :: rest =>
    if b0 ≠ 0x4E ∨ b1 ≠ 0x6F then .kill
    else if b2 &&& headerPf ≠ 0 then
      if packet.length ≠ 8 then .kill
      else if peer = .active then .kill
      else .probe b3
    else if b2 &&& headerPr ≠ 0 then
      if packet.length ≠ 8 then .kill
      else if peer = .passive then .kill
      else .response (BelProject.Library.BigEndian.decode rest) b3
    else if b2 &&& 0xf0 ≠ 0x10 then .kill
    else if ebWidthPossible (ebWidthRefine (b3 &&& socketWidths)) = false then .kill
    else .proceed b3
  | _ => .kill

theorem parseHeader_length (socketWidths : UInt8) (peer : Peer) (packet : List Byte)
    (probing : (∃ offered, parseHeader socketWidths peer packet = .probe offered) ∨
      ∃ tag widths, parseHeader socketWidths peer packet = .response tag widths) : packet.length = 8 := by
  unfold parseHeader at probing
  split at probing
  · by_contra different
    simp only [ne_eq, different, not_false_eq_true, if_true] at probing
    split_ifs at probing <;> simp at probing
  · simp at probing

end BelProject.Etherbone.Header
