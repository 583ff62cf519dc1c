import BelProject.EbMaster.EthTx
import BelProject.Library.Runs
import BelProject.SlaveCore.Checksum

/-! What the Etherbone master sends. The counter that tells the length in front of a packet from
its words is shared by both sides of the FIFO: a commit resets it, wherever the reader is. -/

namespace BelProject.EbMaster.Sending
open EthTx
open BelProject.SlaveCore.Checksum (count_pred)
open CommitLenFifo (Fifo Represents)
open BelProject.Library.Runs (Along along_append)

/-- A packet on the wire: its IP and UDP lengths are those of the packet, and the IP checksum
includes the first. -/
def sentAs (packet : List (BitVec 16)) : List (BitVec 16) :=
  packet.mapIdx fun k word =>
    if k = 8 then BitVec.ofNat 16 (2 * packet.length - 14)
    else if k = 12 then ~~~(word + BitVec.ofNat 16 (2 * packet.length - 14))
    else if k = 19 then BitVec.ofNat 16 (2 * packet.length - 34)
    else word

/-- Beside the registers: the words of the packet that is being written, the committed packets,
the frames that were sent, and the frame on the wire. -/
structure World (depth : Nat) where
  regs : Registers depth
  pending : List (BitVec 16)
  committed : List (List (BitVec 16))
  frames : List (List (BitVec 16))
  current : Option (List (BitVec 16))

variable {depth : Nat}

def pendingNext (w : World depth) (i : Inputs) : List (BitVec 16) :=
  if w.regs.state = .commit ∨ w.regs.state = .skip then []
  else if bufPush w.regs i && bufCyc w.regs then w.pending ++ [bufData w.regs i] else w.pending

def transferred (r : Registers depth) (i : Inputs) : List (BitVec 16) := if srcStb r && !i.stall then [srcDat r] else []

/-- A frame lasts while `cyc` is high. -/
def step (w : World depth) (i : Inputs) : World depth :=
  { regs := clock w.regs i
    pending := pendingNext w i
    committed := if w.regs.state = .commit then w.committed ++ [w.pending] else w.committed
    frames := if srcCyc w.regs then w.frames else w.frames ++ w.current.toList
    current := if srcCyc w.regs then some (w.current.getD [] ++ transferred w.regs i) else none }

def run (w : World depth) (inputs : List Inputs) : World depth := inputs.foldl step w

def start (ipTol udpLen : BitVec 16) (ram : Nat → BitVec 17) (rDat : BitVec 17) : World depth :=
  ⟨EthTx.reset ipTol udpLen (CommitLenFifo.reset ram rDat), [], [], [], none⟩

/-- The frames are the first of the committed packets, in their order, and the frame on the wire
is the beginning of the next one. Each packet is long enough to have all headers, and short enough
for the length to fit. When the wire takes a word a clock, everything committed is sent. -/
structure Faithful (w : World depth) (inputs : List Inputs) : Prop where
  frames : (run w inputs).frames <+: (run w inputs).committed.map sentAs
  current : ∀ words ∈ (run w inputs).current,
    ∃ frame, (run w inputs).frames ++ [frame] <+: (run w inputs).committed.map sentAs ∧ words <+: frame
  lengths : ∀ packet ∈ (run w inputs).committed, 21 ≤ packet.length ∧ 2 * packet.length < 2 ^ 16
  sent : ∀ past more, inputs = past ++ more → 2 ^ depth ≤ more.length → (∀ i ∈ more, i.stall = false) →
    (run w past).committed.map sentAs <+: (run w inputs).frames

/-- A packet is committed when all packets before it were read, and there is a cell left. -/
def Alone (w : World depth) : Prop := w.regs.state = .commit → w.regs.tx.rIdx = w.regs.tx.eIdx ∧ w.regs.tx.full = false

instance (w : World depth) : Decidable (Alone w) :=
  inferInstanceAs (Decidable (w.regs.state = .commit → w.regs.tx.rIdx = w.regs.tx.eIdx ∧ w.regs.tx.full = false))

/-! ### The write side -/

def headerWords : State → Option Nat
  | .ip => some 6
  | .udp => some 16
  | .done => some 20
  | _ => none

/-- How many words a packet has in a state of the machine, and whether the next word is due. -/
def Stage (r : Registers depth) (n : Nat) : Prop :=
  match r.state with
  | .ethernet => r.hdrStb = false ∧ n = 0
  | .ip => r.hdrStb = true ∧ n = 6
  | .udp => r.hdrStb = true ∧ n = 16
  | .done => r.hdrStb = true ∧ n = 20
  | .wait => r.hdrStb = false ∧ n = 21
  | .payload => 21 ≤ n
  | .runt => r.hdrStb = true ∧ 21 ≤ n
  | .lower => r.hdrStb = true ∧ 21 ≤ n
  | .commit => r.hdrStb = false ∧ 21 ≤ n
  | .skip => r.hdrStb = false
  | .push =>
    r.hdrStb = true ∧
      (r.staten = .lower ∧ 21 ≤ n ∨
        ∃ total, headerWords r.staten = some total ∧ 1 ≤ r.count.toNat ∧ n + r.count.toNat = total)

variable {w : World depth} {i : Inputs}

theorem stage_header {r : Registers depth} {n : Nat} (strobe : r.hdrStb = true)
    (known : headerWords r.state = some n) : Stage r n := by
  cases state : r.state <;> rw [state] at known <;> cases known <;> simp [Stage, state, strobe]

theorem Stage.step (stage : Stage w.regs w.pending.length) (room : w.regs.state = .commit → w.regs.tx.full = false) :
    Stage (clock w.regs i) (pendingNext w i).length := by
  cases state : w.regs.state with
  | ethernet =>
    simp only [Stage, state] at stage
    obtain ⟨quiet, none⟩ := stage
    cases ready : w.regs.ready <;>
    simp [Stage, clock, hdr, state, pendingNext, bufPush, bufStb, quiet, none, ready, ethLen, fStep, headerWords]
  | ip =>
    simp only [Stage, state] at stage
    obtain ⟨due, count⟩ := stage
    cases full : w.regs.tx.full <;>
    simp [Stage, clock, hdr, state, pendingNext, bufPush, bufStb, bufCyc, due, count, full, ipLen, fStep, headerWords]
  | udp =>
    simp only [Stage, state] at stage
    obtain ⟨due, count⟩ := stage
    cases full : w.regs.tx.full <;>
    simp [Stage, clock, hdr, state, pendingNext, bufPush, bufStb, bufCyc, due, count, full,
      EthTx.udpLen, fStep, headerWords]
  | done =>
    simp only [Stage, state] at stage
    obtain ⟨due, count⟩ := stage
    cases full : w.regs.tx.full <;> cases cyc : i.slave.cyc <;> cases skip : i.skipStb <;>
    simp [Stage, clock, hdr, state, pendingNext, bufPush, bufStb, bufCyc, due, count, full, payloadNext, cyc, skip]
  | wait =>
    simp only [Stage, state] at stage
    obtain ⟨due, count⟩ := stage
    cases cyc : i.slave.cyc <;> cases skip : i.skipStb <;>
    simp [Stage, clock, hdr, state, pendingNext, bufPush, bufStb, due, count, payloadNext, cyc, skip]
  | payload =>
    simp only [Stage, state] at stage
    cases cyc : i.slave.cyc with
    | false =>
      by_cases short : inBytes w.regs < runtMin <;>
      simp [Stage, clock, hdr, state, pendingNext, bufPush, bufStb, stage, cyc, short]
    | true =>
      cases taken : bufPush w.regs i <;>
      simp [Stage, clock, hdr, state, pendingNext, bufCyc, cyc, taken] <;> omega
  | runt =>
    simp only [Stage, state] at stage
    obtain ⟨due, count⟩ := stage
    cases full : w.regs.tx.full <;>
    simp [Stage, clock, hdr, state, pendingNext, bufPush, bufStb, bufCyc, due, count, full]
    omega
  | lower =>
    simp only [Stage, state] at stage
    obtain ⟨due, count⟩ := stage
    cases full : w.regs.tx.full <;>
    simp [Stage, clock, hdr, state, pendingNext, bufPush, bufStb, bufCyc, due, count, full]
  | commit =>
    simp only [Stage, state] at stage
    obtain ⟨quiet, count⟩ := stage
    simp [Stage, clock, hdr, state, pendingNext, quiet, room state]
  | skip =>
    simp only [Stage, state] at stage
    simp [Stage, clock, hdr, state, pendingNext, stage]
  | push =>
    simp only [Stage, state] at stage
    obtain ⟨due, counted⟩ := stage
    cases full : w.regs.tx.full with
    | true => simpa [Stage, clock, hdr, state, pendingNext, bufPush, bufStb, due, full] using counted
    | false =>
      have longer : (pendingNext w i).length = w.pending.length + 1 := by
        simp [pendingNext, state, bufPush, bufStb, bufCyc, due, full]
      have strobe : (clock w.regs i).hdrStb = true := by simp [clock, hdr, state, full, due]
      have target : (clock w.regs i).staten = w.regs.staten := by simp [clock, hdr, state, full]
      have less : (clock w.regs i).count = w.regs.count - 1 := by simp [clock, hdr, state, full]
      have next : (clock w.regs i).state = if w.regs.count = 1 then w.regs.staten
        else .push := by simp [clock, hdr, state, full]
      rw [longer]
      split_ifs at next with last
      · rcases counted with ⟨lower, enough⟩ | ⟨total, known, positive, counts⟩
        · rw [lower] at next
          simp only [Stage, next, strobe, true_and]
          omega
        · rw [last] at counts
          exact stage_header strobe (by rw [next, known, ← counts]; rfl)
      · simp only [Stage, next, strobe, target, less, true_and]
        rcases counted with ⟨lower, enough⟩ | ⟨total, known, positive, counts⟩
        · exact Or.inl ⟨lower, Nat.le_succ_of_le enough⟩
        · obtain ⟨positive', pred⟩ := count_pred positive last
          exact Or.inr ⟨total, known, positive', by omega⟩

/-- The cells of a packet without its length: the words, and an end that lowers `cyc`. -/
def cells (packet : List (BitVec 16)) (last : BitVec 16) : List (BitVec 17) := packet.map (1#1 ++ ·) ++ [0#1 ++ last]

theorem length_cells (packet : List (BitVec 16)) (last : BitVec 16) :
    (cells packet last).length = packet.length + 1 := by
  rw [cells, List.length_append, List.length_map, List.length_singleton]

/-- The cells of the packet that is being written. -/
def Written (w : World depth) (written : List (BitVec 17)) : Prop :=
  if w.regs.state = .commit then ∃ last, written = cells w.pending last else written = w.pending.map (1#1 ++ ·)

structure Writing (w : World depth) (queue written : List (BitVec 17)) : Prop where
  rep : Represents w.regs.tx queue written
  packet : Written w written
  full : w.regs.state ≠ .ethernet → w.regs.tx.full = decide (queue.length + 1 + written.length = 2 ^ depth)

theorem Writing.room {queue written : List (BitVec 17)} (writing : Writing w queue written) (busy : w.regs.state ≠ .ethernet)
    (free : w.regs.tx.full = false) : queue.length + 1 + written.length < 2 ^ depth := by
  rw [writing.full busy, decide_eq_false_iff_not] at free
  exact Nat.lt_of_le_of_ne writing.rep.fits free

theorem commit_next (stage : Stage w.regs w.pending.length) (other : w.regs.state ≠ .commit) :
    (clock w.regs i).state = .commit ↔ w.regs.state = .lower ∧ w.regs.tx.full = false := by
  cases state : w.regs.state with
  | commit => exact absurd state other
  | lower => cases full : w.regs.tx.full <;> simp [clock, hdr, state, full]
  | ethernet => cases ready : w.regs.ready <;> simp [clock, hdr, state, ready]
  | payload => cases cyc : i.slave.cyc <;> by_cases short : inBytes w.regs < runtMin <;> simp [clock, hdr, state, cyc, short]
  | push =>
    simp only [Stage, state] at stage
    have target : w.regs.staten ≠ .commit := by
      rcases stage.2 with ⟨lower, _⟩ | ⟨total, known, _⟩
      · rw [lower]
        exact State.noConfusion
      · intro commits
        rw [commits] at known
        cases known
    cases full : w.regs.tx.full <;> by_cases last : w.regs.count = 1#5 <;> simp [clock, hdr, state, full, last, target]
  | skip => simp [clock, hdr, state]
  | wait => cases cyc : i.slave.cyc <;> cases skip : i.skipStb <;> simp [clock, hdr, state, payloadNext, cyc, skip]
  | done =>
    cases full : w.regs.tx.full <;> cases cyc : i.slave.cyc <;> cases skip : i.skipStb <;>
    simp [clock, hdr, state, full, payloadNext, cyc, skip]
  | _ => cases full : w.regs.tx.full <;> simp [clock, hdr, state, full]

theorem Writing.next {queue written : List (BitVec 17)} (writing : Writing w queue written)
    (stage : Stage w.regs w.pending.length)
    (other : w.regs.state ≠ .commit) (present : (txPop w.regs i).toNat ≤ queue.length) :
    ∃ written', Writing (step w i) (queue.drop (txPop w.regs i).toNat) written' := by
  have commit : (writes w.regs i).commit = false := decide_eq_false other
  have pending := writing.packet
  rw [Written, if_neg other] at pending
  have left := writing.rep.popped present
  have fits := left.fits
  cases push : bufPush w.regs i with
  | false =>
    have still : (step w i).regs.state ≠ .commit := by
      intro commits
      obtain ⟨lower, free⟩ := (commit_next stage other).mp commits
      rw [Stage, lower] at stage
      rw [bufPush, bufStb, lower, free, stage.1] at push
      cases push
    refine ⟨_, writing.rep.rest_clock present commit push, ?_, ?_⟩
    · rw [Written, if_neg still]
      by_cases skip : w.regs.state = .skip
      · simp [writes, step, pendingNext, skip]
      · simp [writes, step, pendingNext, skip, other, push, pending]
    · intro busy
      have taken : w.regs.state ≠ .skip := by
        intro skip
        apply busy
        simp [step, clock, hdr, skip]
      have none : (writes w.regs i).push.toNat = 0 := congrArg Bool.toNat push
      have flag := left.full_clock (i := writes w.regs i) (by omega)
      rw [none, Nat.add_zero] at flag
      rw [if_neg (by simpa [writes] using taken)]
      exact flag
  | true =>
    obtain ⟨strobe, free⟩ := Bool.and_eq_true_iff.mp push
    rw [Bool.not_eq_true'] at free
    have awake : w.regs.state ≠ .ethernet ∧ w.regs.state ≠ .skip := by
      constructor <;> intro state <;> rw [Stage, state] at stage <;> rw [bufStb, state] at strobe <;>
        simp [stage] at strobe
    have room := writing.room awake.1 free
    have shorter := List.length_drop (i := (txPop w.regs i).toNat) (l := queue)
    have abort : (writes w.regs i).abort = false := decide_eq_false awake.2
    refine ⟨_, writing.rep.push_clock present commit abort push room, ?_, ?_⟩
    · by_cases lower : w.regs.state = .lower
      · have ends : (step w i).regs.state = .commit := (commit_next stage other).mpr ⟨lower, free⟩
        rw [Written, if_pos ends]
        refine ⟨bufData w.regs i, ?_⟩
        simp [writes, step, pendingNext, lower, bufCyc, cells, pending]
      · have still : (step w i).regs.state ≠ .commit := fun commits => lower ((commit_next stage other).mp commits).1
        rw [Written, if_neg still]
        simp [writes, step, pendingNext, lower, other, awake.2, push, bufCyc, pending]
    · intro _
      have one : (writes w.regs i).push.toNat = 1 := congrArg Bool.toNat push
      have flag := left.full_clock (i := writes w.regs i) (by omega)
      rw [one] at flag
      rw [List.length_append, List.length_singleton, ← Nat.add_assoc]
      exact flag

/-! ### The read side -/

/-- The cell in front of a packet: the bytes in the other cells, and `cyc`. -/
def lengthCell (packet : List (BitVec 16)) : BitVec 17 := 1#1 ++ BitVec.ofNat 16 (2 * (packet.length + 1))

/-- The committed packets before the one that is read, and their frames. -/
structure Upto (w : World depth) (packet : List (BitVec 16)) : Prop where
  sent : ∃ before, w.committed = before ++ [packet] ∧ w.frames = before.map sentAs
  long : 21 ≤ packet.length
  fits : packet.length + 2 ≤ 2 ^ depth

/-- Where the reader is, and what the FIFO holds for it. -/
inductive Reading (w : World depth) : List (BitVec 17) → Prop
  | idle (frames : w.frames = w.committed.map sentAs) (current : w.current = none)
      (cyc : w.regs.txCyc = false) : Reading w []
  | head {packet : List (BitVec 16)} {last : BitVec 16} (upto : Upto w packet) (rCnt : w.regs.tx.rCnt = 0)
      (current : w.current = none ∧ w.regs.txCyc = false ∨ w.current = some [] ∧ w.regs.tx.empty = false) :
      Reading w (lengthCell packet :: cells packet last)
  | body {packet : List (BitVec 16)} {last : BitVec 16} {sent : Nat} (upto : Upto w packet)
      (inside : sent ≤ packet.length)
      (rCnt : w.regs.tx.rCnt = BitVec.ofNat (depth + 1) (2 * (sent + 1))) (shown : w.regs.tx.empty = false)
      (ipTol : w.regs.ipTol = BitVec.ofNat 16 (2 * packet.length - 14))
      (udpLen : w.regs.udpLen = BitVec.ofNat 16 (2 * packet.length - 34))
      (current : w.current = some ((sentAs packet).take sent)) : Reading w ((cells packet last).drop sent)

theorem msb_one (x : BitVec 16) : (1#1 ++ x : BitVec 17).msb = true := by
  rw [BitVec.msb_append]
  rfl

theorem msb_zero (x : BitVec 16) : (0#1 ++ x : BitVec 17).msb = false := by
  rw [BitVec.msb_append]
  rfl

theorem setWidth_append (b : BitVec 1) (x : BitVec 16) : (b ++ x : BitVec 17).setWidth 16 = x := by
  rw [BitVec.setWidth_append, dif_pos (le_refl 16), BitVec.setWidth_eq]

theorem length_sub {n rest : Nat} (enough : rest ≤ 2 * n) :
    BitVec.ofNat 16 (2 * (n + 1)) - BitVec.ofNat 16 rest - 2 = BitVec.ofNat 16 (2 * n - rest) := by
  have sum : 2 * (n + 1) = 2 * n - rest + rest + 2 := by omega
  have two : (2 : BitVec 16) = BitVec.ofNat 16 2 := rfl
  rw [sum, two, BitVec.ofNat_add, BitVec.ofNat_add, add_right_comm, add_sub_cancel_right, add_sub_cancel_right]

section
variable {sent : Nat} (rCnt : w.regs.tx.rCnt = BitVec.ofNat (depth + 1) (2 * (sent + 1))) (fits : sent + 1 < 2 ^ depth)

include rCnt fits

theorem payload_shown : txPayload w.regs = true := by
  have small : 2 * (sent + 1) < 2 ^ (depth + 1) := by
    rw [Nat.pow_succ]
    omega
  rw [txPayload, Bool.not_eq_true', decide_eq_false_iff_not, rCnt, ← BitVec.toNat_inj,
    BitVec.toNat_ofNat, Nat.mod_eq_of_lt small]
  exact Nat.succ_ne_zero _

theorem inserts_at (pos : Nat) : inserts w.regs pos = decide (2 * sent = pos) := by
  have small : 2 * sent < 2 ^ (depth + 1) := by
    rw [Nat.pow_succ]
    omega
  have two : (2 : BitVec (depth + 1)) = BitVec.ofNat (depth + 1) 2 := rfl
  rw [inserts, rCnt, Nat.mul_add, Nat.mul_one, BitVec.ofNat_add, two, add_sub_cancel_right,
    BitVec.toNat_ofNat, Nat.mod_eq_of_lt small]

end

variable {packet : List (BitVec 16)}

theorem srcDat_at {sent : Nat} (rCnt : w.regs.tx.rCnt = BitVec.ofNat (depth + 1) (2 * (sent + 1)))
    (fits : packet.length + 2 ≤ 2 ^ depth) (inside : sent < packet.length) (dat : txDat w.regs = packet[sent])
    (ipTol : w.regs.ipTol = BitVec.ofNat 16 (2 * packet.length - 14))
    (udpLen : w.regs.udpLen = BitVec.ofNat 16 (2 * packet.length - 34)) :
    (sentAs packet)[sent]? = some (srcDat w.regs) := by
  have at' := inserts_at rCnt (by omega)
  have tol : ipTolIns w.regs = decide (sent = 8) := (at' 16).trans (decide_eq_decide.mpr (by omega))
  have chk : ipChkIns w.regs = decide (sent = 12) := (at' 24).trans (decide_eq_decide.mpr (by omega))
  have len : udpLenIns w.regs = decide (sent = 19) := (at' 38).trans (decide_eq_decide.mpr (by omega))
  rw [sentAs, List.getElem?_mapIdx, List.getElem?_eq_getElem inside, Option.map_some, srcDat, tol, chk,
    len, ipChk, dat, ipTol, udpLen]
  split_ifs with first second third
  · subst first
    rfl
  · subst second
    rfl
  · subst third
    rfl
  · rw [decide_eq_false first, decide_eq_false second, decide_eq_false third]

variable {queue written : List (BitVec 17)}

theorem pop_present (rep : Represents w.regs.tx queue written) : (txPop w.regs i).toNat ≤ queue.length := by
  cases empty : w.regs.tx.empty with
  | true =>
    rw [txPop, empty]
    exact Nat.zero_le _
  | false =>
    have front := rep.front empty
    cases queue with
    | nil => cases front
    | cons word queue => exact (Bool.toNat_le _).trans (Nat.le_add_left _ _)

theorem length_shown (long : 21 ≤ packet.length) (empty : w.regs.tx.empty = false)
    (rCnt : w.regs.tx.rCnt = 0) (word : w.regs.tx.rDat = lengthCell packet) :
    srcCyc w.regs = true ∧ transferred w.regs i = [] ∧ txPop w.regs i = !i.stall ∧
      (clock w.regs i).ipTol = BitVec.ofNat 16 (2 * packet.length - 14) ∧
      (clock w.regs i).udpLen = BitVec.ofNat 16 (2 * packet.length - 34) := by
  have cyc : txCyc w.regs = true := by
    rw [txCyc, word]
    exact msb_one _
  have payload : txPayload w.regs = false := by
    rw [txPayload, rCnt]
    rfl
  have shown : lengthShown w.regs = true := by
    rw [lengthShown, empty, payload]
    rfl
  have dat : txDat w.regs = BitVec.ofNat 16 (2 * (packet.length + 1)) := by
    rw [txDat, word]
    exact setWidth_append _ _
  refine ⟨?_, ?_, ?_, ?_, ?_⟩
  · rw [srcCyc, empty, cyc]
    rfl
  · rw [transferred, srcStb, payload, Bool.and_false, Bool.false_and, if_neg Bool.false_ne_true]
  · rw [txPop, empty, cyc]
    rfl
  · simp only [clock, shown, if_true]
    rw [dat]
    exact length_sub (by change 14 ≤ _; omega)
  · simp only [clock, shown, if_true]
    rw [dat]
    exact length_sub (by change 34 ≤ _; omega)

theorem drop_cells_ne {sent : Nat} (last : BitVec 16) (inside : sent ≤ packet.length) :
    (cells packet last).drop sent ≠ [] := by
  rw [Ne, List.drop_eq_nil_iff, length_cells]
  omega

theorem quiet_step (rep : Represents w.regs.tx [] written) (current : w.current = none) (cyc : w.regs.txCyc = false) :
    txPop w.regs i = false ∧ (step w i).frames = w.frames ∧ (step w i).current = none ∧
      (step w i).regs.txCyc = false := by
  have empty : w.regs.tx.empty = true := by
    by_contra shown
    have front := rep.front (Bool.eq_false_of_not_eq_true shown)
    cases front
  have low : srcCyc w.regs = false := by
    rw [srcCyc, empty, cyc]
    rfl
  refine ⟨?_, ?_, ?_, ?_⟩
  · rw [txPop, empty]
    rfl
  · simp only [step, low, current, Bool.false_eq_true, if_false, Option.toList_none, List.append_nil]
  · simp only [step, low, Bool.false_eq_true, if_false]
  · simp only [step, clock, empty, Bool.not_true, Bool.false_eq_true, if_false]
    exact cyc

theorem Reading.next (reading : Reading w queue) (rep : Represents w.regs.tx queue written)
    (other : w.regs.state ≠ .commit) :
    Reading (step w i) (queue.drop (txPop w.regs i).toNat) := by
  have committed : (step w i).committed = w.committed := if_neg other
  have left := rep.popped (pop_present (i := i) rep)
  have flag : (step w i).regs.tx.empty = decide (queue.drop (txPop w.regs i).toNat = []) := left.empty_clock
  have counter : (step w i).regs.tx.rCnt = if txPop w.regs i then w.regs.tx.rCnt + 2 else w.regs.tx.rCnt := by
    simp [step, clock, CommitLenFifo.clock, writes, other]
  cases reading with
  | idle frames current cyc =>
    obtain ⟨_, same, none, low⟩ := quiet_step (i := i) rep current cyc
    rw [List.drop_nil]
    exact .idle (by rw [same, committed, frames]) none low
  | @head packet last upto rCnt current =>
    have kept : srcCyc w.regs = true ∨ w.current = none → Upto (step w i) packet := by
      intro same
      obtain ⟨before, all, frames⟩ := upto.sent
      refine ⟨⟨before, committed.trans all, ?_⟩, upto.long, upto.fits⟩
      rcases same with high | none
      · exact (if_pos high).trans frames
      · simp only [step, none, Option.toList_none, List.append_nil, ite_self]
        exact frames
    cases empty : w.regs.tx.empty with
    | true =>
      obtain ⟨none, cyc⟩ := current.resolve_right fun shown => Bool.noConfusion (empty.symm.trans shown.2)
      have low : srcCyc w.regs = false := by
        rw [srcCyc, empty, cyc]
        rfl
      have waits : txPop w.regs i = false := by
        rw [txPop, empty]
        rfl
      rw [waits] at counter ⊢
      refine .head (kept (Or.inr none)) (counter.trans rCnt) (Or.inl ⟨?_, ?_⟩)
      · simp only [step, low, Bool.false_eq_true, if_false]
      · simp only [step, clock, empty, Bool.not_true, Bool.false_eq_true, if_false]
        exact cyc
    | false =>
      have front := rep.front empty
      rw [List.head?_cons, Option.some_inj] at front
      obtain ⟨high, nothing, pops, ipTol, udpLen⟩ := length_shown (i := i) upto.long empty rCnt front.symm
      have current' : (step w i).current = some [] := by
        have open' : w.current.getD [] = [] := by
          rcases current with ⟨none, _⟩ | ⟨open', _⟩
          · rw [none]
            rfl
          · rw [open']
            rfl
        simp only [step, high, if_true, nothing, open', List.append_nil]
      rw [pops] at counter flag ⊢
      cases stall : i.stall with
      | true =>
        rw [stall] at counter flag
        exact .head (kept (Or.inl high)) (counter.trans rCnt) (Or.inr ⟨current', flag⟩)
      | false =>
        rw [stall] at counter flag
        refine @Reading.body _ _ packet last 0 (kept (Or.inl high)) (Nat.zero_le _) ?_ ?_ ipTol udpLen current'
        · rw [counter, rCnt]
          exact BitVec.zero_add _
        · rw [flag]
          exact decide_eq_false (drop_cells_ne last (Nat.zero_le packet.length))
  | @body packet last sent upto inside rCnt shown ipTol udpLen current =>
    have front := rep.front shown
    obtain ⟨before, all, frames⟩ := upto.sent
    rcases Nat.lt_or_eq_of_le inside with more | whole
    · -- a word of the packet
      have word : w.regs.tx.rDat = 1#1 ++ packet[sent] := by
        rw [List.head?_drop, cells, List.getElem?_append_left (by rwa [List.length_map]), List.getElem?_map,
          List.getElem?_eq_getElem more] at front
        exact (Option.some.inj front).symm
      have cyc : txCyc w.regs = true := by
        rw [txCyc, word]
        exact msb_one _
      have high : srcCyc w.regs = true := by
        rw [srcCyc, shown, cyc]
        rfl
      have pops : txPop w.regs i = !i.stall := by
        rw [txPop, shown, cyc]
        rfl
      have kept : Upto (step w i) packet :=
        ⟨⟨before, committed.trans all, (if_pos high).trans frames⟩, upto.long, upto.fits⟩
      have dat : txDat w.regs = packet[sent] := by
        rw [txDat, word]
        exact setWidth_append _ _
      have payload := payload_shown rCnt (by have := upto.fits; omega)
      have strobe : srcStb w.regs = true := by
        rw [srcStb, shown, payload]
        rfl
      have hidden : lengthShown w.regs = false := by
        rw [lengthShown, payload]
        exact Bool.and_false _
      have ipTol' : (step w i).regs.ipTol = BitVec.ofNat 16 (2 * packet.length - 14) := by
        simp only [step, clock, hidden, Bool.false_eq_true, if_false]
        exact ipTol
      have udpLen' : (step w i).regs.udpLen = BitVec.ofNat 16 (2 * packet.length - 34) := by
        simp only [step, clock, hidden, Bool.false_eq_true, if_false]
        exact udpLen
      have grown : (step w i).current = some ((sentAs packet).take sent ++
        if !i.stall then [srcDat w.regs] else []) := by
        simp only [step, high, if_true, transferred, strobe, Bool.true_and, current, Option.getD_some]
      rw [pops] at counter flag ⊢
      cases stall : i.stall with
      | true =>
        rw [stall] at counter flag grown
        refine .body kept inside (counter.trans rCnt) ?_ ipTol' udpLen' (grown.trans ?_)
        · rw [flag]
          exact decide_eq_false (drop_cells_ne last inside)
        · exact congrArg some (List.append_nil _)
      | false =>
        rw [stall] at counter flag grown
        rw [Bool.not_false, Bool.toNat_true, List.drop_drop] at flag ⊢
        have next := srcDat_at rCnt upto.fits more dat ipTol udpLen
        refine .body kept more (counter.trans ?_) ?_ ipTol' udpLen' (grown.trans ?_)
        · rw [rCnt, Nat.mul_add 2 (sent + 1)]
          exact (BitVec.ofNat_add _ _).symm
        · rw [flag]
          exact decide_eq_false (drop_cells_ne last more)
        · rw [List.take_add_one, next]
          rfl
    · -- the end of the packet
      subst whole
      have rest : (cells packet last).drop packet.length = [0#1 ++ last] := by
        rw [cells, List.drop_append_of_le_length (by rw [List.length_map]),
          List.drop_of_length_le (by rw [List.length_map])]
        rfl
      rw [rest, List.head?_cons, Option.some_inj] at front
      have cyc : txCyc w.regs = false := by
        rw [txCyc, ← front]
        exact msb_zero _
      have low : srcCyc w.regs = false := by
        rw [srcCyc, shown, cyc]
        rfl
      have pops : txPop w.regs i = true := by
        rw [txPop, shown, cyc]
        rfl
      have full : (sentAs packet).take packet.length = sentAs packet := by
        apply List.take_of_length_le
        rw [sentAs, List.length_mapIdx]
      rw [pops, rest]
      refine .idle ?_ ?_ ?_
      · rw [committed, all, List.map_append]
        simp only [step, low, Bool.false_eq_true, if_false, current, frames, full, Option.toList_some,
          List.map_cons, List.map_nil]
      · simp only [step, low, Bool.false_eq_true, if_false]
      · simp only [step, clock, shown, Bool.not_false, if_true]
        exact cyc

theorem Upto.frames (upto : Upto w packet) : w.frames ++ [sentAs packet] = w.committed.map sentAs := by
  obtain ⟨before, all, frames⟩ := upto.sent
  rw [all, frames, List.map_append, List.map_singleton]

theorem Reading.wire (reading : Reading w queue) :
    w.frames <+: w.committed.map sentAs ∧
      ∀ words ∈ w.current, ∃ frame, w.frames ++ [frame] <+: w.committed.map sentAs ∧ words <+: frame := by
  cases reading with
  | idle frames current _ =>
    refine ⟨by rw [frames], ?_⟩
    intro words mem
    rw [current] at mem
    cases mem
  | head upto _ current =>
    rw [← upto.frames]
    refine ⟨List.prefix_append _ _, ?_⟩
    intro words mem
    rcases current with ⟨none, _⟩ | ⟨open', _⟩
    · rw [none] at mem
      cases mem
    · rw [open', Option.mem_some_iff] at mem
      subst mem
      exact ⟨_, List.prefix_rfl, List.nil_prefix⟩
  | body upto _ _ _ _ _ current =>
    rw [← upto.frames]
    refine ⟨List.prefix_append _ _, ?_⟩
    intro words mem
    rw [current, Option.mem_some_iff] at mem
    subst mem
    exact ⟨_, List.prefix_rfl, List.take_prefix _ _⟩

/-! ### Commits -/

theorem Reading.drained (reading : Reading w queue) (empty : queue = []) :
    w.frames = w.committed.map sentAs ∧ w.current = none ∧ w.regs.txCyc = false := by
  cases reading with
  | idle frames current cyc => exact ⟨frames, current, cyc⟩
  | head => cases empty
  | body _ inside => exact absurd empty (drop_cells_ne _ inside)

theorem Represents.queue_nil (rep : Represents w.regs.tx queue written)
    (drained : w.regs.tx.rIdx = w.regs.tx.eIdx) : queue = [] := by
  have fits := rep.fits
  have power : 2 ^ depth < 2 ^ (depth + 1) := Nat.pow_lt_pow_right Nat.one_lt_two (Nat.lt_succ_self depth)
  have same := Library.Ring.pointer_inj w.regs.tx.rIdx (a := queue.length) (b := 0) (by omega) (by omega)
  rw [BitVec.add_zero, ← rep.eIdx] at same
  exact List.length_eq_zero_iff.mp (same.mp drained.symm)

theorem commit_step (reading : Reading w queue) (writing : Writing w queue written)
    (stage : Stage w.regs w.pending.length)
    (state : w.regs.state = .commit) (alone : Alone w) :
    (∃ queue' written', Writing (step w i) queue' written' ∧ Reading (step w i) queue') ∧
      w.pending.length + 2 ≤ 2 ^ depth := by
  obtain ⟨drained, free⟩ := alone state
  have nil := Represents.queue_nil writing.rep drained
  subst nil
  obtain ⟨frames, current, cyc⟩ := reading.drained rfl
  have packet := writing.packet
  rw [Written, if_pos state] at packet
  obtain ⟨last, rfl⟩ := packet
  have busy : w.regs.state ≠ .ethernet := by
    rw [state]
    exact State.noConfusion
  have room := writing.room busy free
  have present : (txPop w.regs i).toNat ≤ ([] : List (BitVec 17)).length := pop_present writing.rep
  obtain ⟨waits, same, none, low⟩ := quiet_step (i := i) writing.rep current cyc
  rw [Stage, state] at stage
  have push : (writes w.regs i).push = false := by
    show bufPush w.regs i = false
    rw [bufPush, bufStb, state, if_neg State.noConfusion, stage.1]
    rfl
  have commit : (writes w.regs i).commit = true := decide_eq_true state
  have cyc' : (writes w.regs i).dat.msb = true := by
    show (BitVec.ofBool (bufCyc w.regs) ++ bufData w.regs i : BitVec 17).msb = true
    rw [bufCyc, state]
    exact msb_one _
  have rep := writing.rep.commit_clock present commit push room
  rw [cyc', length_cells] at rep
  have next : (step w i).regs.state = .ethernet := by simp [step, clock, hdr, state, free]
  rw [length_cells, List.length_nil] at room
  refine ⟨⟨_, _, ⟨rep, ?_, fun other => absurd next other⟩, ?_⟩, by omega⟩
  · rw [Written, if_neg (by rw [next]; exact State.noConfusion)]
    simp only [step, pendingNext, state, true_or, if_true, List.map_nil]
  · have upto : Upto (step w i) w.pending := ⟨⟨w.committed, if_pos state, same.trans frames⟩, stage.2, by omega⟩
    rw [waits]
    refine Reading.head upto ?_ (Or.inl ⟨none, low⟩)
    simp [step, clock, CommitLenFifo.clock, commit, waits]

/-! ### Runs -/

structure Inv (w : World depth) : Prop where
  stage : Stage w.regs w.pending.length
  sides : ∃ queue written, Writing w queue written ∧ Reading w queue
  lengths : ∀ packet ∈ w.committed, 21 ≤ packet.length ∧ packet.length + 2 ≤ 2 ^ depth

theorem start_inv (ipTol udpLen : BitVec 16) (ram : Nat → BitVec 17) (rDat : BitVec 17) :
    Inv (start ipTol udpLen ram rDat : World depth) where
  stage := ⟨rfl, rfl⟩
  sides := ⟨[], [], ⟨CommitLenFifo.represents_reset ram rDat, rfl, fun busy => absurd rfl busy⟩, .idle rfl rfl rfl⟩
  lengths := fun _ mem => absurd mem List.not_mem_nil

theorem Inv.step (inv : Inv w) (alone : Alone w) : Inv (Sending.step w i) := by
  obtain ⟨queue, written, writing, reading⟩ := inv.sides
  have stage := inv.stage.step (i := i) fun state => (alone state).2
  by_cases state : w.regs.state = .commit
  · obtain ⟨sides, fits⟩ := commit_step (i := i) reading writing inv.stage state alone
    refine ⟨stage, sides, ?_⟩
    intro packet mem
    have all : (Sending.step w i).committed = w.committed ++ [w.pending] := if_pos state
    rw [all, List.mem_append, List.mem_singleton] at mem
    rcases mem with old | rfl
    · exact inv.lengths packet old
    · have long := inv.stage
      rw [Stage, state] at long
      exact ⟨long.2, fits⟩
  · obtain ⟨written', writing'⟩ := writing.next (i := i) inv.stage state (pop_present writing.rep)
    refine ⟨stage, ⟨_, written', writing', reading.next writing.rep state⟩, ?_⟩
    have all : (Sending.step w i).committed = w.committed := if_neg state
    rw [all]
    exact inv.lengths

variable {inputs : List Inputs}

theorem Inv.run (inv : Inv w) (along : Along Sending.step (fun w _ => Alone w) w inputs) :
    Inv (Sending.run w inputs) :=
  along.invariant Inv inv fun inv alone => inv.step alone

theorem frames_step : w.frames <+: (step w i).frames := by
  cases cyc : srcCyc w.regs with
  | true => rw [step, if_pos cyc]
  | false => simp [step, cyc]

theorem frames_run : w.frames <+: (run w inputs).frames := by
  induction inputs generalizing w with
  | nil => exact List.prefix_rfl
  | cons i inputs ih => exact frames_step.trans ih

theorem sent_run {sent : List (List (BitVec 16))} (inv : Inv w) (along : Along step (fun w _ => Alone w) w inputs)
    (known : sent <+: w.committed.map sentAs) (runs : ∀ i ∈ inputs, i.stall = false) (writing : Writing w queue written)
    (reading : Reading w queue) (long : queue ≠ [] → queue.length + w.regs.tx.empty.toNat ≤ inputs.length) :
    sent <+: (run w inputs).frames := by
  induction inputs generalizing w queue written with
  | nil =>
    have nil : queue = [] := by
      by_contra some
      have positive := List.length_pos_iff.mpr some
      exact absurd (long some) (by simp only [List.length_nil]; omega)
    rw [(reading.drained nil).1.symm] at known
    exact known
  | cons i inputs ih =>
    by_cases nil : queue = []
    · rw [(reading.drained nil).1.symm] at known
      exact known.trans frames_run
    · have other : w.regs.state ≠ .commit := fun commits => nil (Represents.queue_nil writing.rep (along.1 commits).1)
      have committed : (step w i).committed = w.committed := if_neg other
      obtain ⟨written', writing'⟩ := writing.next (i := i) inv.stage other (pop_present writing.rep)
      have left := writing.rep.popped (pop_present (i := i) writing.rep)
      have flag : (step w i).regs.tx.empty = decide (queue.drop (txPop w.regs i).toNat = []) := left.empty_clock
      have shorter := List.length_drop (i := (txPop w.regs i).toNat) (l := queue)
      have pops : txPop w.regs i = !w.regs.tx.empty := by
        rw [txPop, runs i List.mem_cons_self, Bool.and_false, Bool.not_false, Bool.and_true]
      have enough := long nil
      rw [List.length_cons] at enough
      refine ih (inv.step along.1) along.2 (by rw [committed]; exact known)
        (fun i mem => runs i (List.mem_cons_of_mem _ mem))
        writing' (reading.next writing.rep other) ?_
      intro some
      rw [flag, decide_eq_false some, Bool.toNat_false, shorter, pops]
      cases empty : w.regs.tx.empty <;> rw [empty] at enough <;>
        simp only [Bool.not_true, Bool.not_false, Bool.toNat_true, Bool.toNat_false] at enough ⊢ <;> omega

/-- In a run in which every commit finds the packets before it read and a cell left in the FIFO,
each packet is sent once, in the order of the commits, with its own words and lengths. -/
theorem run_sends (fits : depth ≤ 15) (ipTol udpLen : BitVec 16) (ram : Nat → BitVec 17)
    (rDat : BitVec 17) (inputs : List Inputs)
    (along : Along step (fun w _ => Alone w) (start ipTol udpLen ram rDat : World depth) inputs) :
    Faithful (start ipTol udpLen ram rDat : World depth) inputs := by
  have first : Inv (start ipTol udpLen ram rDat : World depth) := start_inv ipTol udpLen ram rDat
  have inv := first.run along
  obtain ⟨queue, written, writing, reading⟩ := inv.sides
  refine ⟨reading.wire.1, reading.wire.2, ?_, ?_⟩
  · intro packet mem
    obtain ⟨long, short⟩ := inv.lengths packet mem
    have small : 2 ^ depth ≤ 2 ^ 15 := Nat.pow_le_pow_right Nat.zero_lt_two fits
    exact ⟨long, by omega⟩
  · rintro past more rfl long runs
    obtain ⟨before, after⟩ := along_append.mp along
    have invPast := first.run before
    obtain ⟨queue, written, writing, reading⟩ := invPast.sides
    have split : run (start ipTol udpLen ram rDat : World depth) (past ++ more) =
      run (run (start ipTol udpLen ram rDat) past) more :=
      List.foldl_append
    rw [split]
    refine sent_run invPast after List.prefix_rfl runs writing reading fun _ => ?_
    have room := writing.rep.fits
    have flag := Bool.toNat_le (run (start ipTol udpLen ram rDat : World depth) past).regs.tx.empty
    omega

/-! ### Two packets -/

/-- A clock in which `src_o` stalls or not, with parameters for a header or a word of the payload. -/
def clockOf (stall params : Bool) (payload : Option (BitVec 16)) : Inputs :=
  { slave := ⟨payload.isSome, payload.isSome, payload.getD 0⟩, stall := stall, stb := params,
    mac := 0x112233445566, ip := 0x0a000001
    port := 0x0ebd, skipStb := false, myMac := 0x665544332211, myIp := 0x0a000002, myPort :=
      0xebd0, sumDone := 0x1234, conflict := 0 }

def packetOf (stall : Bool) (word : BitVec 16) : List Inputs :=
  List.replicate 2 (clockOf stall true none) ++ List.replicate 36 (clockOf stall false (some word)) ++
    List.replicate 24 (clockOf stall false none)

def quiet (stall : Bool) (clocks : Nat) : List Inputs := List.replicate clocks (clockOf stall false none)

/-- The second packet is committed when the first was read. -/
theorem run_sends_apart : Faithful (start 0 0 (fun _ => 0) 0 : World 7)
    (packetOf false 0x100 ++ packetOf false 0x200 ++ quiet false 60) :=
  run_sends (by decide) 0 0 (fun _ => 0) 0 (packetOf false 0x100 ++ packetOf false 0x200 ++
    quiet false 60) (by decide +kernel)

/-- The second packet is committed while the first still waits for the wire. Its frame starts with
the word that holds its length, and no length is put into its headers. -/
theorem length_sent_as_word : ¬ Faithful (start 0 0 (fun _ => 0) 0 : World 7)
    (packetOf true 0x100 ++ packetOf true 0x200 ++ quiet false 90) := by
  intro faithful
  have frames := faithful.frames
  revert frames
  decide +kernel

end BelProject.EbMaster.Sending
