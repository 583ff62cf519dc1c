import BelProject.SlaveCore.EthTx

/-! The IP headers of the replies. The sum is ready when the header is put together, since the
Ethernet header takes as long to write as six words take to add up; what is written is what
goes over the wire. -/

namespace BelProject.SlaveCore.EthTx
open BelProject.Library Runs Checksum
open OnesComplement (total)

variable {depth : Nat} {w : World depth} {r : Registers} {i : Inputs} {own : BitVec 32}

/-! ### The sum -/

/-- The words of the header, the constant fields as one. -/
def summed (r : Registers) (own : BitVec 32) : List (BitVec 16) := addressWords r.ip own ++ [r.length + 20]

def fedOf : SumState → Option Nat
  | .const => none
  | .dstHi => some 0
  | .dstLo => some 1
  | .srcHi => some 2
  | .srcLo => some 3
  | .length => some 4
  | .done => some 5

theorem const_of_waiting {state : SumState} (waits : fedOf state = none) : state = .const := by
  cases state <;> first | rfl | cases waits

theorem sumHeader_follows (quiet : latches r i = false) (steady : i.myIp = own) :
    Follows fedOf (summed r own) r.sum (sumHeader r i) := by
  cases state : r.sum.state <;> simp only [sumHeader, state, quiet, steady, Bool.false_or, Bool.false_eq_true, if_false]
  all_goals
    refine ⟨rfl, fun k known inside => ?_, fun k known last => ?_, fun known => ?_⟩ <;> rw [state] at known <;>
    cases known <;> first | exact ⟨rfl, rfl, rfl⟩ | exact ⟨rfl, rfl⟩ | cases last | exact absurd inside (lt_irrefl 6)

/-! ### Packets in a row of cells -/

/-- A cell with `cyc` low ends a packet. -/
def parseCell (parsed : List (List (BitVec 16)) × List (BitVec 16)) (cell : BitVec 17) :
    List (List (BitVec 16)) × List (BitVec 16) :=
  if cell.msb then (parsed.1, parsed.2 ++ [cell.setWidth 16]) else (parsed.1 ++ [parsed.2], [])

/-- The packets that ended, and the one that did not. -/
def parse (cells : List (BitVec 17)) : List (List (BitVec 16)) × List (BitVec 16) := cells.foldl parseCell ([], [])

theorem parse_concat (cells : List (BitVec 17)) (cell : BitVec 17) :
    parse (cells ++ [cell]) = parseCell (parse cells) cell :=
  List.foldl_append

theorem parseCell_high (parsed : List (List (BitVec 16)) × List (BitVec 16)) (dat : BitVec 16) :
    parseCell parsed (BitVec.ofBool true ++ dat) = (parsed.1, parsed.2 ++ [dat]) := by
  have high : (BitVec.ofBool true ++ dat).msb = true := by
    rw [BitVec.msb_append]
    rfl
  rw [parseCell, if_pos high, BitVec.setWidth_append_eq_right]

theorem parseCell_low (parsed : List (List (BitVec 16)) × List (BitVec 16)) (dat : BitVec 16) :
    parseCell parsed (BitVec.ofBool false ++ dat) = (parsed.1 ++ [parsed.2], []) := by
  have low : (BitVec.ofBool false ++ dat).msb = false := by
    rw [BitVec.msb_append]
    rfl
  rw [parseCell, low]
  rfl

/-- Every packet that is long enough has a header with a valid checksum. -/
def AllChecked (parsed : List (List (BitVec 16)) × List (BitVec 16)) : Prop :=
  ∀ packet ∈ parsed.1 ++ [parsed.2], 17 ≤ packet.length → Checked packet

variable {packet : List (BitVec 16)}

theorem Checked.append (long : 17 ≤ packet.length) (more : List (BitVec 16)) :
    Checked (packet ++ more) ↔ Checked packet := by
  rw [Checked, Checked, ipHeader_append long]

theorem AllChecked.parsed_before {cells : List (BitVec 17)} {cell : BitVec 17}
    (checked : AllChecked (parse (cells ++ [cell]))) :
    AllChecked (parse cells) := by
  rw [parse_concat, parseCell] at checked
  intro packet listed long
  split_ifs at checked with high
  · rcases List.mem_append.mp listed with ended | current
    · exact checked packet (List.mem_append_left _ ended) long
    · obtain rfl := List.mem_singleton.mp current
      refine (Checked.append long [cell.setWidth 16]).mp
        (checked _ (List.mem_append_right _ (List.mem_singleton_self _)) ?_)
      rw [List.length_append]
      exact Nat.le_add_right_of_le long
  · exact checked packet (List.mem_append_left _ listed) long

theorem AllChecked.of_prefix {cells more : List (BitVec 17)} (checked : AllChecked (parse (cells ++ more))) :
    AllChecked (parse cells) := by
  induction more using List.reverseRecOn with
  | nil => rwa [List.append_nil] at checked
  | append_singleton more last ih =>
    rw [← List.append_assoc] at checked
    exact ih checked.parsed_before

/-! ### The packet that is being written -/

/-- The header register: the ten words of a valid header. -/
def Good (header : BitVec 160) : Prop :=
  ∃ tol sum src dst, header = formatIp tol sum src dst ∧ Valid (wordsOf header)

abbrev Carries : List (BitVec 16) → Prop := Checksum.Carries Good

theorem Carries.checked (carries : Carries packet) : Checked packet := by
  obtain ⟨_, _, ⟨tol, sum, src, dst, rfl, valid⟩, whole⟩ := carries
  refine ⟨tol, sum, src, dst, whole, ?_⟩
  rw [whole]
  exact valid

def Stage (r : Registers) (packet : List (BitVec 16)) : Prop :=
  match r.state with
  | .ethernet => r.hdrStb = false ∧ packet = []
  | .ip => r.hdrStb = true ∧ r.ready = true ∧ packet.length = 6
  | .udp => r.hdrStb = true ∧ r.ready = true ∧ ∃ header, Good header ∧ Heading packet r.shift header 9
  | .done => r.hdrStb = true ∧ r.ready = true ∧ Carries packet
  | .wait => r.hdrStb = false ∧ (r.staten = .runt ∨ r.staten = .lower) ∧ Carries packet
  | .payload => (r.staten = .runt ∨ r.staten = .lower) ∧ Carries packet
  | .runt => r.hdrStb = true ∧ Carries packet
  | .lower => r.hdrStb = true ∧ Carries packet
  | .skip => r.hdrStb = false ∧ Carries packet
  | .push =>
    r.hdrStb = true ∧
      (r.staten = .ip ∧ r.ready = true ∧ 1 ≤ r.count.toNat ∧ packet.length + r.count.toNat = 6 ∨
        r.staten = .udp ∧ r.ready = true ∧ 1 ≤ r.count.toNat ∧
          (∃ header sent, Good header ∧ Heading packet r.shift header sent ∧ sent + r.count.toNat = 9) ∨
        r.staten = .done ∧ r.ready = true ∧ Carries packet ∨ r.staten = .lower ∧ Carries packet)

theorem Stage.checked (stage : Stage r packet) (long : 17 ≤ packet.length) : Checked packet := by
  cases state : r.state with
  | ethernet =>
    simp only [Stage, state] at stage
    rw [stage.2] at long
    exact absurd long (by decide)
  | ip =>
    simp only [Stage, state] at stage
    omega
  | udp =>
    simp only [Stage, state] at stage
    obtain ⟨_, _, header, _, heading⟩ := stage
    have := heading.length
    omega
  | done =>
    simp only [Stage, state] at stage
    exact stage.2.2.checked
  | wait =>
    simp only [Stage, state] at stage
    exact stage.2.2.checked
  | payload =>
    simp only [Stage, state] at stage
    exact stage.2.checked
  | runt =>
    simp only [Stage, state] at stage
    exact stage.2.checked
  | lower =>
    simp only [Stage, state] at stage
    exact stage.2.checked
  | skip =>
    simp only [Stage, state] at stage
    exact stage.2.checked
  | push =>
    simp only [Stage, state] at stage
    rcases stage.2 with ⟨_, _, _, _⟩ | ⟨_, _, positive, header, sent, _, heading, _⟩ | ⟨_, _, carries⟩ | ⟨_, carries⟩
    · omega
    · have := heading.length
      omega
    · exact carries.checked
    · exact carries.checked

def added (r : Registers) (i : Inputs) (full : Bool) : List (BitVec 16) :=
  if bufPush r i full then [bufData r i] else []

theorem good_header {words : List (BitVec 16)} {len : BitVec 16} {dst src : BitVec 32} {sum : BitVec 16}
    (whole : words = addressWords dst src ++ [len + 20]) (summed : sum = OnesComplement.sum words) :
    Good (fSendIp dst src len sum) := by
  refine ⟨len + 20, ~~~sum, src, dst, rfl, ?_⟩
  have parts : total words = total (addressWords dst src) + (len + 20).toNat := by
    rw [whole, OnesComplement.total_append]
    rfl
  have check : total (wordsOf (formatIp (len + 20) (~~~sum) src dst)) =
    total words + (~~~OnesComplement.sum words).toNat := by
    rw [total_header, ← summed, parts]
  exact OnesComplement.sum_complement (by decide) check

def packetNext (r : Registers) (i : Inputs) (full : Bool) (packet : List (BitVec 16)) : List (BitVec 16) :=
  if r.state = .skip ∨ r.state = .lower ∧ full = false then [] else packet ++ added r i full

/-- The states in which a full FIFO stops the machine. -/
def pushes (state : State) : Bool :=
  match state with
  | .ethernet | .wait | .payload | .skip => false
  | _ => true

theorem readyNext_high (ready : r.ready = true) {full : Bool}
    (other : ¬(r.state = .done ∧ full = false)) : readyNext r i full = true := by
  rw [readyNext, if_neg other, ready, Bool.or_true]

theorem Stage.stalled (stage : Stage w.regs packet) (full : w.tx.fifo.full = true)
    (stops : pushes w.regs.state = true) : Stage (clock w i) (packetNext w.regs i w.tx.fifo.full packet) := by
  have quiet : ¬(w.regs.state = .skip ∨ w.regs.state = .lower ∧ true = false) := by
    rintro (skip | ⟨_, none⟩)
    · rw [skip] at stops
      exact absurd stops Bool.false_ne_true
    · exact absurd none.symm Bool.false_ne_true
  have none : added w.regs i true = [] := by rw [added, bufPush, Bool.not_true, Bool.and_false]; rfl
  have same : hdr w.regs i true = w.regs := by
    cases state : w.regs.state <;> rw [state] at stops <;>
      first | exact absurd stops Bool.false_ne_true | simp [hdr, state]
  have ready : w.regs.ready = true → (clock w i).ready = true := fun ready => by
    rw [clock, full]
    exact readyNext_high ready fun both => absurd both.2.symm Bool.false_ne_true
  have state : (clock w i).state = w.regs.state := by rw [clock, full, same]
  have staten : (clock w i).staten = w.regs.staten := by rw [clock, full, same]
  have hdrStb : (clock w i).hdrStb = w.regs.hdrStb := by rw [clock, full, same]
  have count : (clock w i).count = w.regs.count := by rw [clock, full, same]
  have shift : (clock w i).shift = w.regs.shift := by rw [clock, full, same]
  rw [full, packetNext, if_neg quiet, none, List.append_nil]
  rw [Stage] at stage ⊢
  rw [state, staten, hdrStb, count, shift]
  cases place : w.regs.state <;> simp only [place] at stage ⊢ <;> first
    | exact stage
    | exact ⟨stage.1, ready stage.2.1, stage.2.2⟩
    | exact ⟨stage.1, stage.2.imp (fun h => ⟨h.1, ready h.2.1, h.2.2⟩)
        (Or.imp (fun h => ⟨h.1, ready h.2.1, h.2.2⟩) (Or.imp (fun h => ⟨h.1, ready h.2.1, h.2.2⟩) id))⟩

theorem Stage.next (stage : Stage w.regs packet)
    (header : w.regs.state = .ip → Good (fSendIp w.regs.ip i.myIp w.regs.length w.regs.sum.adder.sumO)) :
    Stage (clock w i) (packetNext w.regs i w.tx.fifo.full packet) := by
  by_cases stops : w.tx.fifo.full = true ∧ pushes w.regs.state = true
  · exact stage.stalled stops.1 stops.2
  cases state : w.regs.state with
  | ethernet =>
    simp only [Stage, state] at stage
    obtain ⟨quiet, none⟩ := stage
    cases ready : w.regs.ready <;>
    simp [Stage, clock, hdr, state, packetNext, added, bufPush, bufStb, readyNext, quiet, none, ready, ethLen, fStep]
  | ip =>
    have full : w.tx.fifo.full = false := by simpa [state, pushes] using stops
    simp only [Stage, state] at stage
    obtain ⟨due, ready, length⟩ := stage
    have count : (fStep ipLen).toNat = 9 := by decide
    have longer : packetNext w.regs i w.tx.fifo.full packet = packet ++ [w.regs.shift.extractLsb' 144 16] := by
      simp [packetNext, added, bufPush, bufStb, bufData, state, due, full]
    have seven : (packet ++ [w.regs.shift.extractLsb' 144 16]).length = 7 := by
      rw [List.length_append, length]
      rfl
    rw [longer]
    simp only [Stage, clock, hdr, state, full, Bool.not_false, if_true, count]
    exact ⟨due, .inr (.inl ⟨trivial, readyNext_high ready
      (by rw [state]; decide), by decide, _, 0, header state, heading_start seven _, rfl⟩)⟩
  | udp =>
    have full : w.tx.fifo.full = false := by simpa [state, pushes] using stops
    simp only [Stage, state] at stage
    obtain ⟨due, ready, header, good, heading⟩ := stage
    have longer : packetNext w.regs i w.tx.fifo.full packet = packet ++ [w.regs.shift.extractLsb' 144 16] := by
      simp [packetNext, added, bufPush, bufStb, bufData, state, due, full]
    rw [longer]
    simp only [Stage, clock, hdr, state, full, Bool.not_false, if_true]
    exact ⟨due, .inr (.inr (.inl ⟨trivial, readyNext_high ready (by rw [state]; decide),
      (heading.push (by decide)).carries good⟩))⟩
  | done =>
    have full : w.tx.fifo.full = false := by simpa [state, pushes] using stops
    simp only [Stage, state] at stage
    obtain ⟨due, ready, carries⟩ := stage
    have more := carries.append [w.regs.shift.extractLsb' 144 16]
    by_cases short : w.regs.length.toNat < runtMin <;> cases cyc : i.slave.cyc <;> cases skip : i.skipStb <;>
    simpa [Stage, clock, hdr, state, packetNext, added, bufPush, bufStb, bufData, due, full, short,
      payloadNext, cyc, skip] using more
  | wait =>
    simp only [Stage, state] at stage
    obtain ⟨quiet, target, carries⟩ := stage
    cases cyc : i.slave.cyc <;> cases skip : i.skipStb <;>
    simp [Stage, clock, hdr, state, packetNext, added, bufPush, bufStb, quiet, payloadNext, cyc, skip, target, carries]
  | payload =>
    simp only [Stage, state] at stage
    obtain ⟨target, carries⟩ := stage
    cases cyc : i.slave.cyc with
    | false =>
      rcases target with runt | lower
      · simpa [Stage, clock, hdr, state, packetNext, added, bufPush, bufStb, cyc, runt] using carries
      · simpa [Stage, clock, hdr, state, packetNext, added, bufPush, bufStb, cyc, lower] using carries
    | true =>
      have more := carries.append (added w.regs i w.tx.fifo.full)
      simpa [Stage, clock, hdr, state, packetNext, cyc] using ⟨target, more⟩
  | runt =>
    have full : w.tx.fifo.full = false := by simpa [state, pushes] using stops
    simp only [Stage, state] at stage
    obtain ⟨due, carries⟩ := stage
    have more := carries.append (added w.regs i false)
    simpa [Stage, clock, hdr, state, packetNext, due, full] using more
  | lower =>
    have full : w.tx.fifo.full = false := by simpa [state, pushes] using stops
    simp [Stage, clock, hdr, state, packetNext, full]
  | skip =>
    simp only [Stage, state] at stage
    simp [Stage, clock, hdr, state, packetNext, stage.1]
  | push =>
    have full : w.tx.fifo.full = false := by simpa [state, pushes] using stops
    simp only [Stage, state] at stage
    obtain ⟨due, target⟩ := stage
    have longer : packetNext w.regs i w.tx.fifo.full packet = packet ++ [w.regs.shift.extractLsb' 144 16] := by
      simp [packetNext, added, bufPush, bufStb, bufData, state, due, full]
    have strobe : (clock w i).hdrStb = true := by simp [clock, hdr, state, full, due]
    have same : (clock w i).staten = w.regs.staten := by simp [clock, hdr, state, full]
    have less : (clock w i).count = w.regs.count - 1 := by simp [clock, hdr, state, full]
    have shifted : (clock w i).shift = w.regs.shift <<< 16 := by simp [clock, hdr, state, full]
    have ready : w.regs.ready = true → (clock w i).ready = true := fun ready =>
      readyNext_high ready fun both => State.noConfusion (state.symm.trans both.1)
    have next : (clock w i).state = if w.regs.count = 1 then w.regs.staten
      else .push := by simp [clock, hdr, state, full]
    rw [longer]
    split_ifs at next with last
    · have one : w.regs.count.toNat = 1 := by rw [last]; rfl
      rcases target with ⟨staten, set, _, counts⟩ | ⟨staten, set, _, header, sent, good, heading,
        counts⟩ | ⟨staten, set, carries⟩ |
        ⟨staten, carries⟩
      · rw [staten] at next
        simp only [Stage, next]
        exact ⟨strobe, ready set, by rw [List.length_append, List.length_singleton]; omega⟩
      · rw [staten] at next
        simp only [Stage, next, shifted]
        have nine : sent + 1 = 9 := by omega
        exact ⟨strobe, ready set, header, good, nine ▸ heading.push (by omega)⟩
      · rw [staten] at next
        simp only [Stage, next]
        exact ⟨strobe, ready set, carries.append _⟩
      · rw [staten] at next
        simp only [Stage, next]
        exact ⟨strobe, carries.append _⟩
    · simp only [Stage, next, same, less, shifted]
      refine ⟨strobe, ?_⟩
      rcases target with ⟨staten, set, positive, counts⟩ | ⟨staten, set, positive, header, sent, good,
        heading, counts⟩ |
        ⟨staten, set, carries⟩ | ⟨staten, carries⟩
      · obtain ⟨positive', pred⟩ := count_pred positive last
        exact .inl ⟨staten, ready set, positive', by rw [List.length_append, List.length_singleton]; omega⟩
      · obtain ⟨positive', pred⟩ := count_pred positive last
        exact .inr (.inl ⟨staten, ready set, positive', header, sent + 1, good, heading.push (by omega), by omega⟩)
      · exact .inr (.inr (.inl ⟨staten, ready set, carries.append _⟩))
      · exact .inr (.inr (.inr ⟨staten, carries.append _⟩))

/-! ### The sum is there in time -/

def budget (r : Registers) : Nat :=
  match r.state with
  | .ip | .udp | .done => 0
  | .push =>
    match r.staten with
    | .ip => r.count.toNat
    | .udp | .done => 0
    | _ => 7
  | _ => 7

/-- The parameters that were taken are being added up, or were. -/
inductive SumInv (r : Registers) (own : BitVec 32) : Prop where
  | taken (ready : r.ready = true) (progress : Progress fedOf r.sum (summed r own) (budget r))
  | free (ready : r.ready = false) (waiting : Waiting fedOf r.sum)

theorem budget_body (stage : Stage w.regs packet)
    (body : w.regs.state ∈ [.wait, .payload, .runt, .lower, .skip]) : budget (clock w i) = 7 := by
  cases state : w.regs.state with
  | wait => cases cyc : i.slave.cyc <;> cases skip :
      i.skipStb <;> simp [budget, clock, hdr, state, payloadNext, cyc, skip]
  | payload =>
    simp only [Stage, state] at stage
    cases cyc : i.slave.cyc <;> rcases stage.1 with target | target <;> simp [budget, clock, hdr, state, cyc, target]
  | runt => cases full : w.tx.fifo.full <;> simp [budget, clock, hdr, state, full]
  | lower => cases full : w.tx.fifo.full <;> simp [budget, clock, hdr, state, full]
  | skip => simp [budget, clock, hdr, state]
  | ethernet | ip | udp | done | push => exact absurd (state ▸ body) (by decide)

theorem budget_clock (stage : Stage w.regs packet) : budget w.regs - 1 ≤ budget (clock w i) := by
  cases state : w.regs.state with
  | ethernet =>
    cases ready : w.regs.ready <;> simp [budget, clock, hdr, state, ready, fStep, ethLen]
  | ip => simp [budget, state]
  | udp => simp [budget, state]
  | done => simp [budget, state]
  | wait | payload | runt | lower | skip =>
    rw [budget_body stage (by rw [state]; decide)]
    simp [budget, state]
  | push =>
    simp only [Stage, state] at stage
    cases full : w.tx.fifo.full with
    | true =>
      have same : budget (clock w i) = budget w.regs := by simp [budget, clock, hdr, state, full]
      omega
    | false =>
      have next : (clock w i).state = if w.regs.count = 1 then w.regs.staten
        else .push := by simp [clock, hdr, state, full]
      have target : (clock w i).staten = w.regs.staten := by simp [clock, hdr, state, full]
      have less : (clock w i).count = w.regs.count - 1 := by simp [clock, hdr, state, full]
      rcases stage.2 with ⟨staten, _, positive, _⟩ | ⟨staten, _⟩ | ⟨staten, _⟩ | ⟨staten, _⟩
      · by_cases last : w.regs.count = 1
        · have one : w.regs.count.toNat = 1 := by rw [last]; rfl
          simp [budget, state, staten, one]
        · obtain ⟨_, pred⟩ := count_pred positive last
          rw [if_neg last] at next
          simp only [budget, state, staten, next, target, less]
          omega
      · simp [budget, state, staten]
      · simp [budget, state, staten]
      · by_cases last : w.regs.count = 1
        · rw [if_pos last, staten] at next
          simp [budget, state, staten, next]
        · rw [if_neg last] at next
          simp [budget, state, staten, next, target]

theorem budget_late (stage : Stage w.regs packet) (ready : w.regs.ready = false) :
    budget (clock w i) = 7 ∧ w.regs.state ≠ .done := by
  cases state : w.regs.state with
  | ethernet => simp [budget, clock, hdr, state, ready]
  | ip =>
    simp only [Stage, state] at stage
    exact absurd (ready.symm.trans stage.2.1) Bool.false_ne_true
  | udp =>
    simp only [Stage, state] at stage
    exact absurd (ready.symm.trans stage.2.1) Bool.false_ne_true
  | done =>
    simp only [Stage, state] at stage
    exact absurd (ready.symm.trans stage.2.1) Bool.false_ne_true
  | wait | payload | runt | lower | skip => exact ⟨budget_body stage (by rw [state]; decide), by decide⟩
  | push =>
    simp only [Stage, state] at stage
    rcases stage.2 with ⟨_, set, _⟩ | ⟨_, set, _⟩ | ⟨_, set, _⟩ | ⟨staten, _⟩
    · exact absurd (ready.symm.trans set) Bool.false_ne_true
    · exact absurd (ready.symm.trans set) Bool.false_ne_true
    · exact absurd (ready.symm.trans set) Bool.false_ne_true
    · cases full : w.tx.fifo.full <;> by_cases last :
        w.regs.count = 1#5 <;> simp [budget, clock, hdr, state, full, staten, last]

theorem SumInv.next (sums : SumInv w.regs w.own) (stage : Stage w.regs packet) (steady : Steady w i) :
    SumInv (clock w i) (step w i).own := by
  cases sums with
  | taken ready progress =>
    have quiet : latches w.regs i = false := by rw [latches, ready, Bool.not_true, Bool.and_false]
    have own : (step w i).own = w.own := if_pos ready
    have words : summed (clock w i) w.own = summed w.regs w.own := by
      simp only [summed, clock, quiet, Bool.false_eq_true, if_false]
    have next := progress.next (sumHeader_follows quiet (steady ready)) (by show 6 ≤ _; decide)
    rw [own]
    by_cases spent : w.regs.state = .done ∧ w.tx.fifo.full = false
    · have zero : budget w.regs = 0 := by rw [budget, spent.1]
      rw [zero] at next
      have cleared : (clock w i).ready = false := by rw [clock, readyNext, if_pos spent]
      exact .free cleared next.waiting.1
    · refine .taken (readyNext_high ready spent) ?_
      rw [words]
      exact next.mono (budget_clock stage)
  | free ready waiting =>
    obtain ⟨late, other⟩ := budget_late (i := i) stage ready
    have readyAfter : (clock w i).ready = latches w.regs i := by
      rw [clock, readyNext, if_neg fun both => other both.1, ready, Bool.or_false]
    cases taken : latches w.regs i with
    | true =>
      refine .taken (readyAfter.trans taken) ?_
      rw [late]
      have state : w.regs.sum.state = .const := const_of_waiting waiting.state
      refine waiting.start ?_ ?_ ?_ ?_
      all_goals simp only [clock, sumHeader, state, taken, Bool.true_or, if_true]
      all_goals rfl
    | false =>
      have same : i.myIp = (step w i).own := (if_neg (by rw [ready]; exact Bool.false_ne_true)).symm
      exact .free (readyAfter.trans taken) (waiting.next (sumHeader_follows taken same))

theorem SumInv.header (sums : SumInv w.regs w.own) (stage : Stage w.regs packet) (steady : Steady w i)
    (state : w.regs.state = .ip) : Good (fSendIp w.regs.ip i.myIp w.regs.length w.regs.sum.adder.sumO) := by
  simp only [Stage, state] at stage
  cases sums with
  | taken ready progress =>
    have zero : budget w.regs = 0 := by rw [budget, state]
    rw [zero] at progress
    rw [steady ready]
    exact good_header rfl progress.waiting.2.sumO
  | free ready waiting => exact absurd (ready.symm.trans stage.2.1) Bool.false_ne_true

/-! ### What is written and what is sent -/

/-- The cells behind each other: those of packets that ended, and those of the packet that is
being written. Nothing of that one is committed before its end. -/
structure Written (w : World depth) (packet : List (BitVec 16)) : Prop where
  current : (parse (w.tx.committed ++ w.tx.opened)).2 = packet
  checked : AllChecked (parse (w.tx.committed ++ w.tx.opened))
  committed : w.regs.state ≠ .lower → (parse w.tx.committed).2 = []

structure Wire (w : World depth) : Prop where
  frames : ∀ frame ∈ w.frames, frame ∈ (parse w.tx.popped).1
  current : w.current.getD [] = (parse w.tx.popped).2
  cyc : w.regs.txCyc = w.current.isSome

structure Inv (w : World depth) : Prop where
  fifo : CommitFifo.Inv w.tx
  packet : ∃ packet, Stage w.regs packet ∧ Written w packet
  sums : SumInv w.regs w.own
  wire : Wire w

theorem start_inv (ram : Nat → BitVec 17) (rDat : BitVec 17) : Inv (start ram rDat : World depth) where
  fifo := CommitFifo.start_inv ram rDat
  packet := ⟨[], ⟨rfl, rfl⟩, rfl, fun packet listed long => by
    obtain rfl := List.mem_singleton.mp listed
    exact absurd long (show ¬17 ≤ ([] : List (BitVec 16)).length by decide), fun _ => rfl⟩
  sums := .free rfl ⟨rfl, rfl, rfl⟩
  wire := ⟨fun frame listed => absurd listed List.not_mem_nil, rfl, rfl⟩

theorem ports_allowed (w : World depth) (i : Inputs) : CommitFifo.Allowed w.tx (ports w i) := by
  refine ⟨fun pushed => ?_, fun popped => ?_⟩
  · simp only [ports] at pushed
    split_ifs at pushed with push
    · rw [bufPush, Bool.and_eq_true, Bool.not_eq_true'] at push
      exact push.2
    · cases pushed
  · simp only [ports, txPop, Bool.and_eq_true, Bool.not_eq_true'] at popped
    exact popped.1

theorem ports_apart (w : World depth) (i : Inputs) : CommitFifo.Apart w.tx (ports w i) := by
  intro commit abort
  have lower : w.regs.state = .lower := of_decide_eq_true commit
  have skip : w.regs.state = .skip := of_decide_eq_true abort
  rw [lower] at skip
  cases skip

theorem step_cells (w : World depth) (i : Inputs) : (step w i).tx.committed ++ (step w i).tx.opened =
    if w.regs.state = .skip then w.tx.committed else w.tx.committed ++ w.tx.opened ++ (ports w i).push.toList := by
  by_cases skip : w.regs.state = .skip
  · simp [step, CommitFifo.step, ports, skip]
  · by_cases lower : w.regs.state = .lower
    · simp [step, CommitFifo.step, CommitFifo.written, ports, lower]
    · simp [step, CommitFifo.step, CommitFifo.written, ports, lower, skip]

theorem push_added (w : World depth) (i : Inputs) : (ports w i).push.toList =
    if w.regs.state = .lower then (added w.regs i w.tx.fifo.full).map (BitVec.ofBool false ++ ·)
    else (added w.regs i w.tx.fifo.full).map (BitVec.ofBool true ++ ·) := by
  by_cases lower : w.regs.state = .lower <;> cases push : bufPush w.regs i w.tx.fifo.full <;>
  simp [ports, added, bufCyc, lower, push]

theorem Written.next (written : Written w packet) (stage : Stage w.regs packet)
    (stageNext : Stage (clock w i) (packetNext w.regs i w.tx.fifo.full packet)) :
    Written (step w i) (packetNext w.regs i w.tx.fifo.full packet) := by
  obtain ⟨current, checked, committed⟩ := written
  have cells := step_cells w i
  rw [push_added] at cells
  by_cases skip : w.regs.state = .skip
  · have none : packetNext w.regs i w.tx.fifo.full packet = [] := if_pos (.inl skip)
    have empty := committed (by rw [skip]; decide)
    have same : (step w i).tx.committed = w.tx.committed := by simp [step, CommitFifo.step, ports, skip]
    rw [if_pos skip] at cells
    refine ⟨?_, ?_, fun _ => by rw [same]; exact empty⟩
    · rw [cells, empty, none]
    · rw [cells]
      exact checked.of_prefix
  rw [if_neg skip] at cells
  by_cases lower : w.regs.state = .lower
  · rw [if_pos lower] at cells
    have due : w.regs.hdrStb = true := by
      simp only [Stage, lower] at stage
      exact stage.1
    have moved : (step w i).tx.committed = w.tx.committed ++ w.tx.opened ++ (ports w i).push.toList := by
      simp [step, CommitFifo.step, CommitFifo.written, ports, lower]
    cases full : w.tx.fifo.full with
    | true =>
      have quiet : added w.regs i true = [] := by rw [added, bufPush, Bool.not_true, Bool.and_false]; rfl
      have same : packetNext w.regs i true packet = packet := by
        rw [packetNext, quiet, List.append_nil, if_neg]
        rintro (skip' | ⟨_, none⟩)
        · exact skip skip'
        · cases none
      have stays : (step w i).regs.state = .lower := by simp [step, clock, hdr, lower, full]
      rw [full, quiet, List.map_nil, List.append_nil] at cells
      exact ⟨by rw [cells, same]; exact current, by rw [cells]; exact checked, fun other => absurd stays other⟩
    | false =>
      have last : added w.regs i false = [bufData w.regs i] := by simp [added, bufPush, bufStb, lower, due]
      have none : packetNext w.regs i false packet = [] := if_pos (.inr ⟨lower, rfl⟩)
      rw [full, last, List.map_singleton] at cells
      rw [push_added, if_pos lower, full, last, List.map_singleton] at moved
      have ended := parseCell_low (parse (w.tx.committed ++ w.tx.opened)) (bufData w.regs i)
      refine ⟨?_, ?_, fun _ => by rw [moved, parse_concat, ended]⟩
      · rw [cells, parse_concat, ended, none]
      · rw [cells, parse_concat, ended]
        intro packet listed long
        rcases List.mem_append.mp listed with before | now
        · exact checked packet before long
        · obtain rfl := List.mem_singleton.mp now
          exact absurd long (show ¬17 ≤ ([] : List (BitVec 16)).length by decide)
  · rw [if_neg lower] at cells
    have more : packetNext w.regs i w.tx.fifo.full packet = packet ++ added w.regs i w.tx.fifo.full := by
      rw [packetNext, if_neg]
      rintro (skip' | ⟨lower', _⟩)
      · exact skip skip'
      · exact lower lower'
    have same : (step w i).tx.committed = w.tx.committed := by simp [step, CommitFifo.step, ports, lower]
    have parsed : parse (w.tx.committed ++ w.tx.opened ++ (added w.regs i w.tx.fifo.full).map
      (BitVec.ofBool true ++ ·)) =
        ((parse (w.tx.committed ++ w.tx.opened)).1, packet ++ added w.regs i w.tx.fifo.full) := by
      rw [added]
      split_ifs with push
      · rw [List.map_singleton, parse_concat, parseCell_high, current]
      · rw [List.map_nil, List.append_nil, List.append_nil, ← current]
    rw [more] at stageNext ⊢
    refine ⟨by rw [cells, parsed], ?_, fun _ => by rw [same]; exact committed lower⟩
    rw [cells, parsed]
    intro packet listed long
    rcases List.mem_append.mp listed with before | now
    · exact checked packet (List.mem_append_left _ before) long
    · obtain rfl := List.mem_singleton.mp now
      exact stageNext.checked long

theorem Wire.next (wire : Wire w) : Wire (step w i) := by
  obtain ⟨frames, current, cyc⟩ := wire
  have popped : (step w i).tx.popped = if txPop w i then w.tx.popped ++ [w.tx.fifo.rDat] else w.tx.popped := rfl
  cases empty : w.tx.fifo.empty with
  | true =>
    have none : txPop w i = false := by rw [txPop, empty]; rfl
    have quiet : transferred w i = [] := by rw [transferred, srcStb, empty]; rfl
    rw [none, if_neg Bool.false_ne_true] at popped
    have high : srcCyc w = w.current.isSome := by rw [srcCyc, empty]; exact cyc
    have held : (step w i).regs.txCyc = w.current.isSome := by simp [step, clock, empty, cyc]
    cases onWire : w.current with
    | none =>
      rw [onWire] at high held current
      have low : srcCyc w = false := high
      refine ⟨?_, ?_, ?_⟩
      · rw [popped]
        simpa [step, low, onWire] using frames
      · rw [popped, ← current]
        simp [step, low]
      · rw [held]
        simp [step, low]
    | some frame =>
      rw [onWire] at high held current
      have up : srcCyc w = true := high
      refine ⟨?_, ?_, ?_⟩
      · rw [popped]
        simpa [step, up] using frames
      · rw [popped, ← current]
        simp [step, up, onWire, quiet]
      · rw [held]
        simp [step, up]
  | false =>
    have held : (step w i).regs.txCyc = txCyc w := by simp [step, clock, empty]
    have high : srcCyc w = txCyc w := by rw [srcCyc, empty]; rfl
    cases cell : txCyc w with
    | false =>
      have low : srcCyc w = false := high.trans cell
      have pop : txPop w i = true := by rw [txPop, empty, cell]; rfl
      rw [pop, if_pos rfl] at popped
      have parsed : parse (w.tx.popped ++ [w.tx.fifo.rDat]) =
        ((parse w.tx.popped).1 ++ [(parse w.tx.popped).2], []) := by
        rw [parse_concat, parseCell, if_neg (by rw [← txCyc, cell]; exact Bool.false_ne_true)]
      refine ⟨?_, ?_, ?_⟩
      · rw [popped, parsed]
        intro frame listed
        have sent : (step w i).frames = w.frames ++ w.current.toList := by simp [step, low]
        rw [sent] at listed
        rcases List.mem_append.mp listed with before | now
        · exact List.mem_append_left _ (frames frame before)
        · rw [Option.mem_toList] at now
          rw [now] at current
          exact List.mem_append_right _ (List.mem_singleton.mpr current)
      · rw [popped, parsed]
        simp [step, low]
      · rw [held, cell]
        simp [step, low]
    | true =>
      have up : srcCyc w = true := high.trans cell
      have pop : txPop w i = !i.stall := by rw [txPop, empty, cell]; rfl
      have word : transferred w i = if i.stall then [] else [txDat w] := by
        rw [transferred, srcStb, empty]
        cases i.stall <;> rfl
      have parsed : parse (w.tx.popped ++ [w.tx.fifo.rDat]) =
        ((parse w.tx.popped).1, (parse w.tx.popped).2 ++ [txDat w]) := by
        rw [parse_concat, parseCell, if_pos (show w.tx.fifo.rDat.msb = true from cell)]
        rfl
      have next : (step w i).current = some (w.current.getD [] ++ transferred w i) := if_pos up
      refine ⟨?_, ?_, ?_⟩
      · rw [popped, pop]
        have same : (step w i).frames = w.frames := if_pos up
        rw [same]
        split_ifs with moves
        · rw [parsed]
          exact frames
        · exact frames
      · rw [popped, pop, next, word, current]
        cases i.stall with
        | true => simp
        | false => simp [parsed]
      · rw [held, cell, next]
        rfl

theorem Inv.kept (inv : Inv w) (steady : Steady w i) : Inv (step w i) := by
  obtain ⟨packet, stage, written⟩ := inv.packet
  have stageNext := stage.next (i := i) fun state => inv.sums.header stage steady state
  exact ⟨inv.fifo.kept (ports_allowed w i) (ports_apart w i), ⟨_, stageNext, written.next stage stageNext⟩,
    inv.sums.next stage steady, inv.wire.next⟩

theorem Inv.sends (inv : Inv w) : Sends w := by
  obtain ⟨packet, _, written⟩ := inv.packet
  obtain ⟨rest, committed⟩ := inv.fifo.faithful.popped
  have checked : AllChecked (parse w.tx.popped) := by
    have whole := written.checked
    rw [← committed, List.append_assoc] at whole
    exact whole.of_prefix
  intro frame listed long
  rcases List.mem_append.mp listed with sent | current
  · exact checked frame (List.mem_append_left _ (inv.wire.frames frame sent)) long
  · rw [Option.mem_toList] at current
    have same := inv.wire.current
    rw [current] at same
    exact checked frame (List.mem_append_right _ (List.mem_singleton.mpr same)) long

/-- In every run in which the address of the slave stays while a header with it is made, each IP
header on the wire has a valid checksum. The adder behind it sums up to 2^12 words of any kind. -/
theorem replies_checked (ram : Nat → BitVec 17) (rDat : BitVec 17) (inputs : List Inputs)
    (along : Along step Steady (start ram rDat : World depth) inputs) :
    Sends (inputs.foldl step (start ram rDat : World depth)) ∧
      ∀ (a : Adder) (words : List (BitVec 16)) (pause : BitVec 16), a.addup = false → words ≠ [] →
        words.length ≤ 2 ^ 12 →
        ((words.foldl (fun a data => a.clock true data) a).clock false pause).Shows words := by
  refine ⟨(along.invariant Inv (start_inv ram rDat) fun inv steady => inv.kept steady).sends, ?_⟩
  intro a words pause idle some few
  cases words with
  | nil => exact absurd rfl some
  | cons data words => exact Adder.folded idle data words few pause

def clockOf (params : Bool) (payload : Option (BitVec 16)) : Inputs :=
  { slave := ⟨payload.isSome, payload.isSome, payload.getD 0⟩, stall := false, stb := params, mac := 0x112233445566
    ip := 0xc0a8ffff, port := 0x0ebd, length := 20, skipStb := false, myMac := 0x665544332211, myIp := 0xc0a80001
    myPort := 0xebd0, conflict := 0 }

def replyRun : List Inputs :=
  [clockOf true none] ++ List.replicate 30 (clockOf false (some 0x4e6f)) ++ List.replicate 60 (clockOf false none)

/-- A reply of six words of payload and its padding. -/
theorem replies_checked_padded :
    ∃ frame ∈ (replyRun.foldl step (start (fun _ => 0) 0 : World 6)).frames, 17 ≤ frame.length ∧ Checked frame := by
  have sends := (replies_checked (fun _ => 0) 0 replyRun
    (by decide +kernel : Along step Steady (start (fun _ => 0) 0 : World 6) replyRun)).1
  have some : ∃ frame ∈ (replyRun.foldl step (start (fun _ => 0) 0 : World 6)).frames, 17 ≤
    frame.length := by decide +kernel
  obtain ⟨frame, sent, long⟩ := some
  exact ⟨frame, sent, long, sends frame (List.mem_append_left _ sent) long⟩

end BelProject.SlaveCore.EthTx
