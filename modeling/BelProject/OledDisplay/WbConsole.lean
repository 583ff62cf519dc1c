import BelProject.Library.Runs
import BelProject.Library.SyncFifo
import Mathlib.Data.BitVec

/-! The bus side of the console of the display. A write is taken while the stall line is low, and
the stall line is lowered by the full flag of the clock before, in which the character of an earlier
write may still be under way to the FIFO. The FIFO itself is a part of the general cores and enters
by its contract. -/

namespace BelProject.OledDisplay.WbConsole
open BelProject.Library Runs SyncFifo

/-- `slave_i`, and the read line of the display. -/
structure Inputs where
  nRst : Bool
  cyc : Bool
  stb : Bool
  we : Bool
  sel : BitVec 4
  adr : BitVec 32
  dat : BitVec 32
  read : Bool

structure Registers where
  wEn : Bool
  rEn : Bool
  valid : Bool
  rawWren : Bool
  mode : BitVec 2
  charCol : BitVec 4
  charRow : BitVec 3
  resetDisp : Bool
  colOffset : BitVec 8
  ack : Bool
  stall : Bool
  wbuffer : BitVec 8
  rawAddr : BitVec 11
  rawData : BitVec 8
  dispRamAckSh : Bool
  dispRamAckShreg : Bool
  slaveDat : BitVec 32
  deriving DecidableEq

def Inputs.adrmode (i : Inputs) : BitVec 2 := i.adr.extractLsb' 16 2

def defaults (r : Registers) (empty : Bool) (i : Inputs) : Registers :=
  { r with
    resetDisp := false
    ack := false
    stall := true
    rEn := i.read && !empty && !r.rEn
    wEn := false
    wbuffer := if i.sel.getLsbD 0 then i.dat.extractLsb' 0 8 else r.wbuffer
    rawWren := false
    valid := r.rEn
    rawAddr := 0
    dispRamAckSh := false
    dispRamAckShreg := r.dispRamAckSh }

def control (r s : Registers) (i : Inputs) : Registers :=
  let s := { s with stall := r.dispRamAckShreg, ack := !r.stall }
  if i.sel.getLsbD 0 then
    if i.adr.extractLsb' 2 14 = 0 then
      if i.we then { s with mode := r.wbuffer.extractLsb' 0 2 } else { s with slaveDat := r.mode.setWidth 32 }
    else if i.adr.extractLsb' 2 14 = 1 then { s with resetDisp := i.we }
    else if i.adr.extractLsb' 2 14 = 2 then
      { s with slaveDat := r.colOffset.setWidth 32, colOffset := if i.we then i.dat.extractLsb' 0 8 else r.colOffset }
    else s
  else s

def uart (r s : Registers) (full : Bool) (i : Inputs) : Registers :=
  let s := { s with stall := r.dispRamAckShreg || !(!full && r.stall), ack := !r.stall }
  if i.we && i.sel.getLsbD 0 && !r.stall && i.adr.extractLsb' 2 14 == 0 then { s with wEn := true } else s

def char (r s : Registers) (full empty : Bool) (i : Inputs) : Registers :=
  let s := { s with stall := r.dispRamAckShreg || !(!full && r.stall && empty), ack := !r.stall }
  if i.we && i.sel.getLsbD 0 && !r.stall && (i.adr.extractLsb' 2 4).ult 11 then
    { s with wEn := true, charRow := i.adr.extractLsb' 6 3, charCol := i.adr.extractLsb' 2 4 }
  else s

def raw (r s : Registers) (i : Inputs) : Registers :=
  let s := { s with stall := false, rawData := i.dat.extractLsb' 0 8, rawAddr := i.adr.extractLsb' 2 11 }
  if r.stall then s
  else if i.we then { s with rawWren := i.sel.getLsbD 0, ack := !r.stall }
  else { s with dispRamAckSh := true }

/-- The process `main`. -/
def main (r : Registers) (full empty : Bool) (i : Inputs) : Registers :=
  if i.nRst then
    let s := defaults r empty i
    if i.cyc && i.stb then
      match i.adrmode with
      | 0 => control r s i
      | 1 => uart r s full i
      | 2 => char r s full empty i
      | 3 => raw r s i
    else s
  else
    { r with
      wEn := false
      rEn := false
      valid := false
      rawWren := false
      mode := 1
      charCol := 0
      charRow := 0
      resetDisp := false
      colOffset := 0x30 }

variable (f : Fifo (BitVec 8) 16)

/-- The console with its FIFO, and the characters since the last reset: those whose write was taken,
those that were written when there was room, and those that the display took. -/
structure World where
  regs : Registers
  fifo : f.State
  accepted : List (BitVec 8)
  entered : List (BitVec 8)
  taken : List (BitVec 8)

def Inputs.character (i : Inputs) : Bool :=
  i.cyc && i.stb && i.we && i.sel.getLsbD 0 &&
    (i.adrmode == 1 && i.adr.extractLsb' 2 14 == 0 || i.adrmode == 2 && (i.adr.extractLsb' 2 4).ult 11)

def accepts (r : Registers) (i : Inputs) : Option (BitVec 8) :=
  if i.character && !r.stall then some (i.dat.extractLsb' 0 8) else none

def Registers.pending (r : Registers) : Option (BitVec 8) := if r.wEn then some r.wbuffer else none

variable {f}

def step (w : World f) (i : Inputs) : World f :=
  if i.nRst then
    { regs := main w.regs (f.full w.fifo) (f.empty w.fifo) i
      fifo := f.clock w.fifo w.regs.pending w.regs.rEn
      accepted := w.accepted ++ (accepts w.regs i).toList
      entered := if f.full w.fifo then w.entered else w.entered ++ w.regs.pending.toList
      taken := if w.regs.rEn then w.taken ++ (f.contents w.fifo).head?.toList else w.taken }
  else ⟨main w.regs (f.full w.fifo) (f.empty w.fifo) i, f.reset, [], [], []⟩

/-- No character is written while the FIFO is full, and each that was taken is in the FIFO once and
in its order, or on its way there, or the display has it. -/
structure Lossless (w : World f) : Prop where
  room : w.regs.wEn = true → f.full w.fifo = false
  once : w.accepted = w.entered ++ w.regs.pending.toList
  kept : w.entered = w.taken ++ f.contents w.fifo

/-- A clock acknowledges the character that it takes, and leaves no character lost. -/
structure Proper (w : World f) (i : Inputs) : Prop where
  acknowledged : i.nRst = true → (accepts w.regs i).isSome = true → (step w i).regs.ack = true
  lossless : Lossless (step w i)

def start (f : Fifo (BitVec 8) 16) (r : Registers) : World f :=
  ⟨main r false true ⟨false, false, false, false, 0, 0, 0, false⟩, f.reset, [], [], []⟩

/-- A character is taken only when there is room for it besides the one on its way. -/
def Roomy (w : World f) (i : Inputs) : Prop :=
  i.nRst = true → i.character = true → w.regs.stall = false →
    (f.contents w.fifo).length + w.regs.wEn.toNat < 16 + w.regs.rEn.toNat

instance (w : World f) (i : Inputs) : Decidable (Roomy w i) :=
  inferInstanceAs (Decidable (_ → _ → _ → _))

section
variable {r : Registers} {full empty : Bool} {i : Inputs}

theorem control_next (r s : Registers) : (control r s i).wEn = s.wEn ∧ (control r s i).rEn = s.rEn := by
  unfold control
  split_ifs <;> exact ⟨rfl, rfl⟩

theorem raw_next (r s : Registers) : (raw r s i).wEn = s.wEn ∧ (raw r s i).rEn = s.rEn := by
  unfold raw
  split_ifs <;> exact ⟨rfl, rfl⟩

theorem uart_next (full : Bool) (r s : Registers) :
    (uart r s full i).wEn = (i.we && i.sel.getLsbD 0 && !r.stall && i.adr.extractLsb' 2 14 == 0 || s.wEn) ∧
    (uart r s full i).rEn = s.rEn ∧ (uart r s full i).wbuffer = s.wbuffer ∧ (uart r s full i).ack = !r.stall := by
  unfold uart
  split_ifs with writes
  · exact ⟨by rw [writes, Bool.true_or], rfl, rfl, rfl⟩
  · exact ⟨by rw [Bool.eq_false_iff.mpr writes, Bool.false_or], rfl, rfl, rfl⟩

theorem char_next (full empty : Bool) (r s : Registers) :
    (char r s full empty i).wEn = (i.we && i.sel.getLsbD 0 && !r.stall && (i.adr.extractLsb' 2 4).ult 11 || s.wEn) ∧
      (char r s full empty i).rEn = s.rEn ∧ (char r s full empty i).wbuffer = s.wbuffer ∧
      (char r s full empty i).ack = !r.stall := by
  unfold char
  split_ifs with writes
  · exact ⟨by rw [writes, Bool.true_or], rfl, rfl, rfl⟩
  · exact ⟨by rw [Bool.eq_false_iff.mpr writes, Bool.false_or], rfl, rfl, rfl⟩

theorem next_of_line {s : Registers} (wEn : s.wEn = (i.character && !r.stall))
    (taken : (i.character && !r.stall) = true → s.wbuffer = i.dat.extractLsb' 0 8 ∧ s.ack = true) :
    s.pending = accepts r i ∧ ((accepts r i).isSome = true → s.ack = true) := by
  rw [accepts, Registers.pending, wEn]
  split_ifs with line
  · exact ⟨congrArg some (taken line).1, fun _ => (taken line).2⟩
  · exact ⟨rfl, fun some => absurd some Bool.false_ne_true⟩

theorem main_next (high : i.nRst = true) : (main r full empty i).pending = accepts r i ∧
    ((accepts r i).isSome = true → (main r full empty i).ack = true) ∧ (main r full empty i).rEn =
    (i.read && !empty && !r.rEn) := by
  rw [main, if_pos high]
  by_cases access : (i.cyc && i.stb) = true
  · have modes : ∀ mode : BitVec 2, mode = 0 ∨ mode = 1 ∨ mode = 2 ∨ mode = 3 := by decide
    have latched (line : (i.character && !r.stall) = true) : (defaults r empty i).wbuffer = i.dat.extractLsb' 0 8 := by
      apply if_pos
      simp only [Inputs.character, Bool.and_eq_true] at line
      exact line.1.1.2
    have moves (line : (i.character && !r.stall) = true) : (!r.stall) = true := (Bool.and_eq_true_iff.mp line).2
    rw [if_pos access, ← and_assoc]
    rcases modes i.adrmode with mode | mode | mode | mode
    · obtain ⟨wEn, rEn⟩ := control_next (i := i) r (defaults r empty i)
      have other : (i.character && !r.stall) = false := by simp [Inputs.character, mode]
      rw [mode]
      exact ⟨next_of_line (s := control r (defaults r empty i) i) (wEn.trans other.symm)
        fun line => absurd (other.symm.trans line) Bool.false_ne_true, rEn⟩
    · obtain ⟨wEn, rEn, wbuffer, ack⟩ := uart_next (i := i) full r (defaults r empty i)
      have line : (i.character && !r.stall) =
        (i.we && i.sel.getLsbD 0 && !r.stall && i.adr.extractLsb' 2 14 == 0 || false) := by
        rw [Inputs.character, access, mode]
        grind
      rw [mode]
      exact ⟨next_of_line (s := uart r (defaults r empty i) full i) (wEn.trans line.symm)
        fun line => ⟨wbuffer.trans (latched line), ack.trans (moves line)⟩, rEn⟩
    · obtain ⟨wEn, rEn, wbuffer, ack⟩ := char_next (i := i) full empty r (defaults r empty i)
      have line : (i.character && !r.stall) =
        (i.we && i.sel.getLsbD 0 && !r.stall && (i.adr.extractLsb' 2 4).ult 11 || false) := by
        rw [Inputs.character, access, mode]
        grind
      rw [mode]
      exact ⟨next_of_line (s := char r (defaults r empty i) full empty i) (wEn.trans line.symm)
        fun line => ⟨wbuffer.trans (latched line), ack.trans (moves line)⟩, rEn⟩
    · obtain ⟨wEn, rEn⟩ := raw_next (i := i) r (defaults r empty i)
      have other : (i.character && !r.stall) = false := by simp [Inputs.character, mode]
      rw [mode]
      exact ⟨next_of_line (s := raw r (defaults r empty i) i) (wEn.trans other.symm)
        fun line => absurd (other.symm.trans line) Bool.false_ne_true, rEn⟩
  · have none : accepts r i = none := by
      rw [accepts, Inputs.character, Bool.eq_false_iff.mpr access]
      rfl
    rw [none]
    simp only [access]
    exact ⟨rfl, fun some => absurd some Bool.false_ne_true, rfl⟩

end

section
variable {w : World f} {i : Inputs}

theorem accepts_isSome {r : Registers} : (accepts r i).isSome = true ↔ i.character = true ∧ r.stall = false := by
  rw [accepts]
  split_ifs with line
  · exact ⟨fun _ => by simpa using line, fun _ => rfl⟩
  · exact ⟨fun some => absurd some Bool.false_ne_true, fun both => absurd (by simpa using both) line⟩

theorem pending_isSome {r : Registers} : r.pending.isSome = true ↔ r.wEn = true := by
  rw [Registers.pending]
  split_ifs with line
  · exact ⟨fun _ => line, fun _ => rfl⟩
  · exact ⟨fun some => absurd some Bool.false_ne_true, fun high => absurd high line⟩

/-- The display reads only what is there. -/
structure Follows (w : World f) : Prop where
  lossless : Lossless w
  reads : w.regs.rEn = true → f.empty w.fifo = false

theorem start_follows (r : Registers) : Follows (start f r) where
  lossless := ⟨fun never => absurd never Bool.false_ne_true, rfl, f.contents_reset.symm⟩
  reads never := absurd never Bool.false_ne_true

theorem step_reset (low : i.nRst = false) : Follows (step w i) := by
  have off : ¬i.nRst = true := Bool.eq_false_iff.mp low
  rw [step, if_neg off, main, if_neg off]
  exact ⟨⟨fun never => absurd never Bool.false_ne_true, rfl, f.contents_reset.symm⟩, fun never =>
    absurd never Bool.false_ne_true⟩

theorem Follows.contents (follows : Follows w) (high : i.nRst = true) : f.contents (step w i).fifo =
    (if w.regs.rEn then (f.contents w.fifo).tail else f.contents w.fifo) ++ w.regs.pending.toList := by
  rw [step, if_pos high]
  exact f.contents_clock _ _ _ (fun some => follows.lossless.room (pending_isSome.mp some)) follows.reads

theorem length_pending (r : Registers) : r.pending.toList.length = r.wEn.toNat := by
  rw [Registers.pending]
  cases r.wEn with
  | false => rfl
  | true => rfl

section
variable (follows : Follows w)
include follows

section
variable (high : i.nRst = true)
include high

theorem Follows.length :
    (f.contents (step w i).fifo).length + w.regs.rEn.toNat = (f.contents w.fifo).length + w.regs.wEn.toNat := by
  rw [follows.contents high, List.length_append, length_pending]
  cases reads : w.regs.rEn with
  | false => rfl
  | true =>
    have some : 0 < (f.contents w.fifo).length := by
      apply List.length_pos_iff.mpr
      intro none
      exact absurd ((follows.reads reads).symm.trans ((f.empty_iff _).mpr none)) Bool.false_ne_true
    rw [if_pos rfl, List.length_tail, Bool.toNat_true]
    omega

theorem Follows.entered : (step w i).entered = w.entered ++ w.regs.pending.toList := by
  rw [step, if_pos high]
  cases full : f.full w.fifo with
  | false => rfl
  | true =>
    have quiet : w.regs.wEn = false := Bool.eq_false_iff.mpr fun writes =>
      absurd ((follows.lossless.room writes).symm.trans full) Bool.false_ne_true
    have none : w.regs.pending = none := by rw [Registers.pending, quiet, if_neg Bool.false_ne_true]
    rw [none]
    exact (List.append_nil _).symm

theorem Follows.once : (step w i).accepted = (step w i).entered ++ (step w i).regs.pending.toList := by
  have next : (step w i).regs.pending = accepts w.regs i := by
    rw [step, if_pos high]
    exact (main_next high).1
  have taken : (step w i).accepted = w.accepted ++ (accepts w.regs i).toList := by rw [step, if_pos high]
  rw [taken, follows.entered high, next, follows.lossless.once]

theorem Follows.kept : (step w i).entered = (step w i).taken ++ f.contents (step w i).fifo := by
  have taken : (step w i).taken = if w.regs.rEn then w.taken ++ (f.contents w.fifo).head?.toList else w.taken := by
    rw [step, if_pos high]
  rw [follows.entered high, follows.contents high, taken, follows.lossless.kept]
  split_ifs
  · cases f.contents w.fifo with
    | nil => simp
    | cons first rest => simp
  · rw [List.append_assoc]

theorem Follows.roomy_iff : Lossless (step w i) ↔ Roomy w i := by
  have length := follows.length high
  have most := f.length_le (step w i).fifo
  have writes : (step w i).regs.wEn = true ↔ i.character = true ∧ w.regs.stall = false := by
    rw [← pending_isSome, ← accepts_isSome, step, if_pos high, (main_next high).1]
  have room : f.full (step w i).fifo = false ↔ (f.contents (step w i).fifo).length < 16 := by
    rw [← Bool.not_eq_true, f.full_iff]
    omega
  constructor
  · intro lossless _ character moves
    have space := room.mp (lossless.room (writes.mpr ⟨character, moves⟩))
    omega
  · intro roomy
    refine ⟨fun write => room.mpr ?_, follows.once high, follows.kept high⟩
    have space := roomy high (writes.mp write).1 (writes.mp write).2
    omega

end

theorem Follows.next (lossless : Lossless (step w i)) : Follows (step w i) := by
  cases high : i.nRst with
  | false => exact step_reset high
  | true =>
    refine ⟨lossless, fun reads => ?_⟩
    have line : (step w i).regs.rEn = (i.read && !f.empty w.fifo && !w.regs.rEn) := by
      rw [step, if_pos high]
      exact (main_next high).2.2
    rw [reads, eq_comm, Bool.and_eq_true, Bool.and_eq_true, Bool.not_eq_true', Bool.not_eq_true'] at line
    have some : f.contents w.fifo ≠ [] :=
      fun none => absurd (line.1.2.symm.trans ((f.empty_iff _).mpr none)) Bool.false_ne_true
    rw [← Bool.not_eq_true, f.empty_iff, follows.contents high, line.2, if_neg Bool.false_ne_true,
      List.append_eq_nil_iff]
    exact fun none => some none.1

theorem Follows.proper_iff : Proper w i ↔ Roomy w i := by
  cases high : i.nRst with
  | false =>
    have off (on : i.nRst = true) : False := absurd (high.symm.trans on) Bool.false_ne_true
    exact ⟨fun _ on => (off on).elim, fun _ => ⟨fun on => (off on).elim, (step_reset high).lossless⟩⟩
  | true =>
    rw [← follows.roomy_iff high]
    refine ⟨Proper.lossless, fun lossless => ⟨fun _ some => ?_, lossless⟩⟩
    rw [step, if_pos high]
    exact (main_next high).2.1 some

end

end

/-- In every run no character is lost exactly if each is taken with room for it behind the one on
its way. -/
theorem console_lossless_iff (f : Fifo (BitVec 8) 16) (r : Registers) (inputs : List Inputs) :
    Along step Proper (start f r) inputs ↔ Along step Roomy (start f r) inputs := by
  apply (along_true step (start f r) inputs).congr Follows (start_follows r)
  · exact fun follows _ => follows.proper_iff
  · exact fun follows _ proper => follows.next proper.lossless

def stalled : Registers :=
  { wEn := false, rEn := false, valid := false, rawWren := false, mode := 0, charCol := 0, charRow := 0,
    resetDisp := false, colOffset := 0,
    ack := false, stall := true, wbuffer := 0, rawAddr := 0, rawData := 0, dispRamAckSh :=
      false, dispRamAckShreg := false, slaveDat := 0 }

/-- A write of a character to the console, held for a clock. -/
def put : Inputs := ⟨true, true, true, true, 1, 0x10000, 0x41, false⟩

/-- Seventeen characters one behind the other, which the display does not take. -/
theorem seventeenth_lost : ¬ Along step Proper (start (queue (BitVec 8) 16) stalled) (List.replicate 34 put) := by
  intro along
  have last := along_iff.mp along (List.replicate 33 put) put [] rfl
  exact absurd (last.lossless.room (by decide +kernel)) (by decide +kernel)

end BelProject.OledDisplay.WbConsole
