import BelProject.Library.Runs
import Mathlib.Data.BitVec
import Mathlib.Tactic.Common

/-! `tmr_scu_bus`: a down counter with four registers on the SCU bus. The decoder strobes a register
one clock after the access, and a write takes the data of the clock behind. The control
register clears itself, with the value registers, as soon as its reset bit is set. -/

namespace BelProject.Tmr.TmrScuBus

structure Inputs where
  adr : BitVec 16
  data : BitVec 16
  extAdrVal : Bool
  extRdActive : Bool
  extWrActive : Bool
  nrst : Bool

/-- The strobes of `tmr_decoder`. -/
structure Decoder where
  wrTmrCntrl : Bool
  rdTmrCntrl : Bool
  rdTmrIrqCnt : Bool
  rdTmrValuel : Bool
  rdTmrValueh : Bool
  wrTmrValuel : Bool
  wrTmrValueh : Bool
  dtack : Bool
  deriving DecidableEq

/-- The registers of the process `cntrl_reg`. -/
structure Cntrl where
  tmrCntrlReg : BitVec 16
  tmrValuelReg : BitVec 16
  tmrValuehReg : BitVec 16
  resetCnt : BitVec 2
  deriving DecidableEq

/-- The registers of the process `timer_irq`. -/
structure Timer where
  irqcnt : BitVec 33
  tmrIrqCnt : BitVec 16
  deriving DecidableEq

structure Registers where
  decoder : Decoder
  cntrl : Cntrl
  timer : Timer
  deriving DecidableEq

section
variable (baseAddr : BitVec 16)

def tmrDecoder (i : Inputs) : Decoder :=
  let hit (offset : BitVec 16) : Bool := i.extAdrVal && i.adr == baseAddr + offset
  { wrTmrCntrl := hit 0 && i.extWrActive
    rdTmrCntrl := hit 0 && i.extRdActive
    rdTmrIrqCnt := hit 1 && i.extRdActive
    rdTmrValuel := hit 2 && i.extRdActive
    rdTmrValueh := hit 3 && i.extRdActive
    wrTmrValuel := hit 2 && i.extWrActive
    wrTmrValueh := hit 3 && i.extWrActive
    dtack := (hit 0 || hit 2 || hit 3) && (i.extWrActive || i.extRdActive) || hit 1 && i.extRdActive }

/-- An edge of `cntrl_reg`. The last branch waits for a reset bit that is already gone. -/
def Cntrl.edge (c : Cntrl) (d : Decoder) (data : BitVec 16) : Cntrl :=
  if d.wrTmrCntrl then { c with tmrCntrlReg := data }
  else if d.wrTmrValuel then { c with tmrValuelReg := data }
  else if d.wrTmrValueh then { c with tmrValuehReg := data }
  else if c.tmrCntrlReg.getLsbD 0 then
    if c.resetCnt < 3 then { c with resetCnt := c.resetCnt + 1 }
    else { c with tmrCntrlReg := c.tmrCntrlReg &&& 0xFFFE, resetCnt := 0 }
  else c

def Cntrl.value (c : Cntrl) : BitVec 33 := 0#1 ++ (c.tmrValuehReg ++ c.tmrValuelReg)

def Timer.edge (t : Timer) (c : Cntrl) : Timer :=
  if t.irqcnt.msb then ⟨c.value, t.tmrIrqCnt + 1⟩
  else if c.tmrCntrlReg.getLsbD 1 then { t with irqcnt := t.irqcnt - 1 }
  else t

def Registers.settle (s : Registers) : Registers :=
  if s.cntrl.tmrCntrlReg.getLsbD 0 then { s with cntrl := ⟨0, 0, 0, 0⟩, timer := ⟨s.cntrl.value, 0⟩ } else s

/-- With `nrst` low, the counter is loaded once more, with the cleared registers. -/
def reset : Registers := ⟨⟨false, false, false, false, false, false, false, false⟩, ⟨0, 0, 0, 0⟩, ⟨0, 0⟩⟩

def clock (s : Registers) (i : Inputs) : Registers :=
  if i.nrst then
    Registers.settle ⟨tmrDecoder baseAddr i, s.cntrl.edge s.decoder i.data, s.timer.edge s.cntrl⟩
  else reset

end

section
variable (s : Registers)

def userRdActive : Bool := s.decoder.rdTmrCntrl || s.decoder.rdTmrIrqCnt

def dataToScub : BitVec 16 :=
  if s.decoder.rdTmrIrqCnt then s.timer.tmrIrqCnt
  else if s.decoder.rdTmrCntrl then s.cntrl.tmrCntrlReg
  else if s.decoder.rdTmrValuel then s.cntrl.tmrValuelReg
  else if s.decoder.rdTmrValueh then s.cntrl.tmrValuehReg
  else 0

def tmrIrq : Bool := s.timer.irqcnt.msb

end

inductive Reg where
  | cntrl | irqCnt | valuel | valueh
  deriving DecidableEq

def Reg.offset : Reg → BitVec 16
  | .cntrl => 0
  | .irqCnt => 1
  | .valuel => 2
  | .valueh => 3

def addressed (baseAddr : BitVec 16) (i : Inputs) (r : Reg) : Bool := i.extAdrVal && i.adr == baseAddr + r.offset

/-- The value registers by the accesses alone: a write takes the data of the clock behind it, and a
write of a reset bit clears both. -/
structure Written where
  wrote : Reg → Bool
  valuel : BitVec 16
  valueh : BitVec 16

def Written.none : Written := ⟨fun _ => false, 0, 0⟩

def Written.next (baseAddr : BitVec 16) (w : Written) (i : Inputs) : Written :=
  if i.nrst then
    { wrote := fun r => addressed baseAddr i r && i.extWrActive
      valuel := if w.wrote .cntrl && i.data.getLsbD 0 then 0 else if w.wrote .valuel then i.data else w.valuel
      valueh := if w.wrote .cntrl && i.data.getLsbD 0 then 0 else if w.wrote .valueh then i.data else w.valueh }
  else Written.none

def watched (baseAddr : BitVec 16) (x : Registers × Written) (i : Inputs) : Registers × Written :=
  (clock baseAddr x.1 i, x.2.next baseAddr i)

def start : Registers × Written := (reset, Written.none)

variable {baseAddr : BitVec 16} {s : Registers} {w : Written} {i : Inputs} {r other : Reg}

theorem addressed_unique (one : addressed baseAddr i r = true)
    (two : addressed baseAddr i other = true) : r = other := by
  rw [addressed, Bool.and_eq_true, beq_iff_eq] at one two
  have same := one.2.symm.trans two.2
  rw [BitVec.add_right_inj] at same
  cases r <;> cases other <;> first | rfl | exact absurd same (by decide)

theorem tmrDecoder_eq (baseAddr : BitVec 16) (i : Inputs) : tmrDecoder baseAddr i =
    { wrTmrCntrl := addressed baseAddr i .cntrl && i.extWrActive
      rdTmrCntrl := addressed baseAddr i .cntrl && i.extRdActive
      rdTmrIrqCnt := addressed baseAddr i .irqCnt && i.extRdActive
      rdTmrValuel := addressed baseAddr i .valuel && i.extRdActive
      rdTmrValueh := addressed baseAddr i .valueh && i.extRdActive
      wrTmrValuel := addressed baseAddr i .valuel && i.extWrActive
      wrTmrValueh := addressed baseAddr i .valueh && i.extWrActive
      dtack := (addressed baseAddr i .cntrl || addressed baseAddr i .valuel || addressed baseAddr i .valueh) &&
        (i.extWrActive || i.extRdActive) || addressed baseAddr i .irqCnt && i.extRdActive } := rfl

/-- The strobes are the accesses of the clock before, at most one of them is a write, and no reset
bit stays. -/
structure Follows (s : Registers) (w : Written) : Prop where
  cntrl : s.decoder.wrTmrCntrl = w.wrote .cntrl
  wroteValuel : s.decoder.wrTmrValuel = w.wrote .valuel
  wroteValueh : s.decoder.wrTmrValueh = w.wrote .valueh
  single : ∀ {r other}, w.wrote r = true → w.wrote other = true → r = other
  bit : s.cntrl.tmrCntrlReg.getLsbD 0 = false
  valuel : s.cntrl.tmrValuelReg = w.valuel
  valueh : s.cntrl.tmrValuehReg = w.valueh

theorem start_follows : Follows start.1 start.2 :=
  ⟨rfl, rfl, rfl, fun wrote => absurd wrote Bool.false_ne_true, rfl, rfl, rfl⟩

theorem clock_low (low : i.nrst = false) : clock baseAddr s i = reset := by
  rw [clock, low]
  rfl

theorem clock_high (high : i.nrst = true) : clock baseAddr s i =
    Registers.settle ⟨tmrDecoder baseAddr i, s.cntrl.edge s.decoder i.data, s.timer.edge s.cntrl⟩ := by
  rw [clock, high]
  rfl

@[simp] theorem settle_decoder (s : Registers) : s.settle.decoder = s.decoder := by
  rw [Registers.settle]
  split_ifs <;> rfl

variable {d : Decoder} {c : Cntrl} {t : Timer}

theorem settle_set (set : c.tmrCntrlReg.getLsbD 0 = true) :
    Registers.settle ⟨d, c, t⟩ = ⟨d, ⟨0, 0, 0, 0⟩, ⟨c.value, 0⟩⟩ := by
  rw [Registers.settle, if_pos set]

theorem settle_clear (clear : c.tmrCntrlReg.getLsbD 0 = false) : Registers.settle ⟨d, c, t⟩ = ⟨d, c, t⟩ := by
  rw [Registers.settle, if_neg (Bool.eq_false_iff.mp clear)]

theorem Follows.reset_next (follows : Follows s w) (high : i.nrst = true) (wrote : w.wrote .cntrl = true)
    (set : i.data.getLsbD 0 = true) : clock baseAddr s i = ⟨tmrDecoder baseAddr i, ⟨0, 0, 0, 0⟩,
      ⟨s.cntrl.value, 0⟩⟩ := by
  rw [clock_high high, Cntrl.edge, follows.cntrl, if_pos wrote, settle_set]
  · rfl
  · exact set

theorem Follows.plain_next (follows : Follows s w) (high : i.nrst = true)
    (clear : w.wrote .cntrl = true → i.data.getLsbD 0 = false) : clock baseAddr s i =
      ⟨tmrDecoder baseAddr i,
        { tmrCntrlReg := if w.wrote .cntrl then i.data else s.cntrl.tmrCntrlReg
          tmrValuelReg := if w.wrote .valuel then i.data else s.cntrl.tmrValuelReg
          tmrValuehReg := if w.wrote .valueh then i.data else s.cntrl.tmrValuehReg
          resetCnt := s.cntrl.resetCnt },
        s.timer.edge s.cntrl⟩ := by
  have apart {r other : Reg} (one : w.wrote r = true) (differ : r ≠ other) : w.wrote other = false :=
    Bool.eq_false_iff.mpr fun two => differ (follows.single one two)
  rw [clock_high high, Cntrl.edge, follows.cntrl, follows.wroteValuel, follows.wroteValueh, follows.bit]
  cases cntrl : w.wrote .cntrl with
  | true =>
    rw [if_pos rfl, settle_clear (show _ = false from clear cntrl), apart cntrl (by decide), apart cntrl (by decide)]
    rfl
  | false =>
    cases valuel : w.wrote .valuel with
    | true =>
      rw [apart valuel (by decide)]
      exact settle_clear follows.bit
    | false =>
      cases w.wrote .valueh with
      | true => exact settle_clear follows.bit
      | false => exact settle_clear follows.bit

theorem decoder_next (high : i.nrst = true) : (clock baseAddr s i).decoder = tmrDecoder baseAddr i := by
  rw [clock_high high, settle_decoder]

theorem Follows.next (follows : Follows s w) (baseAddr : BitVec 16) (i : Inputs) :
    Follows (clock baseAddr s i) (w.next baseAddr i) := by
  cases high : i.nrst with
  | false =>
    rw [clock_low high, Written.next, high]
    exact start_follows
  | true =>
    have single : ∀ {r other}, (addressed baseAddr i r && i.extWrActive) = true →
        (addressed baseAddr i other && i.extWrActive) = true → r = other := by
      intro r other one two
      rw [Bool.and_eq_true] at one two
      exact addressed_unique one.1 two.1
    rw [Written.next, if_pos high]
    by_cases reset : w.wrote .cntrl = true ∧ i.data.getLsbD 0 = true
    · rw [follows.reset_next high reset.1 reset.2, reset.1, reset.2]
      exact ⟨rfl, rfl, rfl, single, BitVec.getLsbD_zero, rfl, rfl⟩
    · have clear : w.wrote .cntrl = true → i.data.getLsbD 0 = false :=
        fun wrote => Bool.eq_false_iff.mpr fun set => reset ⟨wrote, set⟩
      have none : (w.wrote .cntrl && i.data.getLsbD 0) = false := by
        rw [← Bool.not_eq_true, Bool.and_eq_true]
        exact reset
      rw [follows.plain_next high clear, none]
      refine ⟨rfl, rfl, rfl, single, ?_, ?_, ?_⟩
      · dsimp only
        split_ifs with wrote
        · exact clear wrote
        · exact follows.bit
      · dsimp only
        rw [if_neg Bool.false_ne_true, follows.valuel]
      · dsimp only
        rw [if_neg Bool.false_ne_true, follows.valueh]

theorem run_follows (baseAddr : BitVec 16) (inputs : List Inputs) :
    Follows (inputs.foldl (watched baseAddr) start).1 (inputs.foldl (watched baseAddr) start).2 := by
  induction inputs using List.reverseRecOn with
  | nil => exact start_follows
  | append_singleton inputs i ih =>
    rw [List.foldl_append]
    exact ih.next baseAddr i

end BelProject.Tmr.TmrScuBus
