import BelProject.Tmr.TmrScuBus

/-! The registers of the timer on the bus. An access is decoded, a register written and the data
selected in four places, and the enable of the read data is a fifth one, in which the value
registers are missing. -/

namespace BelProject.Tmr.Registers
open TmrScuBus Library.Runs

variable {baseAddr : BitVec 16} {s : TmrScuBus.Registers} {w : Written} {i : Inputs} {r other : Reg}

def content (s : TmrScuBus.Registers) : Reg → BitVec 16
  | .cntrl => s.cntrl.tmrCntrlReg
  | .irqCnt => s.timer.tmrIrqCnt
  | .valuel => s.cntrl.tmrValuelReg
  | .valueh => s.cntrl.tmrValuehReg

/-- What a read is to give: for a value register what was written to it last. -/
def current (s : TmrScuBus.Registers) (w : Written) : Reg → BitVec 16
  | .cntrl => s.cntrl.tmrCntrlReg
  | .irqCnt => s.timer.tmrIrqCnt
  | .valuel => w.valuel
  | .valueh => w.valueh

/-- The same registers, but for a write that is under way. -/
def unwritten (s : TmrScuBus.Registers) : TmrScuBus.Registers :=
  { s with decoder := { s.decoder with wrTmrCntrl := false, wrTmrValuel := false, wrTmrValueh := false } }

/-- A clock in which each read that is acknowledged gets its data, and a write changes no other
register. -/
structure Proper (baseAddr : BitVec 16) (s : TmrScuBus.Registers) (w : Written) (i : Inputs) : Prop where
  answered : ∀ r, addressed baseAddr i r = true → i.extRdActive = true → (clock baseAddr s i).decoder.dtack = true →
    userRdActive (clock baseAddr s i) = true ∧ dataToScub (clock baseAddr s i) =
      current (clock baseAddr s i) (w.next baseAddr i) r
  isolated : ∀ r other, w.wrote r = true → r ≠ other → i.nrst = true → (r = .cntrl → i.data.getLsbD 0 = false) →
    content (clock baseAddr s i) other = content (clock baseAddr (unwritten s) i) other

theorem addressed_other (here : addressed baseAddr i r = true) (differ : r ≠ other) :
    addressed baseAddr i other = false :=
  Bool.eq_false_iff.mpr fun there => differ (addressed_unique here there)

theorem dtack_low (low : i.nrst = false) : (clock baseAddr s i).decoder.dtack = false := by
  rw [clock_low low]
  rfl

theorem dtack_read (high : i.nrst = true) (here : addressed baseAddr i r = true) (reads : i.extRdActive = true) :
    (clock baseAddr s i).decoder.dtack = true := by
  rw [decoder_next high, tmrDecoder_eq, reads]
  cases r with
  | cntrl => simp [here]
  | irqCnt => simp [here]
  | valuel => simp [here]
  | valueh => simp [here]

theorem data_read (follows : Follows s w) (high : i.nrst = true) (here : addressed baseAddr i r = true)
    (reads : i.extRdActive = true) :
    dataToScub (clock baseAddr s i) = current (clock baseAddr s i) (w.next baseAddr i) r := by
  have next := follows.next baseAddr i
  have none {other : Reg} (differ : r ≠ other) : (addressed baseAddr i other && i.extRdActive) = false := by
    rw [addressed_other here differ, Bool.false_and]
  have strobe : (addressed baseAddr i r && i.extRdActive) = true := by
    rw [here, reads]
    rfl
  rw [dataToScub, decoder_next high, tmrDecoder_eq]
  dsimp only
  cases r with
  | cntrl =>
    rw [none (by decide), strobe]
    rfl
  | irqCnt =>
    rw [strobe]
    rfl
  | valuel =>
    rw [none (by decide), none (by decide), strobe]
    exact next.valuel
  | valueh =>
    rw [none (by decide), none (by decide), none (by decide), strobe]
    exact next.valueh

theorem enable_read (high : i.nrst = true) (here : addressed baseAddr i r = true) (reads : i.extRdActive = true) :
    userRdActive (clock baseAddr s i) = true ↔ r = .cntrl ∨ r = .irqCnt := by
  rw [userRdActive, decoder_next high, tmrDecoder_eq]
  dsimp only
  rw [reads, Bool.and_true, Bool.and_true, Bool.or_eq_true]
  constructor
  · rintro (there | there)
    · exact .inl (addressed_unique here there)
    · exact .inr (addressed_unique here there)
  · rintro (rfl | rfl)
    · exact .inl here
    · exact .inr here

theorem unwritten_follows (follows : Follows s w) : Follows (unwritten s) { w with wrote := fun _ => false } :=
  ⟨rfl, rfl, rfl, fun one => absurd one Bool.false_ne_true, follows.bit, follows.valuel, follows.valueh⟩

theorem write_isolated (follows : Follows s w) (wrote : w.wrote r = true) (differ : r ≠ other) (high : i.nrst = true)
    (clear : r = .cntrl → i.data.getLsbD 0 = false) :
    content (clock baseAddr s i) other = content (clock baseAddr (unwritten s) i) other := by
  have none : w.wrote other = false := Bool.eq_false_iff.mpr fun two => differ (follows.single wrote two)
  rw [follows.plain_next high fun cntrl => clear (follows.single wrote cntrl),
    (unwritten_follows follows).plain_next high fun cntrl => absurd cntrl Bool.false_ne_true]
  cases other with
  | cntrl =>
    rw [content, none]
    rfl
  | irqCnt => rfl
  | valuel =>
    rw [content, none]
    rfl
  | valueh =>
    rw [content, none]
    rfl

def Avoids (baseAddr : BitVec 16) (i : Inputs) : Prop :=
  i.nrst = true → i.extRdActive = true → addressed baseAddr i .valuel = false ∧ addressed baseAddr i .valueh = false

theorem proper_step (follows : Follows s w) : Proper baseAddr s w i ↔ Avoids baseAddr i := by
  constructor
  · intro proper high reads
    have missing {r : Reg} (value : ¬ (r = .cntrl ∨ r = .irqCnt)) : addressed baseAddr i r = false := by
      by_contra here
      rw [Bool.not_eq_false] at here
      exact value ((enable_read high here reads).mp (proper.answered r here reads (dtack_read high here reads)).1)
    exact ⟨missing (by decide), missing (by decide)⟩
  · intro avoids
    refine ⟨fun r here reads dtack => ?_, fun r other wrote differ high clear =>
      write_isolated follows wrote differ high clear⟩
    cases high : i.nrst with
    | false => exact absurd ((dtack_low high).symm.trans dtack) Bool.false_ne_true
    | true =>
      obtain ⟨valuel, valueh⟩ := avoids high reads
      refine ⟨(enable_read high here reads).mpr ?_, data_read follows high here reads⟩
      cases r with
      | cntrl => exact .inl rfl
      | irqCnt => exact .inr rfl
      | valuel => exact absurd (valuel.symm.trans here) Bool.false_ne_true
      | valueh => exact absurd (valueh.symm.trans here) Bool.false_ne_true

/-- In every run the registers are proper exactly if no value register is read. -/
theorem registers_proper_iff (baseAddr : BitVec 16) (inputs : List Inputs) :
    Along (watched baseAddr) (fun x i => Proper baseAddr x.1 x.2 i) start inputs ↔ ∀ i ∈ inputs, Avoids baseAddr i := by
  rw [← show Along (watched baseAddr) (fun _ i => Avoids baseAddr i) start inputs ↔ _ from along_inputs]
  apply (along_true (watched baseAddr) start inputs).congr (fun x => Follows x.1 x.2) start_follows
  · exact fun follows _ => proper_step follows
  · exact fun follows _ _ => follows.next baseAddr _

/-- A read of the low value register, which is acknowledged without its data. -/
theorem value_unanswered :
    ¬ Along (watched 0x330) (fun x i => Proper 0x330 x.1 x.2 i) start [⟨0x332, 0, true, true, false, true⟩] := by
  rintro ⟨proper, _⟩
  exact absurd (proper.answered .valuel (by decide) rfl (by decide)).1 (by decide)

end BelProject.Tmr.Registers
