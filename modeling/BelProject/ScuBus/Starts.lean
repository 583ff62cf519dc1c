import Mathlib.Tactic.Common
import BelProject.Library.Runs
import BelProject.ScuBus.Master

/-! Start requests. The Wishbone side comes back four clocks after it has taken the end of an
access, and the machine of the SCU bus has to be idle again by then. -/

namespace BelProject.ScuBus.Starts
open Master
open BelProject.Library.Runs (Along)

/-- `S_Start_SCUB_Rd` or `S_Start_SCUB_Wr`. -/
def requested (r : Registers) : Bool := r.startRd || r.startWr

/-- A start request meets an idle machine, which begins the cycle. -/
structure Performed (r : Registers) : Prop where
  meets : requested r = true → r.sm = .idle
  begins : requested r = true → smNext r = .sRdCyc ∨ smNext r = .sWrCyc

def releasing (cnt : Int) : Int := max cnt (-1) + 2

def afterData (r : Registers) : Option Int :=
  match smNext r with
  | .eRdCyc | .eWrCyc => some (releasing r.releaseCnt + 2)
  | .toRdCyc | .toWrCyc => some (releasing r.releaseCnt + 3)
  | _ => none

def clocksLeft (r : Registers) : Option Int :=
  match r.sm with
  | .idle => if requested r then none else some 0
  | .fRdCyc | .fWrCyc => some 1
  | .eRdCyc | .eWrCyc => some (releasing r.releaseCnt + 1)
  | .toRdCyc | .toWrCyc => some (releasing r.releaseCnt + 2)
  | .rdCyc | .wrCyc => afterData r
  | .sRdCyc | .sWrCyc => none

/-- The machine is idle after n clocks, whatever comes. -/
def Settles (r : Registers) (n : Int) : Prop := ∃ left, clocksLeft r = some left ∧ left ≤ n

/-- An end of the access is there for the Wishbone side to take. -/
def answered (r : Registers) : Bool := r.wbState == .extStall && (r.rdErr || r.wrErr || r.extAck)

/-- The end of an access is taken when the machine needs four clocks at most. -/
def InTime (r : Registers) (_ : Inputs) : Prop := answered r = true → Settles r 4

/-- How far the machine is when the Wishbone side is in one of its states. -/
def Coupled (r : Registers) : Prop :=
  match r.wbState with
  | .idle => Settles r 2
  | .cycStart => Settles r 1
  | .extStall => requested r = true → r.sm = .idle
  | .intAcc | .extErr | .extAcc | .invalidSlave => Settles r 3

variable {g : Generics} {r : Registers} {i : Inputs} {n m : Int}

theorem Settles.mono (settles : Settles r n) (less : n ≤ m) : Settles r m := by
  obtain ⟨left, known, bound⟩ := settles
  exact ⟨left, known, bound.trans less⟩

theorem releasing_count (cnt : Int) : releasing (countDown cnt) = if high cnt then 1 else releasing cnt - 1 := by
  unfold countDown releasing high
  by_cases low : cnt < 0
  · simp only [low, decide_true, if_true]
    omega
  · simp only [low, decide_false, Bool.false_eq_true, if_false]
    omega

theorem clocksLeft_clock {left : Int} (known : clocksLeft r = some left) (still : requested (clock g r i) = false) :
    clocksLeft (clock g r i) = some (max (left - 1) 0) := by
  have sm : (clock g r i).sm = smNext r := rfl
  have count := releaseCnt_clock g r i
  have positive : 1 ≤ releasing r.releaseCnt := by unfold releasing; omega
  -- Where the machine goes decides what is left.
  have toIdle : smNext r = .idle → clocksLeft (clock g r i) = some 0 := by
    intro next
    rw [clocksLeft, sm, next]
    simp only [still, Bool.false_eq_true, if_false]
  have toRelease : smNext r = .eRdCyc ∨ smNext r = .eWrCyc →
      clocksLeft (clock g r i) = some (releasing (clock g r i).releaseCnt + 1) := by
    rintro (next | next)
    · rw [clocksLeft, sm, next]
    · rw [clocksLeft, sm, next]
  have toTimeOut : smNext r = .toRdCyc ∨ smNext r = .toWrCyc →
      clocksLeft (clock g r i) = some (releasing (clock g r i).releaseCnt + 2) := by
    rintro (next | next)
    · rw [clocksLeft, sm, next]
    · rw [clocksLeft, sm, next]
  have release : r.sm = .eRdCyc ∨ r.sm = .eWrCyc → clocksLeft (clock g r i) = some (releasing r.releaseCnt) := by
    intro state
    by_cases last : high r.releaseCnt = true
    · have none : releasing r.releaseCnt = 1 := by
        rw [high, decide_eq_true_iff] at last
        unfold releasing
        omega
      rcases state with state | state
      · have next : smNext r = .fRdCyc := by rw [smNext, state]; exact if_pos last
        rw [clocksLeft, sm, next, none]
      · have next : smNext r = .fWrCyc := by rw [smNext, state]; exact if_pos last
        rw [clocksLeft, sm, next, none]
    · have fewer : releasing (clock g r i).releaseCnt = releasing r.releaseCnt - 1 := by
        have counts : (clock g r i).releaseCnt = countDown r.releaseCnt := by
          rcases state with state | state
          · rw [count, state]
          · rw [count, state]
        rw [counts, releasing_count, if_neg last]
      rw [toRelease, fewer, Int.sub_add_cancel]
      rcases state with state | state
      · left
        rw [smNext, state]
        exact if_neg last
      · right
        rw [smNext, state]
        exact if_neg last
  have data : r.sm = .rdCyc ∨ r.sm = .wrCyc → afterData r = some left →
    clocksLeft (clock g r i) = some (max (left - 1) 0) := by
    intro state ends
    have same : (clock g r i).releaseCnt = r.releaseCnt := by
      rcases state with state | state
      · rw [count, state]
      · rw [count, state]
    unfold afterData at ends
    split at ends
    · rename_i next
      cases ends
      rw [toRelease (Or.inl next), same]
      congr 1
      omega
    · rename_i next
      cases ends
      rw [toRelease (Or.inr next), same]
      congr 1
      omega
    · rename_i next
      cases ends
      rw [toTimeOut (Or.inl next), same]
      congr 1
      omega
    · rename_i next
      cases ends
      rw [toTimeOut (Or.inr next), same]
      congr 1
      omega
    · cases ends
  unfold clocksLeft at known
  cases state : r.sm with
  | idle =>
    rw [state] at known
    have quiet : requested r = false := by
      cases asks : requested r with
      | false => rfl
      | true => simp [asks] at known
    have none : left = 0 := by
      simp only [quiet, Bool.false_eq_true, if_false, Option.some.injEq] at known
      exact known.symm
    subst none
    rw [requested, Bool.or_eq_false_iff] at quiet
    rw [toIdle (by rw [smNext, state]; simp [quiet.1, quiet.2])]
    rfl
  | fRdCyc =>
    rw [state] at known
    cases known
    rw [toIdle (by rw [smNext, state])]
    rfl
  | fWrCyc =>
    rw [state] at known
    cases known
    rw [toIdle (by rw [smNext, state])]
    rfl
  | eRdCyc =>
    rw [state] at known
    cases known
    rw [release (Or.inl state)]
    congr 1
    omega
  | eWrCyc =>
    rw [state] at known
    cases known
    rw [release (Or.inr state)]
    congr 1
    omega
  | toRdCyc =>
    rw [state] at known
    cases known
    rw [toRelease (Or.inl (by rw [smNext, state])), count, state]
    congr 1
    simp only
    omega
  | toWrCyc =>
    rw [state] at known
    cases known
    rw [toRelease (Or.inr (by rw [smNext, state])), count, state]
    congr 1
    simp only
    omega
  | rdCyc => exact data (Or.inl state) (by rw [state] at known; exact known)
  | wrCyc => exact data (Or.inr state) (by rw [state] at known; exact known)
  | sRdCyc => rw [state] at known; cases known
  | sWrCyc => rw [state] at known; cases known

theorem Settles.step (settles : Settles r (n + 1)) (positive : 0 ≤ n) (still : requested (clock g r i) = false) :
    Settles (clock g r i) n := by
  obtain ⟨left, known, bound⟩ := settles
  exact ⟨_, clocksLeft_clock known still, by omega⟩

theorem Settles.idle (settles : Settles r 1) : smNext r = .idle := by
  obtain ⟨left, known, bound⟩ := settles
  have positive : 1 ≤ releasing r.releaseCnt := by unfold releasing; omega
  unfold clocksLeft afterData at known
  cases state : r.sm with
  | idle =>
    have quiet : requested r = false := by
      cases asks : requested r with
      | false => rfl
      | true => simp [state, asks] at known
    rw [requested, Bool.or_eq_false_iff] at quiet
    rw [smNext, state]
    simp [quiet.1, quiet.2]
  | fRdCyc => rw [smNext, state]
  | fWrCyc => rw [smNext, state]
  | rdCyc =>
    rw [state] at known
    simp only at known
    split at known
    all_goals
      cases known
      try omega
  | wrCyc =>
    rw [state] at known
    simp only at known
    split at known
    all_goals
      cases known
      try omega
  | sRdCyc => rw [state] at known; cases known
  | sWrCyc => rw [state] at known; cases known
  | _ =>
    rw [state] at known
    cases known
    omega

theorem requested_clock : requested (clock g r i) = (raisesRd r i || raisesWr r i) := rfl

theorem quiet_clock (other : r.wbState ≠ .cycStart) : requested (clock g r i) = false := by
  have no : (r.wbState == .cycStart) = false := beq_eq_false_iff_ne.mpr other
  rw [requested_clock, raisesRd, raisesWr, no]
  rfl

theorem start_coupled (junk : Junk) : Coupled (start g junk) := ⟨0, rfl, by decide⟩

theorem cycStart_next (state : r.wbState = .cycStart) :
    (clock g r i).wbState = .extStall ∨
      (requested (clock g r i) = false ∧
        ((clock g r i).wbState = .intAcc ∨ (clock g r i).wbState = .extErr ∨ (clock g r i).wbState =
          .invalidSlave)) := by
  have next : (clock g r i).wbState = wbNext r i := rfl
  have here : (r.wbState == .cycStart) = true := by rw [state]; rfl
  rw [next, requested_clock, raisesRd, raisesWr, here, wbNext, state]
  by_cases own : r.slaveNr = 0
  · right
    rw [own]
    simp [external, multicast]
  · rw [if_neg own]
    cases external r.slaveNr with
    | true => simp
    | false =>
      cases multicast r.slaveNr with
      | true => cases i.we <;> simp
      | false => simp

theorem Coupled.step (coupled : Coupled r) (inTime : InTime r i) : Coupled (clock g r i) := by
  unfold Coupled at coupled
  cases state : r.wbState with
  | idle =>
    rw [state] at coupled
    have settles := Settles.step (n := 1) (i := i) coupled (by decide)
      (quiet_clock (g := g) (by rw [state]; exact WbCtrl.noConfusion))
    have next : (clock g r i).wbState = if i.cyc && i.stb then .cycStart else .idle := by
      show wbNext r i = _
      rw [wbNext, state]
    unfold Coupled
    rw [next]
    cases i.cyc && i.stb with
    | true => exact settles
    | false => exact settles.mono (by decide)
  | cycStart =>
    rw [state] at coupled
    rcases cycStart_next (g := g) (i := i) state with next | ⟨still, next⟩
    · unfold Coupled
      rw [next]
      exact fun _ => Settles.idle coupled
    · have settles := (Settles.step (n := 0) coupled (by decide) still).mono (m := 3) (by decide)
      unfold Coupled
      rcases next with next | next | next
      · rw [next]
        exact settles
      · rw [next]
        exact settles
      · rw [next]
        exact settles
  | extStall =>
    have still := quiet_clock (g := g) (i := i) (r := r) (by rw [state]; exact WbCtrl.noConfusion)
    have next : (clock g r i).wbState = if r.rdErr || r.wrErr then .extErr else if r.extAck then .extAcc
      else .extStall := by
      show wbNext r i = _
      rw [wbNext, state]
    unfold Coupled
    cases ends : answered r with
    | true =>
      have settles := Settles.step (n := 3) (i := i) (inTime ends) (by decide) still
      rw [answered, state] at ends
      rw [next]
      cases error : r.rdErr || r.wrErr with
      | true => exact settles
      | false =>
        rw [error] at ends
        rw [show r.extAck = true from ends]
        exact settles
    | false =>
      rw [answered, state] at ends
      have none : (r.rdErr || r.wrErr || r.extAck) = false := ends
      rw [Bool.or_eq_false_iff] at none
      rw [next, none.1, none.2]
      exact fun asks => absurd (still.symm.trans asks) Bool.false_ne_true
  | _ =>
    rw [state] at coupled
    have settles := Settles.step (n := 2) (i := i) coupled (by decide)
      (quiet_clock (g := g) (by rw [state]; exact WbCtrl.noConfusion))
    have next : (clock g r i).wbState = .idle := by
      show wbNext r i = _
      rw [wbNext, state]
    unfold Coupled
    rw [next]
    exact settles

theorem Coupled.performed (coupled : Coupled r) (stalls : requested r = true → r.wbState = .extStall) :
    Performed r := by
  have meets : requested r = true → r.sm = .idle := by
    intro asks
    unfold Coupled at coupled
    rw [stalls asks] at coupled
    exact coupled asks
  refine ⟨meets, fun asks => ?_⟩
  rw [smNext, meets asks]
  rw [requested, Bool.or_eq_true] at asks
  cases read : r.startRd with
  | true => exact Or.inl rfl
  | false =>
    rw [read] at asks
    have write : r.startWr = true := asks.resolve_left Bool.false_ne_true
    rw [write]
    exact Or.inr rfl

theorem stalls_clock (asks : requested (clock g r i) = true) : (clock g r i).wbState = .extStall := by
  have here : r.wbState = .cycStart := by
    by_contra other
    rw [quiet_clock other] at asks
    cases asks
  rcases cycStart_next (g := g) (i := i) here with next | ⟨still, _⟩
  · exact next
  · rw [still] at asks
    cases asks

theorem Coupled.run {inputs : List Inputs} (coupled : Coupled r) (stalls : requested r = true → r.wbState = .extStall)
    (along : Along (clock g) InTime r inputs) :
    Coupled (run g r inputs) ∧ (requested (run g r inputs) = true → (run g r inputs).wbState = .extStall) := by
  refine along.invariant (fun r => Coupled r ∧ (requested r = true → r.wbState = .extStall)) ⟨coupled, stalls⟩ ?_
  rintro r i ⟨coupled, _⟩ inTime
  exact ⟨coupled.step inTime, stalls_clock⟩

/-- In a run in which the Wishbone side takes every end of an access when the machine needs four
clocks at most, no start request is lost. -/
theorem run_performed (g : Generics) (junk : Junk) (inputs : List Inputs)
    (along : Along (clock g) InTime (start g junk) inputs) :
    Performed (run g (start g junk) inputs) := by
  obtain ⟨coupled, stalls⟩ := (start_coupled (g := g) junk).run (fun asks => by cases asks) along
  exact coupled.performed stalls

instance (r : Registers) (n : Int) : Decidable (Settles r n) :=
  decidable_of_iff (∃ left ∈ clocksLeft r, left ≤ n) Iff.rfl

instance (r : Registers) (i : Inputs) : Decidable (InTime r i) :=
  inferInstanceAs (Decidable (answered r = true → Settles r 4))

def defaults : Generics := ⟨setGe1 30 10000, setGe1 30 10000, setGe1 30 10000, setGe1 350 10000, setGe1 200 10000⟩

def junk : Junk := ⟨0, 0, 0, 0, 0, true, true, false, 0, 0, 0⟩

/-- A host that writes to slave 1 again and again. -/
def writes (nDtack : Bool) : Inputs := ⟨true, true, true, 0x20020, 7, 15, nDtack, 0, 0, 0, false⟩

/-- The slave gives `dtack` to the first write. -/
def prompt : List Inputs := List.replicate 12 (writes true) ++ List.replicate 5
    (writes false) ++ List.replicate 10 (writes true)

theorem run_performed_prompt : Performed (run defaults (start defaults junk) prompt) :=
  run_performed defaults junk prompt (by decide +kernel)

def late : List Inputs := List.replicate 48 (writes true) ++ List.replicate 2
    (writes false) ++ List.replicate 6 (writes true)

theorem start_lost : ¬∀ inputs : List Inputs, Performed (run defaults (start defaults junk) inputs) := by
  intro all
  have asks : requested (run defaults (start defaults junk) late) = true := by decide +kernel
  have other : (run defaults (start defaults junk) late).sm ≠ .idle := by decide +kernel
  exact other ((all late).meets asks)

end BelProject.ScuBus.Starts
