import BelProject.AuxFunctions.DivN
import BelProject.MilScu.EventPath

/-! `ev_puls1`, `ev_puls2` and `ev_timer_res`: they follow the output of the filter RAM as long as
an event is there, and in the clocks before the event is served that is the entry the host's address
lines show. -/

namespace BelProject.MilScu.EventPulses
open EventPath Library.Runs

structure Inputs where
  path : EventPath.Inputs
  evResetOn : Bool
  puls1Frame : Bool
  puls2Frame : Bool

/-- A pulse with the counter of its length; below zero the counter has underflowed. -/
structure Pulse where
  puls : Bool
  div : Int
  deriving DecidableEq

/-- `c_load_val` of `div_n`, for 500 ns. -/
def loadVal (hz : Nat) : Int := hz / (1000000000 / 500) - 2

section
variable (hz : Nat) (p : Pulse) (frame starts ends : Bool)

/-- `div_o`. -/
def Pulse.over : Bool := decide (p.div < 0)

def pulsNext : Bool :=
  if starts then true
  else if p.puls then (if frame then !ends else !p.over)
  else false

/-- `div_n`: it counts outside of a frame, and without a pulse it is loaded at once. -/
def divNext : Int :=
  if !pulsNext p frame starts ends then loadVal hz
  else AuxFunctions.DivN.count (loadVal hz) (p.puls && !frame) p.div

def Pulse.clock : Pulse := ⟨pulsNext p frame starts ends, divNext hz p frame starts ends⟩

end

structure Outputs where
  puls1 : Pulse
  puls2 : Pulse
  evTimerRes : Bool
  deriving DecidableEq

section
variable (hz : Nat) (o : Outputs) (i : Inputs) (received : Bool) (entry : BitVec 6)

def acts (bit : Nat) : Bool := received && i.path.evFiltOn && entry.getLsbD bit

/-- `p_puls1`. -/
def puls1Next : Pulse := o.puls1.clock hz i.puls1Frame (acts i received entry 2) (acts i received entry 3)

/-- `p_puls2`. -/
def puls2Next : Pulse := o.puls2.clock hz i.puls2Frame (acts i received entry 4) (acts i received entry 5)

/-- `p_ev_timer_res`. -/
def evTimerResNext : Bool := acts i received entry 1 && i.evResetOn

def Outputs.clock : Outputs :=
  ⟨puls1Next hz o i received entry, puls2Next hz o i received entry, evTimerResNext i received entry⟩

end

/-- The outputs of the code, and beside them those that each event gives with its own filter entry
in the clock in which it is served. -/
structure World where
  path : EventPath.World
  outputs : Outputs
  own : Outputs

section
variable (hz : Nat) (w : World) (i : Inputs)

def step : World where
  path := EventPath.step hz w.path i.path
  outputs := w.outputs.clock hz i (timingReceived w.path.regs) w.path.regs.ep.filtDataO
  own := w.own.clock hz i w.path.regs.ep.eventFin (w.path.regs.ep.ram (eventAddr (eventD w.path.regs)))

/-- What is to be seen outside. -/
structure Agree : Prop where
  puls1 : w.outputs.puls1.puls = w.own.puls1.puls
  puls2 : w.outputs.puls2.puls = w.own.puls2.puls
  evTimerRes : w.outputs.evTimerRes = w.own.evTimerRes

/-- A start changes nothing where the pulse is on and goes on, and an end nothing outside of a frame
pulse. -/
def Pulse.Unmoved (p : Pulse) (frame starts ends : Bool) : Prop :=
  (starts = true → p.puls = true ∧ (frame = true ∨ p.over = false)) ∧
    (starts = false → ends = true → p.puls = true → frame = false)

/-- What the RAM shows while an event waits changes nothing. -/
structure Harmless : Prop where
  puls1 : w.outputs.puls1.Unmoved i.puls1Frame (acts i true w.path.regs.ep.filtDataO 2)
    (acts i true w.path.regs.ep.filtDataO 3)
  puls2 : w.outputs.puls2.Unmoved i.puls2Frame (acts i true w.path.regs.ep.filtDataO 4)
    (acts i true w.path.regs.ep.filtDataO 5)
  evTimerRes : (acts i true w.path.regs.ep.filtDataO 1 && i.evResetOn) = false

/-- An event is there that is not served in this clock. -/
def Waits : Prop := timingReceived w.path.regs = true ∧ w.path.regs.ep.eventFin = false

end

def start (hz : Nat) (junk : Mil.Decoder.Registers) (line rdMil : Bool) (ram : EventProcessing.Ram)
    (filtDataO : BitVec 6)
    (outputs : Outputs) : World :=
  ⟨EventPath.start hz junk line rdMil ram filtDataO, outputs, outputs⟩

variable {hz : Nat} {w : World} {i : Inputs}

theorem unmoved_iff (p : Pulse) (frame starts ends : Bool) :
    pulsNext p frame starts ends = pulsNext p frame false false ↔ p.Unmoved frame starts ends := by
  unfold pulsNext Pulse.Unmoved
  cases starts <;> cases ends <;> cases frame <;> cases p.puls <;> cases p.over <;> decide

theorem clock_congr (p : Pulse) {frame starts ends starts' ends' : Bool}
    (seen : pulsNext p frame starts ends = pulsNext p frame starts' ends') :
    p.clock hz frame starts ends = p.clock hz frame starts' ends' := by
  rw [Pulse.clock, Pulse.clock, divNext, divNext, seen]

/-- An event that is served is still there. -/
structure Heard (w : World) : Prop where
  serving : Serving w.path
  there : w.path.regs.ep.sm = .evRdFin → timingReceived w.path.regs = true

theorem Heard.step (heard : Heard w) (spaced : Spaced w.path) : Heard (step hz w i) where
  serving := heard.serving.step spaced
  there := by
    intro fin
    have sm : w.path.regs.ep.sm = .evRd := (smNext_fin w.path.regs.ep (epInputs w.path.regs i.path)).mp fin
    have event : w.path.regs.dec.isCmdMemory = true := by
      by_contra none
      exact (heard.serving.rests (Bool.eq_false_of_not_eq_true none)).1 sm
    apply heard.serving.waits event
    rw [heard.serving.fin, sm]
    rfl

theorem outputs_puls1 : (step hz w i).outputs.puls1.puls =
    pulsNext w.outputs.puls1 i.puls1Frame (acts i (timingReceived w.path.regs) w.path.regs.ep.filtDataO 2)
      (acts i (timingReceived w.path.regs) w.path.regs.ep.filtDataO 3) := rfl

theorem own_puls1 : (step hz w i).own.puls1.puls =
    pulsNext w.own.puls1 i.puls1Frame (acts i w.path.regs.ep.eventFin
      (w.path.regs.ep.ram (eventAddr (eventD w.path.regs))) 2)
      (acts i w.path.regs.ep.eventFin (w.path.regs.ep.ram (eventAddr (eventD w.path.regs))) 3) := rfl

theorem outputs_puls2 : (step hz w i).outputs.puls2.puls =
    pulsNext w.outputs.puls2 i.puls2Frame (acts i (timingReceived w.path.regs) w.path.regs.ep.filtDataO 4)
      (acts i (timingReceived w.path.regs) w.path.regs.ep.filtDataO 5) := rfl

theorem own_puls2 : (step hz w i).own.puls2.puls =
    pulsNext w.own.puls2 i.puls2Frame (acts i w.path.regs.ep.eventFin
      (w.path.regs.ep.ram (eventAddr (eventD w.path.regs))) 4)
      (acts i w.path.regs.ep.eventFin (w.path.regs.ep.ram (eventAddr (eventD w.path.regs))) 5) := rfl

theorem agree_of_clock (next : (step hz w i).outputs = (step hz w i).own) : Agree (step hz w i) :=
  ⟨by rw [next], by rw [next], by rw [next]⟩

theorem agree_iff (heard : Heard w) (same : w.outputs = w.own) : Agree (step hz w i) ↔ (Waits w → Harmless w i) := by
  cases fin : w.path.regs.ep.eventFin with
  | true =>
    have sm := heard.serving.fin_iff.mp fin
    refine iff_of_true (agree_of_clock ?_) fun waits => absurd (waits.2.symm.trans fin) Bool.noConfusion
    change w.outputs.clock hz i _ _ = w.own.clock hz i _ _
    rw [same, heard.there sm, heard.serving.shows sm, fin]
  | false =>
    cases there : timingReceived w.path.regs with
    | false =>
      refine iff_of_true (agree_of_clock ?_) fun waits => absurd (there.symm.trans waits.1) Bool.noConfusion
      change w.outputs.clock hz i _ _ = w.own.clock hz i _ _
      rw [same, there, fin]
      rfl
    | true =>
      have waits : Waits w := ⟨there, fin⟩
      have puls1 : (step hz w i).outputs.puls1.puls = (step hz w i).own.puls1.puls ↔
          w.outputs.puls1.Unmoved i.puls1Frame (acts i true w.path.regs.ep.filtDataO 2)
            (acts i true w.path.regs.ep.filtDataO 3) := by
        rw [← unmoved_iff, outputs_puls1, own_puls1, there, fin, ← same]
        rfl
      have puls2 : (step hz w i).outputs.puls2.puls = (step hz w i).own.puls2.puls ↔
          w.outputs.puls2.Unmoved i.puls2Frame (acts i true w.path.regs.ep.filtDataO 4)
            (acts i true w.path.regs.ep.filtDataO 5) := by
        rw [← unmoved_iff, outputs_puls2, own_puls2, there, fin, ← same]
        rfl
      have timer : (step hz w i).outputs.evTimerRes = (step hz w i).own.evTimerRes ↔
          (acts i true w.path.regs.ep.filtDataO 1 && i.evResetOn) = false := by
        change (acts i (timingReceived w.path.regs) _ 1 && i.evResetOn) =
          (acts i w.path.regs.ep.eventFin _ 1 && i.evResetOn) ↔ _
        rw [there, fin]
        rfl
      constructor
      · exact fun agree _ => ⟨puls1.mp agree.puls1, puls2.mp agree.puls2, timer.mp agree.evTimerRes⟩
      · intro harmless
        exact ⟨puls1.mpr (harmless waits).puls1, puls2.mpr (harmless waits).puls2,
          timer.mpr (harmless waits).evTimerRes⟩

theorem same_step (same : w.outputs = w.own) (agree : Agree (step hz w i)) :
    (step hz w i).outputs = (step hz w i).own := by
  have puls1 : (step hz w i).outputs.puls1 = (step hz w i).own.puls1 := by
    have seen := agree.puls1
    change w.outputs.puls1.clock hz _ _ _ = w.own.puls1.clock hz _ _ _
    change pulsNext w.outputs.puls1 _ _ _ = pulsNext w.own.puls1 _ _ _ at seen
    rw [← same] at seen ⊢
    exact clock_congr w.outputs.puls1 seen
  have puls2 : (step hz w i).outputs.puls2 = (step hz w i).own.puls2 := by
    have seen := agree.puls2
    change w.outputs.puls2.clock hz _ _ _ = w.own.puls2.clock hz _ _ _
    change pulsNext w.outputs.puls2 _ _ _ = pulsNext w.own.puls2 _ _ _ at seen
    rw [← same] at seen ⊢
    exact clock_congr w.outputs.puls2 seen
  have timer := agree.evTimerRes
  cases outputs : (step hz w i).outputs with
  | mk one two res =>
    cases own : (step hz w i).own with
    | mk one' two' res' =>
      rw [outputs, own] at puls1 puls2 timer
      cases puls1
      cases puls2
      cases timer
      rfl

/-- The outputs are in each clock those that the events give with their own entries if and only if
each event that waits meets harmless entries only. -/
theorem own_entries_iff (hz : Nat) (junk : Mil.Decoder.Registers) (line rdMil : Bool)
    (ram : EventProcessing.Ram) (filtDataO : BitVec 6)
    (outputs : Outputs) (inputs : List Inputs)
    (spaced : Along (step hz) (fun w _ => Spaced w.path) (start hz junk line rdMil ram filtDataO outputs) inputs) :
    Along (step hz) (fun w i => Agree (step hz w i)) (start hz junk line rdMil ram filtDataO outputs) inputs ↔
      Along (step hz) (fun w i => Waits w → Harmless w i) (start hz junk line rdMil ram filtDataO outputs) inputs := by
  apply spaced.congr (fun w => Heard w ∧ w.outputs = w.own)
  · refine ⟨⟨serving_start hz junk line rdMil ram filtDataO, ?_⟩, rfl⟩
    intro fin
    cases fin
  · exact fun holds _ => agree_iff holds.1 holds.2
  · exact fun holds here agree => ⟨holds.1.step here, same_step holds.2 agree⟩

instance (w : World) : Decidable (Agree w) :=
  decidable_of_iff (w.outputs.puls1.puls = w.own.puls1.puls ∧ w.outputs.puls2.puls = w.own.puls2.puls ∧
    w.outputs.evTimerRes = w.own.evTimerRes)
    ⟨fun ⟨puls1, puls2, evTimerRes⟩ => ⟨puls1, puls2, evTimerRes⟩, fun agree =>
      ⟨agree.puls1, agree.puls2, agree.evTimerRes⟩⟩

instance (p : Pulse) (frame starts ends : Bool) : Decidable (p.Unmoved frame starts ends) := by
  unfold Pulse.Unmoved
  infer_instance

instance (w : World) (i : Inputs) : Decidable (Harmless w i) :=
  decidable_of_iff
    (w.outputs.puls1.Unmoved i.puls1Frame (acts i true w.path.regs.ep.filtDataO 2)
      (acts i true w.path.regs.ep.filtDataO 3) ∧
      w.outputs.puls2.Unmoved i.puls2Frame (acts i true w.path.regs.ep.filtDataO 4)
        (acts i true w.path.regs.ep.filtDataO 5) ∧
      (acts i true w.path.regs.ep.filtDataO 1 && i.evResetOn) = false)
    ⟨fun ⟨puls1, puls2, evTimerRes⟩ => ⟨puls1, puls2, evTimerRes⟩, fun harmless =>
      ⟨harmless.puls1, harmless.puls2, harmless.evTimerRes⟩⟩

instance (w : World) : Decidable (Waits w) := inferInstanceAs (Decidable (_ ∧ _))

def addressed : List Inputs := (command 0x000a true).map fun path => ⟨path, true, false, false⟩

def off : Outputs := ⟨⟨false, loadVal 20000000⟩, ⟨false, loadVal 20000000⟩, false⟩

theorem own_entries_addressed :
    Along (step 20000000) (fun w i => Agree (step 20000000 w i))
      (start 20000000 Mil.Soundness.powerUp.regs false false (fun a => if a = 10 then 4 else 0) 0 off)
      addressed :=
  (own_entries_iff 20000000 Mil.Soundness.powerUp.regs false false (fun a => if a = 10 then 4
    else 0) 0 off addressed (by decide +kernel)).mpr
    (by decide +kernel)

/-- The event's own entry is zero, and the pulse starts with that of the address lines. -/
theorem host_entry_starts : ¬∀ (hz : Nat) (junk : Mil.Decoder.Registers) (line rdMil : Bool) (ram : EventProcessing.Ram)
    (filtDataO : BitVec 6) (outputs : Outputs) (inputs : List Inputs),
    Along (step hz) (fun w _ => Spaced w.path) (start hz junk line rdMil ram filtDataO outputs) inputs →
      Along (step hz) (fun w i => Agree (step hz w i)) (start hz junk line rdMil ram filtDataO outputs) inputs := by
  intro all
  have spaced : Along (step 20000000) (fun w _ => Spaced w.path)
      (start 20000000 Mil.Soundness.powerUp.regs false false (fun a => if a = 5 then 4 else 0) 0 off)
        addressed := by decide +kernel
  have differs : ¬Along (step 20000000) (fun w i => Agree (step 20000000 w i))
      (start 20000000 Mil.Soundness.powerUp.regs false false (fun a => if a = 5 then 4 else 0) 0 off)
        addressed := by decide +kernel
  exact differs (all 20000000 Mil.Soundness.powerUp.regs false false _ 0 off addressed spaced)

end BelProject.MilScu.EventPulses
