import BelProject.Fg.SlaveFg

/-! A write of the accumulator ends the ramp: the machine returns to idle and broadcast enable is
cleared. The other branches of the machine in the same clock go before it. -/

namespace BelProject.Fg.DirectSet
open SlaveFg Library.Runs

def addend (r : Registers) : BitVec 32 := increment (sw3MulBy32 r) (twosComp r) r.rawStepValue

/-- Out of the ramp, with an accumulator that no addition changes. -/
structure Calm (r : Registers) : Prop where
  state : r.fgSm = .idle ∨ r.fgSm = .err
  still : adds r = true → addend r = 0

def enables (r : Registers) (i : Inputs) : Bool := accepts r .sw5 && i.data.getLsbD 2

def restarts (r : Registers) (i : Inputs) : Bool := r.fgSm == .idle && starts r i

/-- Broadcast enable has been set, and after that a start was given. -/
def Released (g : Generics) (r : Registers) (later : List Inputs) : Prop :=
  ∃ before j between k rest, later = before ++ j :: between ++ k :: rest ∧ enables (run g r before) j = true ∧
    restarts (run g r (before ++ j :: between)) k = true

/-- After every accepted write of the accumulator the generator is calm until it is released. -/
def Stops (g : Generics) (r : Registers) (inputs : List Inputs) : Prop :=
  ∀ past i later rest, inputs = past ++ i :: (later ++ rest) → directSet (run g r past) = true →
    ¬Released g (run g r (past ++ [i])) later → Calm (run g r (past ++ i :: later))

/-- No other branch of the machine goes before the write: it is not about to run or to be started,
no data point asks for the next step, and the last addition, which the divider may have on its way,
adds nothing. -/
def Yields (r : Registers) (i : Inputs) : Prop :=
  match r.fgSm with
  | .idle => starts r i = false
  | .drq => False
  | .run => (dataPointReached r = true → r.dreq = true) ∧
      (r.freqCnt.msb = true → increment (sw3MulBy32 r) (twosComp r) (if r.nextStepValueEn then r.sw3Reg
        else r.rawStepValue) = 0)
  | .err => True

/-- The power-up reset comes with the write, or nothing goes before it. -/
def Safe (r : Registers) (i : Inputs) : Prop := i.nPowerupRes = false ∨ Yields r i

variable {g : Generics} {r : Registers} {i : Inputs} {inputs : List Inputs}

theorem addend_held : addend (held r) = 0 := by
  change increment (sw3MulBy32 (held r)) (twosComp (held r)) 0 = 0
  have mul : sw3MulBy32 (held r) = false := by
    change (0 : BitVec 16).getLsbD 1 = false
    decide
  have twos : twosComp (held r) = false := by
    change (0 : BitVec 16).getLsbD 3 = false
    decide
  rw [mul, twos]
  decide

theorem Calm.clock (calm : Calm r) (waits : restarts r i = false) : Calm (clock g r i) := by
  have stopped : (r.fgSm == .drq || r.fgSm == .run) = false := by
    rcases calm.state with state | state
    · rw [state]; rfl
    · rw [state]; rfl
  cases before : r.resSysClkSync with
  | true =>
    cases behind : resSysClkSyncNext r i with
    | true =>
      rw [clock_reset behind]
      exact ⟨Or.inl rfl, fun _ => addend_held⟩
    | false =>
      rw [clock_leaves before behind]
      exact ⟨Or.inl rfl, fun _ => addend_held (r := r)⟩
  | false =>
    have off : adds (control g r i (advance r i)) = false := by
      change ((r.fgSm == .drq || r.fgSm == .run) && _) = false
      rw [stopped, Bool.false_and]
    cases behind : resSysClkSyncNext r i with
    | true =>
      rw [clock_reset behind]
      exact ⟨Or.inl rfl, fun _ => addend_held⟩
    | false =>
      rw [clock_free before behind]
      constructor
      · change fgSmNext r i = .idle ∨ fgSmNext r i = .err
        rw [fgSmNext]
        rcases calm.state with state | state
        · rw [restarts, state] at waits
          rw [state]
          exact Or.inl (if_neg (ne_true_of_eq_false waits))
        · rw [state]
          cases status1RdFg r with
          | true => exact Or.inl rfl
          | false => exact Or.inr rfl
      · exact fun on => absurd (on.symm.trans off) Bool.noConfusion

theorem Calm.run (calm : Calm r) (waits : Along (SlaveFg.clock g) (fun r i => restarts r i = false) r inputs) :
    Calm (run g r inputs) :=
  waits.invariant Calm calm fun calm waits => calm.clock waits

theorem format_directSet (set : directSet r = true) :
    sw3MulBy32 (advance r i) = sw3MulBy32 r ∧ twosComp (advance r i) = twosComp r ∧
      broadcastEn (advance r i) = false := by
  have other : accepts r .sw5 = false := by
    rcases directSet_cases set with sw1 | sw2
    · exact accepts_other sw1 WrReg.noConfusion
    · exact accepts_other sw2 WrReg.noConfusion
  have value : (advance r i).status2 = r.status2 &&& ~~~4 := by
    change status2Next r i = _
    rw [status2Next, other, set]
    rfl
  rw [sw3MulBy32, twosComp, broadcastEn, value]
  refine ⟨?_, ?_, ?_⟩
  · simp [sw3MulBy32]
  · simp [twosComp]
  · simp

theorem calm_iff_safe (settled : Settled r) (set : directSet r = true) : Calm (clock g r i) ↔ Safe r i := by
  have free := settled.free (directSet_edge set)
  have edge := directSet_edge set
  have noReset : resetWrites r = false := by
    rw [resetWrites]
    rcases directSet_cases set with sw1 | sw2
    · rw [(accepts_edge sw1).1]; rfl
    · rw [(accepts_edge sw2).1]; rfl
  cases power : i.nPowerupRes with
  | false =>
    have behind : resSysClkSyncNext r i = true := by
      rw [resSysClkSyncNext, resets, power]
      rfl
    rw [clock_reset behind]
    exact iff_of_true ⟨Or.inl rfl, fun _ => addend_held⟩ (Or.inl power)
  | true =>
    have behind : resSysClkSyncNext r i = false := by
      rw [resSysClkSyncNext, resets, power, noReset, free]
      exact ite_self _
    have reset : Safe r i ↔ Yields r i := or_iff_right (ne_false_of_eq_true power)
    rw [clock_free free behind, reset, Yields]
    have next : (control g r i (advance r i)).fgSm = fgSmNext r i := rfl
    obtain ⟨mul, twos, _⟩ := format_directSet (i := i) set
    have value : addend (control g r i (advance r i)) =
        increment (sw3MulBy32 r) (twosComp r) (if r.nextStepValueEn then r.sw3Reg else r.rawStepValue) := by
      rw [← mul, ← twos]
      rfl
    have adding : adds (control g r i (advance r i)) = ((r.fgSm == .drq || r.fgSm == .run) && r.freqCnt.msb) := by
      change ((r.fgSm == .drq || r.fgSm == .run) && (r.fgClkEdgeDetect && r.freqCnt.msb)) = _
      rw [edge, Bool.true_and]
    rw [fgSmNext] at next
    cases state : r.fgSm with
    | idle =>
      rw [state] at next adding
      constructor
      · intro calm
        by_contra goes
        rw [if_pos (Bool.eq_true_of_not_eq_false goes)] at next
        rcases calm.state with other | other
        · cases next.symm.trans other
        · cases next.symm.trans other
      · intro waits
        rw [if_neg (ne_true_of_eq_false waits)] at next
        exact ⟨Or.inl next, fun on => absurd (on.symm.trans adding) Bool.noConfusion⟩
    | drq =>
      rw [state] at next
      constructor
      · rintro ⟨other | other, _⟩
        · cases next.symm.trans other
        · cases next.symm.trans other
      · exact False.elim
    | err =>
      rw [state] at next adding
      refine iff_of_true ⟨?_, fun on => absurd (on.symm.trans adding) Bool.noConfusion⟩ trivial
      rw [next]
      cases status1RdFg r with
      | true => exact Or.inl rfl
      | false => exact Or.inr rfl
    | run =>
      rw [state] at next adding
      have still : (adds (control g r i (advance r i)) = true → addend (control g r i (advance r i)) = 0) ↔
          (r.freqCnt.msb = true → increment (sw3MulBy32 r) (twosComp r)
            (if r.nextStepValueEn then r.sw3Reg else r.rawStepValue) = 0) := by
        rw [adding, value]
        rfl
      have stopped : ((control g r i (advance r i)).fgSm = .idle ∨ (control g r i (advance r i)).fgSm = .err) ↔
          (dataPointReached r = true → r.dreq = true) := by
        rw [next, set]
        cases dataPointReached r with
        | false => exact iff_of_true (Or.inl rfl) fun reached => Bool.noConfusion reached
        | true =>
          cases r.dreq with
          | true => exact iff_of_true (Or.inr rfl) fun _ => rfl
          | false => simp
      rw [← still, ← stopped]
      exact ⟨fun calm => ⟨calm.state, calm.still⟩, fun ⟨state, still⟩ => ⟨state, still⟩⟩

theorem enables_clock (off : broadcastEn r = false) (on : broadcastEn (clock g r i) = true) : enables r i = true := by
  have none : broadcastEn (held r) = false := by
    change (0 : BitVec 16).getLsbD 2 = false
    decide
  cases behind : resSysClkSyncNext r i with
  | true =>
    rw [clock_reset behind] at on
    exact absurd (on.symm.trans none) Bool.noConfusion
  | false =>
    cases before : r.resSysClkSync with
    | true =>
      rw [clock_leaves before behind] at on
      exact absurd (on.symm.trans none) Bool.noConfusion
    | false =>
      rw [clock_free before behind] at on
      change (status2Next r i).getLsbD 2 = true at on
      rw [status2Next] at on
      rw [broadcastEn] at off
      rw [enables]
      cases sw5 : accepts r .sw5 with
      | true =>
        rw [sw5] at on
        exact on
      | false =>
        rw [sw5] at on
        cases set : directSet r with
        | true =>
          rw [set] at on
          simp at on
        | false =>
          rw [set] at on
          exact absurd (on.symm.trans off) Bool.noConfusion

theorem disabled_clock (set : directSet r = true) : broadcastEn (clock g r i) = false := by
  by_contra on
  have none : broadcastEn (held r) = false := by
    change (0 : BitVec 16).getLsbD 2 = false
    decide
  cases behind : resSysClkSyncNext r i with
  | true =>
    rw [clock_reset behind] at on
    exact on none
  | false =>
    cases before : r.resSysClkSync with
    | true =>
      rw [clock_leaves before behind] at on
      exact on none
    | false =>
      rw [clock_free before behind] at on
      exact on (format_directSet set).2.2

theorem enabled_before (off : broadcastEn r = false) (on : broadcastEn (run g r inputs) = true) :
    ∃ before j between, inputs = before ++ j :: between ∧ enables (run g r before) j = true := by
  induction inputs using List.reverseRecOn with
  | nil => exact absurd (on.symm.trans off) Bool.noConfusion
  | append_singleton inputs i ih =>
    cases earlier : broadcastEn (run g r inputs) with
    | true =>
      obtain ⟨before, j, between, rfl, sets⟩ := ih earlier
      exact ⟨before, j, between ++ [i], by rw [List.append_assoc, List.cons_append], sets⟩
    | false =>
      refine ⟨inputs, i, [], rfl, ?_⟩
      rw [run_append] at on
      exact enables_clock earlier on

theorem waits_of_not_released (off : broadcastEn r = false) (bound : ¬Released g r inputs) :
    Along (clock g) (fun r i => restarts r i = false) r inputs := by
  apply along_iff.mpr
  intro past k rest split
  by_contra given
  have starting : restarts (run g r past) k = true := Bool.eq_true_of_not_eq_false given
  have enabled : broadcastEn (run g r past) = true := by
    rw [restarts, starts, Bool.and_eq_true, Bool.and_eq_true] at starting
    exact starting.2.1
  obtain ⟨before, j, between, rfl, sets⟩ := enabled_before off enabled
  exact bound ⟨before, j, between, k, rest, by rw [split, List.append_assoc, List.cons_append], sets, starting⟩

/-- From the power-up on the writes of the accumulator stop the generator in those runs only in
which each of them is a safe one. -/
theorem stops_iff (g : Generics) (junk : Registers) (first : Inputs) (inputs : List Inputs) :
    Stops g (powerup g junk first) inputs ↔
      Along (clock g) (fun r i => directSet r = true → Safe r i) (powerup g junk first) inputs := by
  have settled : ∀ past, Settled (run g (powerup g junk first) past) := fun past => settled_clock.run
  constructor
  · intro stops
    apply along_iff.mpr
    intro past i rest split set
    have bound : ¬Released g (run g (powerup g junk first) (past ++ [i])) [] := by
      rintro ⟨before, j, between, k, more, none, _⟩
      simp at none
    have calm := stops past i [] rest split set bound
    rw [run_append] at calm
    exact (calm_iff_safe (settled past) set).mp calm
  · rintro safe past i later rest rfl set bound
    have here := (along_append.mp safe).2.1 set
    have calm := (calm_iff_safe (g := g) (settled past) set).mpr here
    rw [run_append] at bound ⊢
    exact calm.run (waits_of_not_released (disabled_clock set) bound)

/-- The power-up, with the counter of the reset at its end. -/
def fresh : Registers :=
  { wr := none, status1Rd := false, resSysClkSync := false, sysClkResetCnt := 4, resetWrDtack := false, sync0 := false
    sync1 := false, sync2 := false, fgClkEdgeDetect := false, freqEn := false, freqCnt := 0, addCnt := 0, fgSm := .idle
    rampModus := false, dreq := false, nextStepValueEn := false, sw3Reg := 0, rawStepValue :=
      0, status1 := 0, status2 := 0
    accuReg := 0 }

def quiet : Inputs :=
  { fgClk := false, adr := 0, extAdrVal := false, extRdActive := false, extWrActive := false, data := 0,
    nPowerupRes := true
    nStartSignal := true }

def write (fgClk : Bool) (adr data : BitVec 16) : Inputs :=
  { quiet with fgClk := fgClk, adr := adr, extAdrVal := true, extWrActive := true, data := data }

def armed : List Inputs :=
  [quiet, quiet, write false 0x105 4, write true 0x105 4, write false 0x105 4, write true 0x105 4,
    write false 0x105 4, write true 0x101 7]

/-- The external start signal comes with the write of SW1, and the ramp begins. -/
theorem start_overrides : ¬∀ (junk : Registers) (first : Inputs) (inputs : List Inputs),
    Stops ⟨0x1030, 0x0100⟩ (powerup ⟨0x1030, 0x0100⟩ junk first) inputs := by
  intro all
  have set : directSet (run ⟨0x1030, 0x0100⟩ (powerup ⟨0x1030, 0x0100⟩ fresh quiet) armed) = true := by decide +kernel
  have begun : (run ⟨0x1030, 0x0100⟩ (powerup ⟨0x1030, 0x0100⟩ fresh quiet)
      (armed ++ [{ write false 0x101 7 with nStartSignal := false }])).fgSm = .drq := by decide +kernel
  have bound : ¬Released ⟨0x1030, 0x0100⟩ (run ⟨0x1030, 0x0100⟩ (powerup ⟨0x1030, 0x0100⟩ fresh quiet)
      (armed ++ [{ write false 0x101 7 with nStartSignal := false }])) [] := by
    rintro ⟨before, j, between, k, more, none, _⟩
    simp at none
  have calm := all fresh quiet (armed ++ [{ write false 0x101 7 with nStartSignal := false }]) armed
    { write false 0x101 7 with nStartSignal := false } [] [] rfl set bound
  rcases calm.state with other | other
  · cases begun.symm.trans other
  · cases begun.symm.trans other

end BelProject.Fg.DirectSet
