import BelProject.Fg.StepValue

/-! The ramp: each interval has as many additions as SW4 selects, all of the step value that was
taken over at its begin. The divider leaves the clocks in which the next step value is on its way
free of additions. -/

namespace BelProject.Fg.Ramp
open SlaveFg StepValue Library.Runs

/-- The divider has not underflowed, and will not with that many edges. -/
structure Above (k : ℕ) (cnt : BitVec 10) : Prop where
  edges : k ≤ cnt.toNat
  positive : cnt.toNat < 512

variable {g : Generics} {r : Registers} {i : Inputs} {cnt : BitVec 10} {k : ℕ}

theorem Above.msb (above : Above k cnt) : cnt.msb = false := by
  rw [BitVec.msb_eq_decide]
  exact decide_eq_false (by have := above.positive; omega)

theorem Above.mono {m : ℕ} (above : Above k cnt) (less : m ≤ k) : Above m cnt :=
  ⟨less.trans above.edges, above.positive⟩

theorem above_reload (sel : BitVec 3) : Above 2 (cFreqCnt sel) := by
  have table : ∀ sel : BitVec 3, 2 ≤ (cFreqCnt sel).toNat ∧ (cFreqCnt sel).toNat < 512 := by decide
  exact ⟨(table sel).1, (table sel).2⟩

theorem Above.pred (above : Above (k + 1) cnt) : Above k (cnt - 1) := by
  have edges := above.edges
  have positive := above.positive
  have value : (cnt - 1).toNat = cnt.toNat - 1 := by
    rw [BitVec.toNat_sub]
    have one : (1 : BitVec 10).toNat = 1 := rfl
    rw [one]
    omega
  exact ⟨by omega, by omega⟩

theorem Above.next (above : Above (k + 1) r.freqCnt) (few : k ≤ 2) : Above k (freqCntNext r) := by
  rw [freqCntNext]
  split_ifs
  · exact (above_reload _).mono few
  · exact above.pred
  · exact above.mono (Nat.le_succ k)

theorem Above.off (above : Above 0 r.freqCnt) (off : r.rampModus = false) : Above 0 (freqCntNext r) := by
  rw [freqCntNext, off, Bool.not_false, Bool.or_true, if_pos rfl]
  split_ifs
  · exact (above_reload _).mono (Nat.zero_le 2)
  · exact above

theorem freqCnt_edge (edge : r.fgClkEdgeDetect = true)
    (under : (r.freqCnt.msb || !r.rampModus) = true) : Above 2 (freqCntNext r) := by
  rw [freqCntNext, edge, if_pos rfl, if_pos under]
  exact above_reload _

/-- Where the divider stands in the states of the machine. -/
structure Inv (r : Registers) : Prop where
  settled : Settled r
  edge : r.fgClkEdgeDetect = true → r.sync2 = true
  /-- a generator that can be started -/
  idle : r.fgSm = .idle → broadcastEn r = true → r.rampModus = false ∧ r.nextStepValueEn = false ∧ Above 0 r.freqCnt
  /-- the clock behind a write of the accumulator has no edge -/
  left : r.fgSm = .idle → r.rampModus = true → r.fgClkEdgeDetect = false
  err : r.fgSm = .err → r.rampModus = true → Above 1 r.freqCnt
  drq : r.fgSm = .drq → r.freqEn = false ∧ Above 0 r.freqCnt ∧ (r.rampModus = true → Above 1 r.freqCnt)
  load : r.fgSm = .run → r.nextStepValueEn = true → r.freqEn = false
  addition : r.fgSm = .run → r.freqEn = true → r.fgClkEdgeDetect = false ∧ Above 2 r.freqCnt
  point : r.fgSm = .run → dataPointReached r = true → r.freqEn = false ∧ Above 2 r.freqCnt

theorem msb_cAddCnt (sel : BitVec 3) : (cAddCnt sel).msb = false := by
  revert sel
  decide

theorem inv_held (reset : Settled r) (idle : r.fgSm = .idle) (off : broadcastEn r = false)
    (edge : r.fgClkEdgeDetect = false) : Inv r where
  settled := reset
  edge := fun on => absurd (on.symm.trans edge) Bool.noConfusion
  idle := fun _ on => absurd (on.symm.trans off) Bool.noConfusion
  left := fun _ _ => edge
  err := fun state => absurd (idle.symm.trans state) FgSm.noConfusion
  drq := fun state => absurd (idle.symm.trans state) FgSm.noConfusion
  load := fun state => absurd (idle.symm.trans state) FgSm.noConfusion
  addition := fun state => absurd (idle.symm.trans state) FgSm.noConfusion
  point := fun state => absurd (idle.symm.trans state) FgSm.noConfusion

theorem addCnt_underflows (before : dataPointReached r = false) (behind : (addCntNext r).msb = true) :
    r.rampModus = true ∧ r.freqEn = true := by
  rw [addCntNext, before, Bool.false_or] at behind
  cases ramp : r.rampModus with
  | false =>
    rw [ramp, Bool.not_false, if_pos rfl, msb_cAddCnt] at behind
    cases behind
  | true =>
    rw [ramp, Bool.not_true, if_neg Bool.false_ne_true] at behind
    cases adds : r.freqEn with
    | true => exact ⟨rfl, rfl⟩
    | false =>
      rw [adds, if_neg Bool.false_ne_true] at behind
      exact absurd (behind.symm.trans before) Bool.noConfusion

theorem fgSm_idle (next : fgSmNext r i = .idle) :
    (r.fgSm = .idle ∧ starts r i = false) ∨ (r.fgSm = .run ∧ directSet r = true) ∨
    (r.fgSm = .err ∧ status1RdFg r = true) := by
  rw [fgSmNext] at next
  cases state : r.fgSm with
  | idle =>
    rw [state] at next
    cases given : starts r i with
    | true => rw [given] at next; cases next
    | false => exact Or.inl ⟨rfl, rfl⟩
  | drq => rw [state] at next; cases next
  | run =>
    rw [state] at next
    cases set : directSet r with
    | true => exact Or.inr (Or.inl ⟨rfl, rfl⟩)
    | false =>
      rw [set] at next
      cases reached : dataPointReached r <;> cases asks : r.dreq <;> rw [reached, asks] at next <;> cases next
  | err =>
    rw [state] at next
    cases read : status1RdFg r with
    | true => exact Or.inr (Or.inr ⟨rfl, rfl⟩)
    | false => rw [read] at next; cases next

theorem fgSm_drq (next : fgSmNext r i = .drq) :
    (r.fgSm = .idle ∧ starts r i = true) ∨ (r.fgSm = .run ∧ dataPointReached r = true ∧ r.dreq = false) := by
  rw [fgSmNext] at next
  cases state : r.fgSm with
  | idle =>
    rw [state] at next
    cases given : starts r i with
    | true => exact Or.inl ⟨rfl, rfl⟩
    | false => rw [given] at next; cases next
  | drq => rw [state] at next; cases next
  | run =>
    rw [state] at next
    cases reached : dataPointReached r with
    | true =>
      cases asks : r.dreq with
      | true => rw [reached, asks] at next; cases next
      | false => exact Or.inr ⟨rfl, rfl, rfl⟩
    | false =>
      rw [reached] at next
      cases set : directSet r <;> rw [set] at next <;> cases next
  | err =>
    rw [state] at next
    dsimp only at next
    split_ifs at next

theorem fgSm_run (next : fgSmNext r i = .run) : r.fgSm = .drq ∨ (r.fgSm = .run ∧ dataPointReached r = false) := by
  rw [fgSmNext] at next
  cases state : r.fgSm with
  | idle =>
    rw [state] at next
    dsimp only at next
    split_ifs at next
  | drq => exact Or.inl rfl
  | run =>
    rw [state] at next
    cases reached : dataPointReached r with
    | true =>
      rw [reached] at next
      cases asks : r.dreq <;> rw [asks] at next <;> cases next
    | false => exact Or.inr ⟨rfl, rfl⟩
  | err =>
    rw [state] at next
    dsimp only at next
    split_ifs at next

theorem fgSm_err (next : fgSmNext r i = .err) : (r.fgSm = .run ∧ dataPointReached r = true) ∨ r.fgSm = .err := by
  rw [fgSmNext] at next
  cases state : r.fgSm with
  | idle =>
    rw [state] at next
    dsimp only at next
    split_ifs at next
  | drq => rw [state] at next; cases next
  | run =>
    rw [state] at next
    cases reached : dataPointReached r with
    | true => exact Or.inl ⟨rfl, rfl⟩
    | false =>
      rw [reached] at next
      cases set : directSet r <;> rw [set] at next <;> cases next
  | err => exact Or.inr rfl

theorem broadcastEn_next (on : (status2Next r i).getLsbD 2 = true) :
    accepts r .sw5 = true ∨ (broadcastEn r = true ∧ directSet r = false) := by
  rw [status2Next] at on
  cases sw5 : accepts r .sw5 with
  | true => exact Or.inl rfl
  | false =>
    rw [sw5] at on
    cases set : directSet r with
    | true =>
      rw [set] at on
      simp at on
    | false =>
      rw [set] at on
      exact Or.inr ⟨on, rfl⟩

theorem ramp_next : (advance r i).rampModus = true ↔ r.fgSm = .drq ∨ r.fgSm = .run := by
  change (r.fgSm == .drq || r.fgSm == .run) = true ↔ _
  rw [Bool.or_eq_true, beq_iff_eq, beq_iff_eq]

theorem ramp_off (state : r.fgSm = .idle ∨ r.fgSm = .err) : (advance r i).rampModus = false := by
  rw [Bool.eq_false_iff, ne_eq, ramp_next]
  rintro (drq | run)
  · rcases state with idle | err
    · cases idle.symm.trans drq
    · cases err.symm.trans drq
  · rcases state with idle | err
    · cases idle.symm.trans run
    · cases err.symm.trans run

theorem freqEn_above (above : Above k r.freqCnt) : (advance r i).freqEn = false := by
  change (r.fgClkEdgeDetect && r.freqCnt.msb) = false
  rw [above.msb, Bool.and_false]

theorem Inv.edge_next (inv : Inv r) (edge : r.fgClkEdgeDetect = true) : (advance r i).fgClkEdgeDetect = false := by
  change (!r.sync2 && r.sync1) = false
  rw [inv.edge edge]
  rfl

theorem Inv.advance (inv : Inv r) (settled : Settled (control g r i (advance r i))) :
    Inv (control g r i (advance r i)) where
  settled := settled
  edge := by
    intro on
    change (!r.sync2 && r.sync1) = true at on
    exact (Bool.and_eq_true_iff.mp on).2
  idle := by
    intro next on
    have load : (SlaveFg.advance r i).nextStepValueEn = (r.fgSm == .drq) := rfl
    change (SlaveFg.advance r i).rampModus = false ∧ (SlaveFg.advance r i).nextStepValueEn = false ∧
      Above 0 (freqCntNext r)
    rcases fgSm_idle next with ⟨state, _⟩ | ⟨_, set⟩ | ⟨state, read⟩
    · have off := ramp_off (i := i) (Or.inl state)
      rw [load, state]
      refine ⟨off, rfl, ?_⟩
      rcases broadcastEn_next on with sw5 | ⟨before, _⟩
      · have edge := (accepts_edge sw5).2
        have ramp : r.rampModus = false := by
          by_contra ramp
          exact absurd (edge.symm.trans (inv.left state (Bool.eq_true_of_not_eq_false ramp))) Bool.noConfusion
        exact (freqCnt_edge edge (by rw [ramp]; exact Bool.or_true _)).mono (Nat.zero_le 2)
      · obtain ⟨ramp, _, above⟩ := inv.idle state before
        exact above.off ramp
    · rcases broadcastEn_next on with sw5 | ⟨_, free⟩
      · rcases directSet_cases set with sw1 | sw2
        · exact absurd (sw5.symm.trans (accepts_other sw1 WrReg.noConfusion)) Bool.noConfusion
        · exact absurd (sw5.symm.trans (accepts_other sw2 WrReg.noConfusion)) Bool.noConfusion
      · exact absurd (set.symm.trans free) Bool.noConfusion
    · have edge : r.fgClkEdgeDetect = true := (Bool.and_eq_true_iff.mp read).2
      have off := ramp_off (i := i) (Or.inr state)
      rw [load, state]
      refine ⟨off, rfl, ?_⟩
      cases ramp : r.rampModus with
      | true => exact (inv.err state ramp).next (Nat.zero_le 2)
      | false => exact (freqCnt_edge edge (by rw [ramp]; exact Bool.or_true _)).mono (Nat.zero_le 2)
  left := by
    intro next ramp
    rcases fgSm_idle next with ⟨state, _⟩ | ⟨_, set⟩ | ⟨state, _⟩
    · exact absurd ramp (ne_true_of_eq_false (ramp_off (i := i) (Or.inl state)))
    · exact inv.edge_next (i := i) (directSet_edge set)
    · exact absurd ramp (ne_true_of_eq_false (ramp_off (i := i) (Or.inr state)))
  err := by
    intro next ramp
    rcases fgSm_err next with ⟨state, reached⟩ | state
    · exact (inv.point state reached).2.next (by decide)
    · exact absurd ramp (ne_true_of_eq_false (ramp_off (i := i) (Or.inr state)))
  drq := by
    intro next
    rcases fgSm_drq next with ⟨state, start⟩ | ⟨state, reached, _⟩
    · rw [starts, Bool.and_eq_true] at start
      obtain ⟨ramp, _, above⟩ := inv.idle state start.1
      have off := ramp_off (i := i) (Or.inl state)
      exact ⟨freqEn_above (i := i) above, above.off ramp, fun on => absurd on (ne_true_of_eq_false off)⟩
    · have above := (inv.point state reached).2
      exact ⟨freqEn_above (i := i) above, (above.next (by decide)).mono (Nat.zero_le 1), fun _ =>
        above.next (by decide)⟩
  load := by
    intro _ load
    have state : r.fgSm = .drq := beq_iff_eq.mp load
    exact freqEn_above (i := i) (inv.drq state).2.1
  addition := by
    intro _ on
    obtain ⟨edge, under⟩ := Bool.and_eq_true_iff.mp on
    exact ⟨inv.edge_next (i := i) edge, freqCnt_edge edge (by rw [under]; rfl)⟩
  point := by
    intro next reached
    rcases fgSm_run next with state | ⟨state, before⟩
    · exfalso
      cases before : dataPointReached r with
      | true =>
        change (addCntNext r).msb = true at reached
        rw [addCntNext, before, Bool.true_or, if_pos rfl, msb_cAddCnt] at reached
        cases reached
      | false => exact absurd ((addCnt_underflows before reached).2.symm.trans (inv.drq state).1) Bool.noConfusion
    · obtain ⟨edge, above⟩ := inv.addition state (addCnt_underflows before reached).2
      have same : freqCntNext r = r.freqCnt := by
        rw [freqCntNext, edge]
        rfl
      refine ⟨freqEn_above (i := i) above, ?_⟩
      change Above 2 (freqCntNext r)
      rw [same]
      exact above

theorem Inv.clock (inv : Inv r) : Inv (clock g r i) := by
  have settled : Settled (SlaveFg.clock g r i) := settled_clock
  have off : (0 : BitVec 16).getLsbD 2 = false := by decide
  cases behind : resSysClkSyncNext r i with
  | true =>
    rw [clock_reset behind] at settled ⊢
    exact inv_held settled rfl off rfl
  | false =>
    cases before : r.resSysClkSync with
    | true =>
      rw [clock_leaves before behind] at settled ⊢
      exact inv_held settled rfl off rfl
    | false =>
      rw [clock_free before behind] at settled ⊢
      exact inv.advance settled

theorem powerup_inv (g : Generics) (junk : Registers) (first : Inputs) : Inv (powerup g junk first) :=
  inv_held settled_clock rfl (by change (0 : BitVec 16).getLsbD 2 = false; decide) rfl

theorem Inv.run {inputs : List Inputs} (inv : Inv r) : Inv (run g r inputs) :=
  (along_true (SlaveFg.clock g) r inputs).invariant Inv inv fun inv _ => inv.clock

end BelProject.Fg.Ramp
