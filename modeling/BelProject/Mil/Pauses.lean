import BelProject.Mil.Soundness

/-! How soon `Mil_dec_edge_timed` can report something behind a word: each of the seventeen bits of
the next word takes a clock at least, and an error takes three edges. -/

namespace BelProject.Mil.Pauses
open Decoder Soundness

/-- The clocks since the last word and since the last edge. -/
structure Paced (age still : Nat) (r : Registers) : Prop where
  ok : r.machine.parityOk = true → r.machine.state = .idle ∧ 18 ≤ age
  shift : r.shift.toNat < 2 ^ (age + 1)
  first : r.machine.state = .sync1or2 → still ≤ age + 1
  second : r.machine.state = .sync2orData ∨ r.machine.state = .data → still + 5 ≤ age
  parity : r.machine.state = .parity → 18 ≤ age
  err : r.machine.state = .err → 12 ≤ age

variable {hz age still : Nat} {posLane : Bool} {r : Registers} {i : Inputs}

theorem to_sync1or2 (next : (nextMachine posLane r).state = .sync1or2) :
    (r.machine.state = .idle ∧ edgeDetect r = true) ∨ (r.machine.state = .sync1or2 ∧ edgeDetect r = false) := by
  cases state : r.machine.state with
  | err => simp [nextMachine, state] at next
  | _ =>
    simp only [nextMachine, state] at next
    split_ifs at next <;> simp_all [Machine.lower]

theorem to_word (next : (nextMachine posLane r).state = .sync2orData ∨ (nextMachine posLane r).state = .data) :
    (r.machine.state = .sync1or2 ∧ edgeDetect r = true) ∨ r.machine.state = .sync2orData ∨ r.machine.state = .data := by
  cases state : r.machine.state with
  | err => simp [nextMachine, state] at next
  | _ =>
    simp only [nextMachine, state] at next
    split_ifs at next <;> simp_all [Machine.lower]

theorem to_parity (next : (nextMachine posLane r).state = .parity) :
    (r.machine.state = .data ∧ r.shift.msb = true) ∨ r.machine.state = .parity := by
  cases state : r.machine.state with
  | err => simp [nextMachine, state] at next
  | _ =>
    simp only [nextMachine, state] at next
    split_ifs at next <;> simp_all [Machine.lower]

theorem to_err (next : (nextMachine posLane r).state = .err) :
    ((r.machine.state = .sync2orData ∨ r.machine.state = .data) ∧ edgeDetect r = true) ∨ r.machine.state = .parity := by
  cases state : r.machine.state with
  | err => simp [nextMachine, state] at next
  | _ =>
    simp only [nextMachine, state] at next
    split_ifs at next <;> simp_all [Machine.lower]

theorem to_ok (next : (nextMachine posLane r).parityOk = true) : r.machine.state = .parity := by
  cases state : r.machine.state with
  | parity => rfl
  | idle => simp [nextMachine, state, Machine.lower] at next
  | err => simp [nextMachine, state, Machine.lower] at next
  | _ =>
    simp only [nextMachine, state] at next
    split_ifs at next <;> simp_all [Machine.lower]

theorem paced_idle (idle : r.machine.state = .idle) (off : r.machine.parityOk = false)
    (shift : r.shift.toNat < 2 ^ (age + 1)) :
    Paced age still r where
  ok := fun ok => absurd (ok.symm.trans off) Bool.noConfusion
  shift := shift
  first := fun state => absurd (idle.symm.trans state) State.noConfusion
  second := by
    rintro (state | state)
    · exact absurd (idle.symm.trans state) State.noConfusion
    · exact absurd (idle.symm.trans state) State.noConfusion
  parity := fun state => absurd (idle.symm.trans state) State.noConfusion
  err := fun state => absurd (idle.symm.trans state) State.noConfusion

theorem Paced.settle (paced : Paced age still r) : Paced age still (settle r false) := by
  cases stopped : r.isTimeout with
  | false =>
    rw [settle_running (by rw [stopped]; rfl)]
    exact paced
  | true =>
    have machine : (Decoder.settle r false).machine = r.machine.reset := settle_stopped (by rw [stopped]; rfl)
    exact paced_idle (by rw [machine]; rfl) (by rw [machine]; rfl) paced.shift

theorem Paced.shift_edge (paced : Paced age still r) :
    (edge hz posLane r i).shift.toNat < 2 ^ (age + 2) := by
  have grown : 2 ^ (age + 2) = 2 * 2 ^ (age + 1) := Nat.pow_succ'
  have before := paced.shift
  change (if r.machine.state = .idle then (1 : BitVec 18)
    else if r.machine.shiftEna then r.shift.shiftConcat (bitIn posLane r) else r.shift).toNat < _
  split_ifs
  · have one : (1 : BitVec 18).toNat = 1 := rfl
    rw [one]
    omega
  · rw [BitVec.toNat_shiftConcat, Nat.shiftLeft_eq]
    have bit := Bool.toNat_le (bitIn posLane r)
    have less := Nat.mod_le (r.shift.toNat * 2 ^ 1) (2 ^ 18)
    omega
  · omega

theorem shift_idle (idle : r.machine.state = .idle) : (edge hz posLane r i).shift = 1 := if_pos idle

def ageNext (age : Nat) (r : Registers) : Nat := if (settle r false).machine.parityOk then 0 else age + 1

def stillNext (still : Nat) (r : Registers) : Nat := if edgeDetect r then 1 else still + 1

theorem Paced.clock (paced : Paced age still r) (noRes : i.res = false) (spaced : edgeDetect r = true → 6 ≤ still) :
    Paced (ageNext age r) (stillNext still r) (clock hz posLane r i) := by
  have shift : (Decoder.clock hz posLane r i).shift.toNat < 2 ^ (ageNext age r + 1) := by
    have settled := paced.settle
    rw [Decoder.clock, noRes, ageNext]
    split_ifs with ok
    · rw [shift_idle (settled.ok ok).1]
      decide
    · exact settled.shift_edge
  rcases machine_edge hz posLane r i with stopped | ⟨running, _, moved⟩
  · have idle : (Decoder.clock hz posLane r i).machine.state = .idle := congrArg Machine.state stopped
    have none : (Decoder.clock hz posLane r i).machine.parityOk = false := congrArg Machine.parityOk stopped
    exact paced_idle idle none shift
  · have next : (Decoder.clock hz posLane r i).machine = nextMachine posLane r := by rw [Decoder.clock, running, moved]
    have age' : ageNext age r = if r.machine.parityOk then 0 else age + 1 := by
      rw [ageNext, ← noRes, running]
    -- Behind a word the state machine is idle, and all that takes longer is out of reach.
    have word : ∀ state : State, r.machine.state = state → state ≠ .idle → ageNext age r = age + 1 := by
      intro state here busy
      rw [age']
      apply if_neg
      intro ok
      exact busy (here.symm.trans (paced.ok ok).1)
    exact
      { ok := by
          intro ok
          rw [next] at ok ⊢
          have before := to_ok ok
          have late := paced.parity before
          exact ⟨confined_nextMachine ok, by rw [word _ before State.noConfusion]; omega⟩
        shift := shift
        first := by
          intro state
          rw [next] at state
          rcases to_sync1or2 state with ⟨_, seen⟩ | ⟨before, quiet⟩
          · rw [stillNext, if_pos seen]
            omega
          · have early := paced.first before
            rw [stillNext, if_neg (ne_true_of_eq_false quiet), word _ before State.noConfusion]
            omega
        second := by
          intro state
          rw [next] at state
          rcases to_word state with ⟨before, seen⟩ | before
          · have early := paced.first before
            have wide := spaced seen
            rw [stillNext, if_pos seen, word _ before State.noConfusion]
            omega
          · have early := paced.second before
            have later : ageNext age r = age + 1 := by
              rcases before with before | before
              · exact word _ before State.noConfusion
              · exact word _ before State.noConfusion
            rw [stillNext, later]
            split_ifs with seen
            · have := spaced seen
              omega
            · omega
        parity := by
          intro state
          rw [next] at state
          rcases to_parity state with ⟨before, full⟩ | before
          · have grown : 2 ^ 17 < 2 ^ (age + 1) := by
              have top : 2 ^ 17 ≤ r.shift.toNat := by
                rw [BitVec.msb_eq_decide] at full
                exact of_decide_eq_true full
              exact Nat.lt_of_le_of_lt top paced.shift
            have late := (Nat.pow_lt_pow_iff_right (by decide : 1 < 2)).mp grown
            rw [word _ before State.noConfusion]
            omega
          · have late := paced.parity before
            rw [word _ before State.noConfusion]
            omega
        err := by
          intro state
          rw [next] at state
          rcases to_err state with ⟨before, seen⟩ | before
          · have early := paced.second before
            have wide := spaced seen
            have later : ageNext age r = age + 1 := by
              rcases before with before | before
              · exact word _ before State.noConfusion
              · exact word _ before State.noConfusion
            rw [later]
            omega
          · have late := paced.parity before
            rw [word _ before State.noConfusion]
            omega }

theorem paced_reset (hz : Nat) (posLane : Bool) (junk : Registers) (reset : i.res = true) (age still : Nat) :
    Paced age still (clock hz posLane junk i) := by
  have idle : (settle junk i.res).machine.state = .idle := by
    rw [settle_stopped (by rw [reset]; rfl)]
    rfl
  have machine : (clock hz posLane junk i).machine = (settle junk i.res).machine := if_pos (by rw [reset]; rfl)
  have off : (clock hz posLane junk i).machine.parityOk = false := by
    rw [machine, settle_stopped (by rw [reset]; rfl)]
    rfl
  have rests : (clock hz posLane junk i).machine.state = .idle := by rw [machine, idle]
  apply paced_idle rests off
  rw [clock, shift_idle idle]
  exact Nat.one_lt_two_pow (Nat.succ_ne_zero age)

end BelProject.Mil.Pauses
