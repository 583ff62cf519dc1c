import BelProject.Library.Runs
import BelProject.ScuBus.Slave
import Mathlib.Tactic.Common

/-! `P_Intr` of `SCU_Bus_Slave`: each interrupt input is synchronised, its rising edges set a bit
while the interrupt is enabled, and the master clears the bit. An edge that finds the bit set, or
comes together with the clear, takes the bit back for one clock, so that the request line shows it. -/

namespace BelProject.ScuBus.Interrupts
open Slave Library.Runs

/-- One bit of each register of `P_Intr`. -/
structure Channel where
  sync0 : Bool
  sync1 : Bool
  sync2 : Bool
  active : Bool
  reactivate : Bool
  enablePrevious : Bool
  deriving DecidableEq, Repr

def Channel.reset : Channel :=
  { sync0 := false, sync1 := false, sync2 := false, active := false, reactivate := false, enablePrevious := false }

section
variable (c : Channel) (enable clear input : Bool)

/-- The input was active already when it was enabled. -/
def Channel.comesOn : Bool := enable && !c.enablePrevious && c.sync2

def Channel.rises : Bool := enable && c.sync1 && !c.sync2

def Channel.activeNext : Bool :=
  if !enable then false
  else if c.comesOn enable then true
  else if c.rises enable then (if clear then false else !c.active)
  else if clear then false
  else if c.reactivate then true
  else c.active

/-- Neither the disabling nor the clear takes the memo back. -/
def Channel.reactivateNext : Bool :=
  if !enable then c.reactivate
  else if c.comesOn enable then c.reactivate
  else if c.rises enable then c.active || clear || c.reactivate
  else if clear then c.reactivate
  else false

def Channel.clock : Channel :=
  { sync0 := input
    sync1 := c.sync0
    sync2 := c.sync1
    active := c.activeNext enable clear
    reactivate := c.reactivateNext enable clear
    enablePrevious := enable }

end

structure Inputs where
  bus : Bus
  data : BitVec 16
  user : User

structure World (g : Generics) where
  regs : Slave.Registers g
  /-- `S_Wr_Intr_Active` -/
  wrIntrActive : BitVec 2
  channels : Fin 15 → Channel

variable {g : Generics}

def bits (bit : Fin 15 → Bool) : BitVec 15 := (BitVec.ofBoolListLE (List.ofFn bit)).cast List.length_ofFn

def user (w : World g) (i : Inputs) : User :=
  { i.user with
    intrIn := bits fun j => (w.channels j).sync2
    intrActive := bits fun j => (w.channels j).active }

/-- The bit in `S_Intr_Enable`. -/
def enabled (w : World g) (j : Fin 15) : Bool := w.regs.intrEnable.getLsbD j

/-- The clock in which a write to the active bits clears this one. Bit 0 is the power-up interrupt. -/
def clears (w : World g) (j : Fin 15) : Bool := w.wrIntrActive == 1 && w.regs.dataLA.getLsbD (j + 1)

def step (w : World g) (i : Inputs) : World g :=
  { regs := Slave.clock w.regs i.bus (user w i) i.data
    wrIntrActive := if stores w.regs i.bus = some .intrActive then (w.wrIntrActive.setWidth 1).concat true else 0
    channels := fun j => (w.channels j).clock (enabled w j) (clears w j) (i.user.intrIn.getLsbD j) }

def run (w : World g) (inputs : List Inputs) : World g := inputs.foldl step w

def start (g : Generics) (dtackDly : BitVec (g.dtackDlyCnt + 1)) : World g :=
  { regs := reset dtackDly, wrIntrActive := 0, channels := fun _ => .reset }

def requests (w : World g) (j : Fin 15) : Bool :=
  (w.channels j).comesOn (enabled w j) || (w.channels j).rises (enabled w j)

/-- The interrupt is disabled or its bit is cleared. -/
def withdraws (w : World g) (j : Fin 15) : Bool := !enabled w j || clears w j

/-- There was a request, and it has not been withdrawn in a later clock. -/
def Requested (w : World g) (j : Fin 15) (inputs : List Inputs) : Prop :=
  ∃ past i rest, inputs = past ++ i :: rest ∧ requests (run w past) j = true ∧
    Along step (fun w _ => withdraws w j = false) (run w (past ++ [i])) rest

/-- The last clock had an edge, and there was a request already or the bit was cleared. -/
def Retriggered (w : World g) (j : Fin 15) (inputs : List Inputs) : Prop :=
  ∃ past i, inputs = past ++ [i] ∧ ((run w past).channels j).rises (enabled (run w past) j) = true ∧
    (Requested w j past ∨ clears (run w past) j = true)

/-- The interrupt is not withdrawn while its bit waits to be set again. -/
def Settled (j : Fin 15) (w : World g) (_ : Inputs) : Prop := (w.channels j).reactivate = true → withdraws w j = false

variable {w : World g} {j : Fin 15} {i : Inputs} {inputs : List Inputs}

theorem run_snoc : run w (inputs ++ [i]) = step (run w inputs) i := List.foldl_concat ..

theorem requested_nil : ¬Requested w j [] := by
  rintro ⟨past, i, rest, split, _⟩
  cases past with
  | nil => cases split
  | cons => cases split

theorem requested_snoc :
    Requested w j (inputs ++ [i]) ↔ requests (run w inputs) j = true ∨
      (Requested w j inputs ∧ withdraws (run w inputs) j = false) := by
  constructor
  · rintro ⟨past, i', rest, split, asks, along⟩
    rcases List.eq_nil_or_concat rest with rfl | ⟨rest, last, rfl⟩
    · obtain ⟨rfl, _⟩ := List.append_inj' split rfl
      exact Or.inl asks
    · have split' : inputs ++ [i] = (past ++ i' :: rest) ++
        [last] := by rw [split, List.concat_eq_append, List.append_assoc]; rfl
      obtain ⟨rfl, same⟩ := List.append_inj' split' rfl
      rw [List.concat_eq_append] at along
      obtain ⟨earlier, here, _⟩ := along_append.mp along
      have state : rest.foldl step (run w (past ++ [i'])) = run w (past ++ i' :: rest) := by
        rw [run, run, ← List.foldl_append, List.append_assoc]
        rfl
      rw [state] at here
      exact Or.inr ⟨⟨past, i', rest, rfl, asks, earlier⟩, here⟩
  · rintro (asks | ⟨⟨past, i', rest, rfl, asks, along⟩, keeps⟩)
    · exact ⟨inputs, i, [], rfl, asks, trivial⟩
    · have state : rest.foldl step (run w (past ++ [i'])) = run w (past ++ i' :: rest) := by
        rw [run, run, ← List.foldl_append, List.append_assoc]
        rfl
      refine ⟨past, i', rest ++ [i], by rw [List.append_assoc]; rfl, asks, along_append.mpr ⟨along, ?_, trivial⟩⟩
      rw [state]
      exact keeps

theorem retriggered_nil : ¬Retriggered w j [] := by
  rintro ⟨past, i, split, _⟩
  exact absurd split.symm (List.append_ne_nil_of_right_ne_nil past (List.cons_ne_nil i []))

theorem retriggered_snoc : Retriggered w j (inputs ++ [i]) ↔
    ((run w inputs).channels j).rises (enabled (run w inputs) j) = true ∧
    (Requested w j inputs ∨ clears (run w inputs) j = true) := by
  constructor
  · rintro ⟨past, i', split, rest⟩
    obtain ⟨rfl, _⟩ := List.append_inj' split rfl
    exact rest
  · intro rest
    exact ⟨inputs, i, rfl, rest⟩

/-- What a channel knows of the requests. -/
structure Inv (w : World g) (j : Fin 15) (requested retriggered : Prop) : Prop where
  pending : (w.channels j).active = true ∨ (w.channels j).reactivate = true ↔ requested
  memo : (w.channels j).reactivate = true ↔ retriggered
  off : (w.channels j).reactivate = true → (w.channels j).active = false
  /-- the edge has passed -/
  edge : (w.channels j).reactivate = true → (w.channels j).sync2 = true ∧ (w.channels j).enablePrevious = true

theorem start_inv (dtackDly : BitVec (g.dtackDlyCnt + 1)) :
    Inv (start g dtackDly) j (Requested (start g dtackDly) j []) (Retriggered (start g dtackDly) j []) where
  pending := by
    constructor
    · rintro (active | memo)
      · cases active
      · cases memo
    · exact fun requested => absurd requested requested_nil
  memo := ⟨fun memo => Bool.noConfusion memo, fun retriggered => absurd retriggered retriggered_nil⟩
  off := Bool.noConfusion
  edge := Bool.noConfusion

section
variable {c : Channel} {enable clear : Bool}

section
variable (settled : c.reactivate = true → (!enable || clear) = false)
include settled

theorem Channel.pending_clock :
    c.activeNext enable clear = true ∨ c.reactivateNext enable clear = true ↔
      (c.comesOn enable || c.rises enable) = true ∨
      ((c.active = true ∨ c.reactivate = true) ∧ (!enable || clear) = false) := by
  cases enable with
  | false =>
    have memo : c.reactivate = false := Bool.eq_false_of_not_eq_true fun up => absurd (settled up) Bool.noConfusion
    simp [activeNext, reactivateNext, comesOn, rises, memo]
  | true =>
    cases comes : c.comesOn true with
    | true => simp [activeNext, comes]
    | false =>
      cases edge : c.rises true with
      | true => cases act : c.active <;> cases clear <;> simp [activeNext, reactivateNext, comes, edge, act]
      | false =>
        cases clear with
        | true =>
          have memo : c.reactivate = false :=
            Bool.eq_false_of_not_eq_true fun up => absurd (settled up) Bool.noConfusion
          simp [activeNext, reactivateNext, comes, edge, memo]
        | false => cases memo : c.reactivate <;> simp [activeNext, reactivateNext, comes, edge, memo]

theorem Channel.reactivate_clock (edge : c.reactivate = true → c.sync2 = true ∧ c.enablePrevious = true) :
    c.reactivateNext enable clear = true ↔ c.rises enable = true ∧
      ((c.active = true ∨ c.reactivate = true) ∨ clear = true) := by
  cases memo : c.reactivate with
  | true =>
    -- The edge has passed, and nothing stops the memo from being used up.
    have on := settled memo
    rw [Bool.or_eq_false_iff, Bool.not_eq_false'] at on
    obtain ⟨rfl, rfl⟩ := on
    obtain ⟨level, previous⟩ := edge memo
    simp [reactivateNext, comesOn, rises, level, previous]
  | false =>
    cases enable with
    | false => simp [reactivateNext, rises, memo]
    | true =>
      cases rise : c.rises true with
      | true =>
        have low : c.comesOn true = false := by
          rw [rises, Bool.and_eq_true, Bool.not_eq_true'] at rise
          rw [comesOn, rise.2, Bool.and_false]
        cases clear <;> simp [reactivateNext, low, rise, memo]
      | false => cases clear <;> simp [reactivateNext, rise, memo]

theorem Channel.off_clock (edge : c.reactivate = true → c.sync2 = true ∧ c.enablePrevious = true)
    (memo : c.reactivateNext enable clear = true) : c.activeNext enable clear = false := by
  obtain ⟨rise, again⟩ := (reactivate_clock settled edge).mp memo
  have on : enable = true := by
    rw [rises, Bool.and_eq_true, Bool.and_eq_true] at rise
    exact rise.1.1
  have low : c.comesOn enable = false := by
    rw [rises, Bool.and_eq_true, Bool.not_eq_true'] at rise
    rw [comesOn, rise.2, Bool.and_false]
  have used : c.reactivate = false := by
    by_contra up
    have level := (edge (Bool.eq_true_of_not_eq_false up)).1
    rw [rises, level] at rise
    simp at rise
  rw [activeNext, low, rise, on]
  cases clear with
  | true => rfl
  | false =>
    have set : c.active = true := by simpa [used] using again
    rw [set]
    rfl

end

end

theorem Inv.step {requested retriggered : Prop} (inv : Inv w j requested retriggered) (settled : Settled j w i) :
    Inv (step w i) j (requests w j = true ∨ (requested ∧ withdraws w j = false))
      ((w.channels j).rises (enabled w j) = true ∧ (requested ∨ clears w j = true)) where
  pending := by
    rw [← inv.pending]
    exact Channel.pending_clock settled
  memo := by
    rw [← inv.pending]
    exact Channel.reactivate_clock settled inv.edge
  off := Channel.off_clock settled inv.edge
  edge := by
    intro memo
    obtain ⟨rise, _⟩ := (Channel.reactivate_clock settled inv.edge).mp memo
    rw [Channel.rises, Bool.and_eq_true, Bool.and_eq_true] at rise
    exact ⟨rise.1.2, rise.1.1⟩

theorem Inv.run (inv : Inv w j (Requested w j []) (Retriggered w j []))
    (settled : Along Interrupts.step (Settled j) w inputs) :
    Inv (run w inputs) j (Requested w j inputs) (Retriggered w j inputs) := by
  induction inputs using List.reverseRecOn with
  | nil => exact inv
  | append_singleton inputs i ih =>
    obtain ⟨earlier, here, _⟩ := along_append.mp settled
    have next := (ih earlier).step (i := i) here
    rw [← requested_snoc, ← retriggered_snoc] at next
    rw [run_snoc]
    exact next

/-- From a reset on, as long as an interrupt is not withdrawn while its bit waits to be set again,
the bit is set if and only if there was a request that has not been withdrawn since, but for the
clock behind an edge that came on top of a request or of a clear. -/
theorem active_iff (g : Generics) (dtackDly : BitVec (g.dtackDlyCnt + 1)) (j : Fin 15) (inputs : List Inputs)
    (settled : Along step (Settled j) (start g dtackDly) inputs) :
    ((run (start g dtackDly) inputs).channels j).active = true ↔
      Requested (start g dtackDly) j inputs ∧ ¬Retriggered (start g dtackDly) j inputs := by
  have inv := (start_inv (j := j) dtackDly).run settled
  constructor
  · intro active
    refine ⟨inv.pending.mp (Or.inl active), fun retriggered => ?_⟩
    exact absurd (active.symm.trans (inv.off (inv.memo.mpr retriggered))) Bool.noConfusion
  · rintro ⟨requested, first⟩
    rcases inv.pending.mpr requested with active | memo
    · exact active
    · exact absurd (inv.memo.mp memo) first

def enabling : Generics := ⟨0, 0, 0, 0, 0, 0, 0, 0xffff, 2⟩

def level (input : BitVec 15) : Inputs :=
  { bus := ⟨0, true, true, true⟩, data := 0, user := ⟨0, false, true, 0, 0, input, 0, false⟩ }

def edges : List Inputs := [level 1, level 0, level 1, level 0, level 0]

instance (j : Fin 15) (w : World g) (i : Inputs) : Decidable (Settled j w i) :=
  inferInstanceAs (Decidable ((w.channels j).reactivate = true → withdraws w j = false))

theorem active_iff_edges :
    ((run (start enabling 0) edges).channels 0).active = true ↔
      Requested (start enabling 0) 0 edges ∧ ¬Retriggered (start enabling 0) 0 edges :=
  active_iff enabling 0 0 edges (by decide +kernel)

/-- The second edge takes the bit back. -/
theorem edge_takes_back : ¬∀ (inputs : List Inputs) (j : Fin 15),
    ((run (start enabling 0) inputs).channels j).active = true ↔ Requested (start enabling 0) j inputs := by
  intro all
  have off : ((run (start enabling 0) edges).channels 0).active = false := by decide +kernel
  have asks : requests (run (start enabling 0) [level 1, level 0, level 1, level 0]) 0 = true := by decide +kernel
  have requested : Requested (start enabling 0) 0 edges :=
    ⟨[level 1, level 0, level 1, level 0], level 0, [], rfl, asks, trivial⟩
  exact absurd (((all edges 0).mpr requested).symm.trans off) Bool.noConfusion

end BelProject.ScuBus.Interrupts
