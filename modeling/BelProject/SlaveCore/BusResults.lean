import BelProject.Library.Runs
import BelProject.SlaveCore.Overflow

/-! `eb_wbm_fifo` by itself. Its results are matched with operations by their order alone: an
answer of the bus, or of the time-out in its place, goes to the oldest operation without one.
Each answer is recorded with the operation the bus meant it for. -/

namespace BelProject.SlaveCore.BusResults
open BelProject.Library Runs Headers Fifo SlaveCore.Core
open Overflow (Queued)
open CycleLine (Answer Inflight inflight_clock)

variable {t : Nat}

/-- The inputs of a clock. `owner` numbers the operation a slave answers. -/
structure Event where
  stb : Bool
  answer : Answer
  owner : Nat
  pop : Bool

structure World (t : Nat) where
  wbm : WbmFifo t
  queued : Queued
  /-- strobes so far -/
  issued : Nat
  /-- what was pushed into the data FIFO, with its operation -/
  results : List (Nat × Word × Bool)
  /-- what was popped from it -/
  popped : List (Word × Bool)
  /-- one more than the last operation a slave answered -/
  heard : Nat

def start (limit : Nat) (ram : Nat → Word × Bool) (rDat : Word × Bool) : World t :=
  ⟨⟨.reset limit, Fifo.reset ram rDat, 0⟩, ⟨0, false⟩, 0, [], [], 0⟩

def real (answer : Answer) : Bool := answer.ack || answer.err || answer.rty

def ownerOf (w : World t) (e : Event) : Nat := if real e.answer then e.owner else w.results.length

def step (limit : Nat) (w : World t) (e : Event) : World t :=
  { wbm := w.wbm.clock limit e.stb e.answer e.pop
    queued := w.queued.clock e.stb e.pop
    issued := w.issued + e.stb.toNat
    results := w.results ++ (w.wbm.push e.answer).toList.map fun result => (ownerOf w e, result)
    popped := w.popped ++ if e.pop then [w.wbm.data.rDat] else []
    heard := if real e.answer then e.owner + 1 else w.heard }

/-- Both sides look at their flags, and slaves answer what was issued, each operation once and
in order. -/
structure Allowed (w : World t) (e : Event) : Prop where
  stb : e.stb = true → w.queued.full = false ∨ e.pop = true
  pop : e.pop = true → w.wbm.data.empty = false
  once : real e.answer = true → w.heard ≤ e.owner
  issued : real e.answer = true → e.owner < w.issued + e.stb.toNat

instance (w : World t) (e : Event) : Decidable (Allowed w e) :=
  decidable_of_iff ((e.stb = true → w.queued.full = false ∨ e.pop = true) ∧ (e.pop = true → w.wbm.data.empty = false) ∧
    (real e.answer = true → w.heard ≤ e.owner) ∧ (real e.answer = true → e.owner < w.issued + e.stb.toNat))
    ⟨fun h => ⟨h.1, h.2.1, h.2.2.1, h.2.2.2⟩, fun h => ⟨h.stb, h.pop, h.once, h.issued⟩⟩

/-- A slave answers the oldest operation without an answer: it leaves none out, and is not
late for one the time-out has answered. -/
def InTurn (w : World t) (e : Event) : Prop := real e.answer = true → e.owner = w.results.length

instance (w : World t) (e : Event) : Decidable (InTurn w e) :=
  inferInstanceAs (Decidable (real e.answer = true → e.owner = w.results.length))

/-- Every operation has one result, in the order of issue; they leave in this order, and each
leaves its bit in the error register. The counter tells how many are missing. -/
structure Matched (w : World t) : Prop where
  owners : w.results.map Prod.fst = List.range w.results.length
  popped : w.popped <+: w.results.map Prod.snd
  shown : w.wbm.data.empty = false → (w.results.map Prod.snd)[w.popped.length]? = some w.wbm.data.rDat
  errreg : w.wbm.errreg = w.popped.foldl (fun errreg result => shiftError errreg result.2) 0
  busy : w.wbm.counters.busy = decide (w.results.length < w.issued)
  positive : w.results.length ≤ w.issued
  inflight : w.wbm.counters.inflight.toNat = (w.issued - w.results.length) % 32

def unread (w : World t) : List (Word × Bool) := (w.results.map Prod.snd).drop w.popped.length

structure Inv (w : World t) : Prop where
  matched : Matched w
  data : Represents w.wbm.data (unread w)
  killed : w.wbm.counters.killAck = true → w.results.length < w.issued
  room : w.issued - w.popped.length ≤ 32
  queued : w.queued.queued = BitVec.ofNat 5 (w.issued - w.popped.length)
  full : w.queued.full = decide (w.issued - w.popped.length = 32)

variable {w : World t} {e : Event}

variable (limit : Nat)

theorem start_inv (ram : Nat → Word × Bool) (rDat : Word × Bool) : Inv (start limit ram rDat : World t) where
  matched := ⟨rfl, List.prefix_rfl, fun shown => absurd shown Bool.noConfusion, rfl, rfl, le_rfl, rfl⟩
  data := represents_reset ram rDat
  killed := fun killed => absurd killed Bool.false_ne_true
  room := Nat.zero_le _
  queued := rfl
  full := rfl

theorem Inv.popped_le (inv : Inv w) : w.popped.length ≤ w.results.length := by
  have shorter := inv.matched.popped.length_le
  rw [List.length_map] at shorter
  exact shorter

theorem unread_length (w : World t) : (unread w).length = w.results.length - w.popped.length := by
  rw [unread, List.length_drop, List.length_map]

theorem Inv.answers (inv : Inv w) (allowed : Allowed w e) (inTurn : InTurn w e)
    (rdy : w.wbm.counters.rdy e.answer = true) : w.results.length < w.issued + e.stb.toNat := by
  cases answered : real e.answer with
  | true =>
    rw [← inTurn answered]
    exact allowed.issued answered
  | false =>
    have killed : w.wbm.counters.killAck = true := by
      rw [Inflight.rdy] at rdy
      rw [real] at answered
      rw [answered, Bool.false_or] at rdy
      exact rdy
    exact Nat.lt_add_right _ (inv.killed killed)

theorem owner_next (inTurn : InTurn w e) : ownerOf w e = w.results.length := by
  rw [ownerOf]
  split_ifs with answered
  · exact inTurn answered
  · rfl

theorem Inv.present (inv : Inv w) (allowed : Allowed w e) : e.pop = true → unread w ≠ [] := by
  intro popping none
  have shown := inv.data.front (allowed.pop popping)
  rw [none] at shown
  cases shown

theorem step_results (w : World t) (e : Event) :
    (step limit w e).results.length = w.results.length + (w.wbm.counters.rdy e.answer).toNat := by
  rw [step, List.length_append, List.length_map, WbmFifo.push]
  cases w.wbm.counters.rdy e.answer <;> rfl

theorem step_popped (w : World t) (e : Event) : (step limit w e).popped.length = w.popped.length + e.pop.toNat := by
  rw [step, List.length_append]
  cases e.pop <;> rfl

theorem step_owners (inv : Inv w) (inTurn : InTurn w e) :
    (step limit w e).results.map Prod.fst = List.range (step limit w e).results.length := by
  rw [step_results, step, List.map_append, inv.matched.owners, owner_next inTurn, WbmFifo.push]
  cases w.wbm.counters.rdy e.answer with
  | false => exact List.append_nil _
  | true => exact List.range_succ.symm

theorem step_values (w : World t) (e : Event) :
    (step limit w e).results.map Prod.snd = w.results.map Prod.snd ++ (w.wbm.push e.answer).toList := by
  rw [step, List.map_append, List.map_map]
  exact congrArg _ (List.map_id _)

theorem Inv.popped_clock (inv : Inv w) (allowed : Allowed w e) :
    (step limit w e).popped <+: w.results.map Prod.snd ∧
      (w.results.map Prod.snd).drop (step limit w e).popped.length = left (unread w) e.pop := by
  cases popping : e.pop with
  | false =>
    have same : (step limit w e).popped = w.popped := by
      rw [step, popping]
      exact List.append_nil _
    rw [same]
    exact ⟨inv.matched.popped, rfl⟩
  | true =>
    have more : (step limit w e).popped = w.popped ++ [w.wbm.data.rDat] := by rw [step, popping]; rfl
    rw [more, left, if_pos rfl, ← List.drop_one]
    exact Ring.drop_popped inv.matched.popped (inv.data.front (allowed.pop popping))

theorem Inv.unread_clock (inv : Inv w) (allowed : Allowed w e) :
    unread (step limit w e) = left (unread w) e.pop ++ (w.wbm.push e.answer).toList := by
  obtain ⟨before, rest⟩ := inv.popped_clock limit allowed
  rw [unread, step_values, List.drop_append_of_le_length before.length_le, rest]

theorem Inv.data_room (inv : Inv w) (allowed : Allowed w e) (inTurn : InTurn w e) :
    Room w.wbm.data (w.wbm.push e.answer).isSome e.pop := by
  intro pushed
  have rdy : w.wbm.counters.rdy e.answer = true := by
    rw [WbmFifo.push] at pushed
    split_ifs at pushed with rdy
    · exact rdy
    · cases pushed
  have found := inv.answers allowed inTurn rdy
  have waiting := unread_length w
  have behind := inv.popped_le
  have room := inv.room
  cases strobed : e.stb with
  | false =>
    rw [strobed, Bool.toNat_false, Nat.add_zero] at found
    rw [inv.data.full, decide_eq_false_iff_not]
    omega
  | true =>
    refine (allowed.stb strobed).imp_left fun notFull => ?_
    rw [strobed, Bool.toNat_true] at found
    rw [inv.full, decide_eq_false_iff_not] at notFull
    rw [inv.data.full, decide_eq_false_iff_not]
    omega

theorem step_errreg (matched : Matched w) :
    (step limit w e).wbm.errreg = (step limit w e).popped.foldl (fun errreg result => shiftError errreg result.2) 0 := by
  rw [step, List.foldl_append, ← matched.errreg, WbmFifo.clock]
  cases e.pop <;> rfl

theorem step_killed (inv : Inv w) (killed : (step limit w e).wbm.counters.killAck = true) :
    (step limit w e).results.length < (step limit w e).issued := by
  have quiet : (w.wbm.counters.rdy e.answer || !w.wbm.counters.busy) = false := by
    rw [Bool.eq_false_iff]
    intro reset
    simp only [step, WbmFifo.clock, Inflight.clock, reset, if_true] at killed
    exact absurd killed Bool.false_ne_true
  rw [Bool.or_eq_false_iff, Bool.not_eq_false'] at quiet
  have waiting : w.results.length < w.issued := by
    have busy := inv.matched.busy
    rw [quiet.2] at busy
    exact of_decide_eq_true busy.symm
  rw [step_results, quiet.1]
  exact Nat.lt_add_right _ waiting

theorem Inv.kept (inv : Inv w) (allowed : Allowed w e) (inTurn : InTurn w e) : Inv (step limit w e) := by
  have found := inv.answers allowed inTurn
  have positive := inv.matched.positive
  have behind := inv.popped_le
  have results := step_results limit w e
  have popped := step_popped limit w e
  have issued : (step limit w e).issued = w.issued + e.stb.toNat := rfl
  have one : (w.wbm.counters.rdy e.answer).toNat ≤ 1 := Bool.toNat_le _
  -- the operations without an answer
  have missing : (step limit w e).issued - (step limit w e).results.length =
      w.issued - w.results.length + e.stb.toNat - (w.wbm.counters.rdy e.answer).toNat := by
    omega
  have counted : (step limit w e).results.length ≤ (step limit w e).issued := by
    cases rdy : w.wbm.counters.rdy e.answer with
    | false =>
      rw [results, rdy, issued]
      exact Nat.le_add_right_of_le positive
    | true =>
      rw [results, rdy, issued]
      exact found rdy
  have few : w.issued - w.results.length ≤ 32 := le_trans (Nat.sub_le_sub_left behind _) inv.room
  obtain ⟨inflight, busy⟩ := inflight_clock limit w.wbm.counters (w.issued - w.results.length) e.stb e.answer
    inv.matched.inflight (by rw [inv.matched.busy, decide_eq_decide]; omega) few
    (fun rdy => by have := found rdy; omega)
  -- the operations whose results were not popped
  have present : e.pop = true → 0 < w.issued - w.popped.length := by
    intro popping
    have some := List.length_pos_iff.mpr (inv.present allowed popping)
    rw [unread_length w] at some
    omega
  have outstanding : (step limit w e).issued - (step limit w e).popped.length =
      w.issued - w.popped.length + e.stb.toNat - e.pop.toNat := by
    omega
  obtain ⟨queued, full, room⟩ := Overflow.queued_clock inv.queued inv.full inv.room allowed.stb present
  have data : Represents (step limit w e).wbm.data (unread (step limit w e)) := by
    rw [inv.unread_clock limit allowed]
    exact inv.data.clock (inv.present allowed) (inv.data_room allowed inTurn)
  refine ⟨⟨step_owners limit inv inTurn, ?_, ?_, step_errreg limit inv.matched, ?_, counted, ?_⟩, data,
    step_killed limit inv, ?_, ?_, ?_⟩
  · rw [step_values]
    exact (inv.popped_clock limit allowed).1.trans (List.prefix_append _ _)
  · intro shown
    rw [← data.front shown, unread, List.head?_drop]
  · refine busy.trans ?_
    rw [← missing, decide_eq_decide]
    exact Nat.sub_pos_iff_lt
  · rw [missing]
    exact inflight
  · rw [outstanding]
    exact room
  · rw [outstanding]
    exact queued
  · rw [outstanding]
    exact full

/-- In every run in which each answer is in turn, the k-th result popped belongs to the k-th
operation, with its bit in the error register, and the counters count what is missing. -/
theorem results_matched (limit : Nat) (ram : Nat → Word × Bool) (rDat : Word × Bool) (events : List Event)
    (along : Along (step limit) (fun w e => Allowed w e ∧ InTurn w e) (start limit ram rDat : World t) events) :
    Matched (events.foldl (step limit) (start limit ram rDat : World t)) :=
  (along.invariant Inv (start_inv limit ram rDat) fun inv meets => inv.kept limit meets.1 meets.2).matched

def quiet : Answer := ⟨false, false, false, 0⟩

def strobing : Event := ⟨true, quiet, 0, false⟩

def waiting : Event := ⟨false, quiet, 0, false⟩

def popping : Event := ⟨false, quiet, 0, true⟩

def acknowledging (owner : Nat) (dat : Word) : Event := ⟨false, ⟨true, false, false, dat⟩, owner, false⟩

/-- The first operation times out while the second is issued; its slave never answers. -/
theorem results_matched_timeout :
    Matched ([strobing, waiting, waiting, strobing, acknowledging 1 7, waiting, popping, popping].foldl (step 2)
      (start 2 (fun _ => (0, false)) (0, false) : World 2)) :=
  results_matched 2 (fun _ => (0, false)) (0, false)
    [strobing, waiting, waiting, strobing, acknowledging 1 7, waiting, popping, popping] (by decide +kernel)

/-- A slave that answers the first operation after the time-out gives the second its result. -/
theorem late_answer_taken :
    Along (step 2) Allowed (start 2 (fun _ => (0, false)) (0, false) : World 2)
        [strobing, waiting, waiting, strobing, acknowledging 0 7, waiting, popping, popping] ∧
      ¬Matched ([strobing, waiting, waiting, strobing, acknowledging 0 7, waiting, popping, popping].foldl (step 2)
        (start 2 (fun _ => (0, false)) (0, false) : World 2)) := by
  refine ⟨by decide +kernel, ?_⟩
  intro matched
  exact absurd matched.owners (by decide +kernel)

end BelProject.SlaveCore.BusResults
