import BelProject.Heap.Runs

/-! A pop or a replace on a heap at rest, whatever its RAM holds. -/

namespace BelProject.Heap.Service
open BelProject.Library.BinaryHeap
open Writer (Entry)
open HeapTop Pipeline
open Runs (Phase)

variable {k v : Nat}

/-- Between operations: the copies of the keys are those of the RAM, and the last entry is at hand. -/
structure AtRest (w : Nat) (h : World k v) : Prop where
  quiet : busy h = false
  state : h.pf.state = .idle
  adrMode : h.pf.adrMode = .default
  writer : h.wr.state = .idle
  out : h.wr.out = false
  fits : h.pf.last < 2 ^ w
  still : 1 ≤ h.pf.last → h.wr.en0 = false ∧ h.wr.en1 = false
  keys : ∀ i, 1 ≤ i → i ≤ h.pf.last → h.pf.ram0 i = (h.wr.ram i).key ∧ h.pf.ram1 i = (h.wr.ram i).key
  copies : 1 ≤ h.pf.last → h.pf.qa1 = (h.wr.ram h.pf.last).key ∧ h.pf.mov = (h.wr.ram h.pf.last).key ∧
    h.wr.mov = h.wr.ram h.pf.last

/-- A heap at rest whose RAM holds the entries `a` up to `n`. -/
def loaded (junk : Junk k v) (a : Nat → Entry k v) (n : Nat) : World k v :=
  { start junk with
    pf := { (start junk).pf with
      last := n, mov := (a n).key, qa1 := (a n).key, ram0 := fun i => (a i).key, ram1 := fun i => (a i).key }
    wr := { (start junk).wr with mov := a n, ram := a, en0 := false, en1 := false, busy := false } }

variable {w : Nat} {h : World k v} {e : Event k v}

theorem loaded_atRest (junk : Junk k v) (a : Nat → Entry k v) {n : Nat} (fits : n < 2 ^ w) : AtRest w (loaded junk a n) :=
  { quiet := rfl, state := rfl, adrMode := rfl, writer := rfl, out := rfl, fits := fits
    still := fun _ => ⟨rfl, rfl⟩
    keys := fun _ _ _ => ⟨rfl, rfl⟩
    copies := fun _ => ⟨rfl, rfl, rfl⟩ }

theorem atRest_of_idle (idle : Queue.Idle w h) (quiet : busy h = false) : AtRest w h :=
  { quiet := quiet, state := idle.state, adrMode := idle.adrMode, writer := idle.writer,
    out := idle.out, fits := idle.fits
    still := idle.still
    keys := idle.agree
    copies := fun some => ⟨(idle.copies some).1, (idle.copies some).2.1, (idle.copies some).2.2.1⟩ }

def withQueue (h : World k v) : World k v := { h with bag := entries h.wr.ram h.pf.last, shown := h.wr.ram 1 }

theorem AtRest.idle (rest : AtRest w h) (ordered : Ordered rank h.wr.ram h.pf.last) : Queue.Idle w (withQueue h) := by
  have quiet := rest.quiet
  rw [busy, Bool.or_eq_false_iff] at quiet
  exact
    { state := rest.state, adrMode := rest.adrMode, pfBusy := quiet.1, writer := rest.writer,
      out := rest.out, fits := rest.fits
      still := rest.still, agree := rest.keys, ordered := ordered, bag := rfl
      copies := fun some => ⟨(rest.copies some).1, (rest.copies some).2.1, (rest.copies some).2.2, rfl⟩ }

theorem run_registers (h h' : World k v) (pf : h.pf = h'.pf) (wr : h.wr = h'.wr) (events : List (Event k v)) :
    (run w h events).pf = (run w h' events).pf ∧ (run w h events).wr = (run w h' events).wr := by
  induction events generalizing h h' with
  | nil => exact ⟨pf, wr⟩
  | cons e events ih =>
    obtain ⟨pf₁, wr₁, bag, shown⟩ := h
    obtain ⟨pf₂, wr₂, bag', shown'⟩ := h'
    cases pf
    cases wr
    exact ih _ _ rfl rfl

theorem AtRest.congr {h' : World k v} (rest : AtRest w h) (pf : h.pf = h'.pf) (wr : h.wr = h'.wr) : AtRest w h' := by
  obtain ⟨pf₁, wr₁, bag, shown⟩ := h
  obtain ⟨pf₂, wr₂, bag', shown'⟩ := h'
  cases pf
  cases wr
  exact { rest with }

/-- The place of the walk is one of the heap that remains. -/
def Inside (h : World k v) : Prop := h.pf.state = .heapDown → 1 ≤ h.pf.ptr ∧ h.pf.ptr ≤ h.pf.newLast

theorem Phase.inside {m : Nat} (phase : Phase w h m) : Inside h := by
  intro walks
  cases phase with
  | down down =>
    rw [down.ptr, down.newLast]
    exact ⟨down.positive, down.small⟩
  | upSetup setup => cases walks.symm.trans setup.state
  | up up => cases walks.symm.trans up.state
  | upLast last => cases walks.symm.trans last.state
  | downSetup setup => cases walks.symm.trans setup.state
  | closing closing => cases walks.symm.trans closing.state
  | placing placing => cases walks.symm.trans placing.state
  | finishing content _ => cases walks.symm.trans content.state
  | emptying emptying => cases walks.symm.trans emptying.state
  | fresh idle => cases walks.symm.trans idle.state
  | idle idle _ => cases walks.symm.trans idle.state

theorem Phase.serves {m : Nat} (phase : Phase w h m) (events : List (Event k v)) (long : m ≤ events.length) :
    ∃ i ≤ m, Queue.Idle w (run w h (events.take i)) ∧ busy (run w h (events.take i)) = false ∧
      (run w h (events.take i)).bag = h.bag ∧ ∀ j ≤ i, Inside (run w h (events.take j)) := by
  induction events generalizing h m with
  | nil =>
    obtain ⟨i, le, quiet⟩ := phase.completes [] long
    rw [List.take_nil] at quiet
    refine ⟨0, Nat.zero_le m, phase.quiet quiet, quiet, rfl, fun j _ => ?_⟩
    rw [List.take_nil]
    exact Phase.inside phase
  | cons e events ih =>
    cases quiet : busy h with
    | false =>
      refine ⟨0, Nat.zero_le m, phase.quiet quiet, quiet, rfl, fun j none => ?_⟩
      rw [Nat.le_zero.mp none]
      exact Phase.inside phase
    | true =>
      obtain ⟨m', less, next⟩ := phase.busy_step (e := e) quiet
      rw [List.length_cons] at long
      obtain ⟨i, le, idle, rests, bag, inside⟩ := ih next (by omega)
      refine ⟨i + 1, by omega, idle, rests, bag.trans (busy_bag quiet), fun j before => ?_⟩
      cases j with
      | zero => exact Phase.inside phase
      | succ j => exact inside j (by omega)

/-- What the operation leaves: a heap at rest, without the entry at the root, and with the new
one in the case of a replace. -/
structure Served (w : Nat) (h : World k v) (e : Event k v) (h' : World k v) : Prop where
  rest : AtRest w h'
  ordered : Ordered rank h'.wr.ram h'.pf.last
  last : h'.pf.last = if e.push then h.pf.last else h.pf.last - 1
  entries : entries h'.wr.ram h'.pf.last =
    (if e.push then {e.data} else 0) + (entries h.wr.ram h.pf.last).erase (h.wr.ram 1)

theorem request_phase (rest : AtRest w h) (ordered : Ordered rank h.wr.ram h.pf.last) (pops : e.pop = true)
    (silent : e.dbgShow = false) (enough : (if e.push then 1 else 2) ≤ h.pf.last) :
    Phase w (step w (withQueue h) e) (w + 7) := by
  have idle := rest.idle ordered
  have quiet : busy (withQueue h) = false := rest.quiet
  have pop : pop (withQueue h) e = true := by rw [HeapTop.pop, quiet, pops]; rfl
  have push : push (withQueue h) e = e.push := by rw [HeapTop.push, quiet, Bool.not_false, Bool.and_true]
  have dbg : dbg (withQueue h) e = false := by rw [HeapTop.dbg, silent, Bool.false_and]
  cases replaces : e.push with
  | true =>
    rw [replaces, if_pos rfl] at enough
    exact .downSetup (idle.replace (push.trans replaces) pop dbg enough)
  | false =>
    rw [replaces, if_neg Bool.false_ne_true] at enough
    exact .downSetup (idle.pop (push.trans replaces) pop dbg enough)

theorem request_bag (rest : AtRest w h) (pops : e.pop = true) : (step w (withQueue h) e).bag =
    (if e.push then {e.data} else 0) + (entries h.wr.ram h.pf.last).erase (h.wr.ram 1) := by
  have quiet : busy (withQueue h) = false := rest.quiet
  change bagAfter (withQueue h) e = _
  rw [bagAfter, HeapTop.push, HeapTop.pop, quiet, pops, Bool.not_false, Bool.and_true, Bool.and_true]
  cases e.push with
  | true => exact (Multiset.singleton_add _ _).symm
  | false => exact (zero_add _).symm

/-- From all contents in order a pop with two entries or more, or a replace with one or more, comes
to an end in a time bounded by the width of the indices. The RAM is in order again and has lost
the root, and no place of the walk lies behind the last one. -/
theorem pop_served (rest : AtRest w h) (ordered : Ordered rank h.wr.ram h.pf.last) (pops : e.pop = true)
    (silent : e.dbgShow = false)
    (enough : (if e.push then 1 else 2) ≤ h.pf.last) (events : List (Event k v)) (long : w + 7 ≤ events.length) :
    ∃ i ≤ w + 7, Served w h e (run w h (e :: events.take i)) ∧ ∀ j ≤ i, Inside (run w h (e :: events.take j)) := by
  obtain ⟨i, le, idle, quiet, bag, inside⟩ := Phase.serves (request_phase rest ordered pops silent enough) events long
  have same (j : Nat) : (run w (step w (withQueue h) e) (events.take j)).pf = (run w h (e :: events.take j)).pf ∧
      (run w (step w (withQueue h) e) (events.take j)).wr = (run w h (e :: events.take j)).wr :=
    run_registers (withQueue h) h rfl rfl (e :: events.take j)
  refine ⟨i, le, ?_, fun j before => ?_⟩
  · obtain ⟨pf, wr⟩ := same i
    have left := bag.trans (request_bag (w := w) rest pops)
    have positive : 1 ≤ h.pf.last := by
      split_ifs at enough <;> omega
    have root : h.wr.ram 1 ∈ entries h.wr.ram h.pf.last := mem_entries.mpr ⟨1, le_rfl, positive, rfl⟩
    refine ⟨(atRest_of_idle idle quiet).congr pf wr, ?_, ?_, ?_⟩
    · rw [← pf, ← wr]
      exact idle.ordered
    · have card := idle.card
      rw [left, Multiset.card_add, Multiset.card_erase_of_mem root, card_entries, Nat.pred_eq_sub_one] at card
      rw [← pf, ← card]
      cases e.push with
      | true =>
        rw [if_pos rfl, if_pos rfl, Multiset.card_singleton]
        omega
      | false =>
        rw [if_neg Bool.false_ne_true, if_neg Bool.false_ne_true, Multiset.card_zero]
        omega
    · rw [← pf, ← wr, ← idle.bag]
      exact left
  · have walk := inside j before
    rw [Inside, (same j).1] at walk
    exact walk

def three : Nat → Entry 8 1
  | 1 => ⟨10, 0⟩
  | 2 => ⟨20, 0⟩
  | _ => ⟨15, 0⟩

theorem pop_served_three :
    ∃ i ≤ 10, Served 3 (loaded Runs.junk three 3) { Runs.wait with pop := true }
        (run 3 (loaded Runs.junk three 3) ({ Runs.wait with pop := true } :: (List.replicate 10 Runs.wait).take i)) ∧
      ∀ j ≤ i, Inside (run 3 (loaded Runs.junk three 3)
        ({ Runs.wait with pop := true } :: (List.replicate 10 Runs.wait).take j)) :=
  pop_served (loaded_atRest Runs.junk three (by decide)) (by
    intro i big small
    have few : i = 2 ∨ i = 3 := by
      change i ≤ 3 at small
      omega
    rcases few with rfl | rfl <;> decide) rfl rfl (by decide) (List.replicate 10 Runs.wait) (by decide)

end BelProject.Heap.Service
