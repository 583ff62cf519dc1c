import BelProject.Heap.Queue
import BelProject.Library.Runs

/-! Runs of the heap. Every clock leads from one phase of an operation to a later one, so that
each operation is over in a time bounded by the width of the indices. -/

namespace BelProject.Heap.Runs
open BelProject.Library.BinaryHeap
open BelProject.Library.Runs (Along)
open Writer (Entry)
open HeapTop Pipeline Upward Downward
open Queue (Placing Content Finishing Emptying Finished emptyOut_eq)

variable {k v : Nat}

/-- Where an operation stands, and how many clocks it takes at most from here. -/
inductive Phase (w : Nat) (h : World k v) : Nat → Prop where
  | upSetup {n : Nat} {moving : Entry k v} (setup : UpSetup w h n moving) : Phase w h (w + 8)
  | up {a : Nat → Entry k v} {n p j : Nat} {moving : Entry k v} {past : List Nat}
      (up : Up w h a n moving p past j) : Phase w h (j + 8)
  | upLast {a : Nat → Entry k v} {n p : Nat} {moving : Entry k v} {past : List Nat}
      (last : UpLast w h a n moving p past) : Phase w h 7
  | downSetup {n : Nat} {moving : Entry k v} (setup : DownSetup w h n moving) : Phase w h (w + 7)
  | down {a : Nat → Entry k v} {n p j : Nat} {moving : Entry k v} {past : List Nat}
      (down : Down w h a n moving p past j) :
    Phase w h (j + 7)
  | closing {a : Nat → Entry k v} {n c : Nat} {moving : Entry k v} {past : List Nat}
      (closing : Closing w h a n moving c past) :
    Phase w h 6
  | placing {s : Nat → Entry k v} {n c : Nat} {moving : Entry k v} (placing : Placing w h s n c moving) : Phase w h 5
  | finishing {i : Nat} (content : Content w h) (finishing : Finishing h i) : Phase w h (i + 1)
  | emptying (emptying : Emptying h) : Phase w h 1
  | fresh (idle : Queue.Idle w h) : Phase w h 1
  | idle (idle : Queue.Idle w h) (notBusy : h.wr.busy = false) : Phase w h 0

variable {w : Nat} {h : World k v} {e : Event k v} {m : Nat}

theorem Phase.busy_step (phase : Phase w h m) (busy : busy h = true) : ∃ m', m' < m ∧ Phase w (step w h e) m' := by
  cases phase with
  | upSetup setup =>
    obtain ⟨j, less, up⟩ := setup.step (e := e)
    exact ⟨j + 8, by omega, .up up⟩
  | up up =>
    rcases up.step (e := e) with ⟨q, j', less, up⟩ | ⟨q, last⟩
    · exact ⟨j' + 8, by omega, .up up⟩
    · exact ⟨7, by omega, .upLast last⟩
  | upLast last => exact ⟨6, by omega, .closing last.step⟩
  | downSetup setup =>
    obtain ⟨j, less, down⟩ := setup.step (e := e)
    exact ⟨j + 7, by omega, .down down⟩
  | down down =>
    rcases down.step (e := e) with ⟨q, j', less, down⟩ | closing
    · exact ⟨j' + 7, by omega, .down down⟩
    · exact ⟨6, by omega, .closing closing⟩
  | closing closing => exact ⟨5, by omega, .placing (Queue.Closing.step closing)⟩
  | placing placing =>
    obtain ⟨content, finishing⟩ := placing.step (e := e)
    exact ⟨4, by omega, .finishing content finishing⟩
  | finishing content finishing =>
    cases finishing.step (e := e) content with
    | more content' finishing' => exact ⟨_, Nat.lt_succ_self _, .finishing content' finishing'⟩
    | idle idle notBusy => exact ⟨0, by omega, .idle idle notBusy⟩
  | emptying emptying =>
    obtain ⟨idle, notBusy⟩ := emptying.step (w := w) (e := e)
    exact ⟨0, by omega, .idle idle notBusy⟩
  | fresh idle =>
    obtain ⟨idle, notBusy⟩ := idle.wait (busy_push busy) (busy_pop busy) (busy_dbg (e := e) busy)
    exact ⟨0, by omega, .idle idle notBusy⟩
  | idle idle notBusy =>
    rw [HeapTop.busy, idle.pfBusy, notBusy] at busy
    cases busy

theorem Phase.quiet (phase : Phase w h m) (quiet : busy h = false) : Queue.Idle w h := by
  have pfQuiet : h.pf.busy = false := by
    rw [HeapTop.busy, Bool.or_eq_false_iff] at quiet
    exact quiet.1
  have wrQuiet : h.wr.busy = false := by
    rw [HeapTop.busy, Bool.or_eq_false_iff] at quiet
    exact quiet.2
  cases phase with
  | upSetup setup => exact absurd (pfQuiet.symm.trans setup.busy) Bool.false_ne_true
  | up up => exact absurd (quiet.symm.trans up.trail.busy) Bool.false_ne_true
  | upLast last => exact absurd (quiet.symm.trans last.trail.busy) Bool.false_ne_true
  | downSetup setup => exact absurd (pfQuiet.symm.trans setup.busy) Bool.false_ne_true
  | down down => exact absurd (quiet.symm.trans down.trail.busy) Bool.false_ne_true
  | closing closing =>
    obtain ⟨_, trail⟩ := closing.trail
    exact absurd (quiet.symm.trans trail.busy) Bool.false_ne_true
  | placing placing => exact absurd (wrQuiet.symm.trans placing.wrBusy) Bool.false_ne_true
  | finishing content _ => exact absurd (wrQuiet.symm.trans content.wrBusy) Bool.false_ne_true
  | emptying emptying => exact absurd (pfQuiet.symm.trans emptying.busy) Bool.false_ne_true
  | fresh idle => exact idle
  | idle idle _ => exact idle

theorem quiet_step (idle : Queue.Idle w h) (request : Request w h e) (alike : Alike h e) :
    ∃ m', m' ≤ w + 8 ∧ Phase w (step w h e) m' := by
  cases pushes : push h e with
  | false =>
    cases pops : pop h e with
    | false =>
      obtain ⟨idle, notBusy⟩ := idle.wait pushes pops request.silent
      exact ⟨0, Nat.zero_le _, .idle idle notBusy⟩
    | true =>
      have some := request.some pops
      rw [idle.card] at some
      by_cases one : h.pf.last = 1
      · exact ⟨1, by omega, .emptying (idle.empties pushes pops request.silent one)⟩
      · exact ⟨w + 7, by omega, .downSetup (idle.pop pushes pops request.silent (by omega))⟩
  | true =>
    cases pops : pop h e with
    | false => exact ⟨w + 8, le_rfl, .upSetup (idle.push pushes pops request alike)⟩
    | true =>
      have some := request.some pops
      rw [idle.card] at some
      exact ⟨w + 7, by omega, .downSetup (idle.replace pushes pops request.silent (by omega))⟩

theorem Phase.step (phase : Phase w h m) (request : Request w h e) (alike : Alike h e) :
    ∃ m', Phase w (HeapTop.step w h e) m' := by
  cases busy : busy h with
  | true =>
    obtain ⟨m', _, phase⟩ := phase.busy_step (e := e) busy
    exact ⟨m', phase⟩
  | false =>
    obtain ⟨m', _, phase⟩ := quiet_step (phase.quiet busy) request alike
    exact ⟨m', phase⟩

theorem start_phase (junk : Junk k v) : Phase w (start junk) 1 := by
  apply Phase.fresh
  exact
    { state := rfl
      adrMode := rfl
      pfBusy := rfl
      writer := rfl
      out := rfl
      fits := Nat.two_pow_pos w
      still := fun some => absurd some (Nat.not_succ_le_zero 0)
      agree := fun i one small => absurd (one.trans small) (Nat.not_succ_le_zero 0)
      ordered := fun i big small => absurd (big.trans small) (by decide : ¬2 ≤ 0)
      bag := rfl
      copies := fun some => absurd some (Nat.not_succ_le_zero 0) }

theorem Phase.run {events : List (Event k v)} (phase : Phase w h m)
    (along : Along (HeapTop.step w) (fun h e => Request w h e ∧ Alike h e) h events) :
    ∃ m', Phase w (HeapTop.run w h events) m' := by
  refine along.invariant (fun h => ∃ m, Phase w h m) ⟨m, phase⟩ ?_
  rintro h e ⟨m, phase⟩ ⟨request, alike⟩
  exact phase.step request alike

theorem Phase.completes (phase : Phase w h m) : ∀ events : List (Event k v), m ≤ events.length →
    ∃ i, i ≤ m ∧ busy (HeapTop.run w h (events.take i)) = false := by
  intro events long
  induction events generalizing h m with
  | nil =>
    have none : m = 0 := Nat.le_zero.mp long
    subst none
    refine ⟨0, le_rfl, ?_⟩
    cases busy : busy h with
    | false => exact busy
    | true =>
      obtain ⟨_, less, _⟩ := phase.busy_step (e := ⟨false, false, false, ⟨0, 0⟩, 0, 0, 0, ⟨0, 0⟩⟩) busy
      exact absurd less (Nat.not_lt_zero _)
  | cons e events ih =>
    cases busy : HeapTop.busy h with
    | false => exact ⟨0, Nat.zero_le _, busy⟩
    | true =>
      obtain ⟨m', less, phase⟩ := phase.busy_step (e := e) busy
      obtain ⟨i, bound, quiet⟩ := ih phase (by rw [List.length_cons] at long; omega)
      exact ⟨i + 1, by omega, quiet⟩

instance (w : Nat) (h : World k v) (e : Event k v) : Decidable (Request w h e) :=
  decidable_of_iff
    ((pop h e = true → h.bag.card ≠ 0) ∧ (push h e = true → pop h e = false → h.bag.card ≠ 2 ^ w - 1) ∧ dbg h e = false)
    ⟨fun ⟨holds, room, silent⟩ => ⟨holds, room, silent⟩, fun ⟨holds, room, silent⟩ => ⟨holds, room, silent⟩⟩

instance (h : World k v) (e : Event k v) : Decidable (Alike h e) := by
  unfold Alike
  infer_instance

/-- In every run of requests the heap has to serve, in which no new place is compared with an
entry that tells otherwise than its parent, the heap that is not busy is a priority queue. -/
theorem run_queue (w : Nat) (junk : Junk k v) (events : List (Event k v))
    (along : Along (step w) (fun h e => Request w h e ∧ Alike h e) (start junk) events)
    (quiet : busy (run w (start junk) events) = false) : HeapTop.Queue w (run w (start junk) events) := by
  obtain ⟨m, phase⟩ := (start_phase junk).run along
  exact (phase.quiet quiet).queue

def blank : Entry 8 1 := ⟨0, 0⟩

def junk : Junk 8 1 :=
  { ram0 := fun _ => 0, ram1 := fun _ => 0, ram := fun _ => blank, qa0 := 0, qa1 := 0, rdVal := blank,
    entry := blank, idx := 0
    posFound := false, rdAdrMode := .inp, fin0 := false, fin1 := false, fin2 := false, en0 :=
      false, en1 := false, busy := false }

def wait : Event 8 1 := ⟨false, false, false, blank, 0, 0, 0, blank⟩

def serve (push pop : Bool) (key : BitVec 8) : List (Event 8 1) :=
  { wait with push := push, pop := pop, data := ⟨key, 0⟩ } :: List.replicate 16 wait

theorem run_queue_pop : HeapTop.Queue 3 (run 3 (start junk)
    (serve true false 30 ++ serve true false 20 ++ serve false true 0)) :=
  run_queue 3 junk (serve true false 30 ++ serve true false 20 ++ serve false true 0)
    (by decide +kernel) (by decide +kernel)

/-- The requests of a run in which an entry is lost. -/
def pushes : List (Event 8 1) :=
  serve true false 10 ++ serve true false 50 ++ serve true false 20 ++ serve true false 30

/-- The entry pushed to the fourth place is compared with the root instead of the second place,
and is not written. -/
theorem push_lost : ¬∀ events : List (Event 8 1), Along (step 3) (Request 3) (start junk) events →
    busy (run 3 (start junk) events) = false → HeapTop.Queue 3 (run 3 (start junk) events) := by
  intro all
  have queue := all pushes (by decide +kernel) (by decide +kernel)
  have lost : entries (run 3 (start junk) pushes).wr.ram (run 3 (start junk) pushes).pf.last ≠
    (run 3 (start junk) pushes).bag := by
    decide +kernel
  exact lost queue.entries

end BelProject.Heap.Runs
