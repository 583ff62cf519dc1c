import Mathlib.Tactic.Ring
import BelProject.Heap.Upward

/-! A pop or a replace. The moving entry starts at the root and the first of the children is
dragged up until the moving entry is before both. -/

namespace BelProject.Heap.Downward
open BelProject.Library.BinaryHeap
open Pathfinder (aGreB aGreMov adr0 adr1 adrModeOf clock clock_qa1 dpramRead fGetLChild fGetRChild
  fIsLowestLevel lowestLevel main_down nextState parentLeChildren ptrDown valid)
open Writer (Entry)
open HeapTop Pipeline Upward

variable {k v : Nat}

structure DownSetup (w : Nat) (h : World k v) (n : Nat) (moving : Entry k v) : Prop where
  busy : h.pf.busy = true
  state : h.pf.state = .heapDownSetup
  adrMode : h.pf.adrMode = .down
  ptr : h.pf.ptr = 1
  newLast : h.pf.newLast = n
  mov : h.pf.mov = moving.key
  writer : h.wr.state = .idle
  wrMov : h.wr.mov = moving
  en0 : h.wr.en0 = false
  en1 : h.wr.en1 = false
  fin0 : h.wr.fin0 = false
  fits : n < 2 ^ w
  positive : 1 ≤ n
  hole : DownHole rank h.wr.ram n 1 moving
  agree : ∀ i, 1 ≤ i → i ≤ n → Agree h i
  bag : h.bag = moving ::ₘ others h.wr.ram n 1

/-- The walk, at `p`. -/
structure Down (w : Nat) (h : World k v) (a : Nat → Entry k v) (n : Nat) (moving : Entry k v) (p : Nat)
    (past : List Nat)
    (j : Nat) : Prop where
  trail : Trail h a n moving p past false false
  state : h.pf.state = .heapDown
  adrMode : h.pf.adrMode = .down
  ptr : h.pf.ptr = p
  newLast : h.pf.newLast = n
  mov : h.pf.mov = moving.key
  fits : n < 2 ^ w
  positive : 1 ≤ p
  small : p ≤ n
  behind : ∀ q ∈ past, q < p
  hole : DownHole rank (shift a (p :: past)) n p moving
  bag : h.bag = moving ::ₘ others (shift a (p :: past)) n p
  left : 2 * p ≤ n → h.pf.qa0 = (a (2 * p)).key
  right : 2 * p + 1 ≤ n → h.pf.qa1 = (a (2 * p + 1)).key
  bound : n < p * 2 ^ (j + 1)

variable {w n p : Nat} {h : World k v} {e : Event k v} {a : Nat → Entry k v} {moving : Entry k v}
  {past : List Nat} {j : Nat}

theorem testBit_top {i x : Nat} (small : x < 2 ^ (i + 1)) : x.testBit i = decide (2 ^ i ≤ x) := by
  rw [pow_succ] at small
  rw [Nat.testBit_eq_decide_div_mod_eq, decide_eq_decide]
  rcases Nat.lt_or_ge x (2 ^ i) with less | more
  · rw [Nat.div_eq_of_lt less]
    omega
  · have one : x / 2 ^ i = 1 := Nat.div_eq_of_lt_le (by omega) (by omega)
    rw [one]
    exact ⟨fun _ => more, fun _ => rfl⟩

theorem lowest_level (positive : 1 ≤ p) (small : p ≤ n) (fits : n < 2 ^ w) :
    if fIsLowestLevel w p n then n < 2 * p else 2 * p + 1 < 2 ^ w := by
  induction w with
  | zero => omega
  | succ i ih =>
    have top := testBit_top fits
    have ptr := testBit_top (Nat.lt_of_le_of_lt small fits)
    have double : 2 ^ (i + 1) = 2 * 2 ^ i := by rw [pow_succ, Nat.mul_comm]
    rw [fIsLowestLevel, top, ptr]
    by_cases here : 2 ^ i ≤ n
    · rw [decide_eq_true here, if_pos rfl]
      by_cases low : 2 ^ i ≤ p
      · rw [decide_eq_true low, if_pos rfl]
        omega
      · rw [decide_eq_false low, if_neg Bool.false_ne_true]
        omega
    · rw [decide_eq_false here, if_neg Bool.false_ne_true]
      have rest := ih (by omega)
      split
      · rename_i low
        rw [if_pos low] at rest
        exact rest
      · rename_i low
        rw [if_neg low] at rest
        omega

theorem children_eq (room : 2 * p + 1 < 2 ^ w) : fGetLChild w p = 2 * p ∧ fGetRChild w p = 2 * p + 1 := by
  have left : 2 * p % 2 ^ w = 2 * p := Nat.mod_eq_of_lt (by omega)
  rw [fGetLChild, fGetRChild, left, Nat.mod_eq_of_lt room]
  exact ⟨rfl, rfl⟩

theorem down_signals (state : h.pf.state = .heapDown) : valid h.pf = true ∧
    Pathfinder.posFound w h.pf = (parentLeChildren w h.pf || lowestLevel w h.pf) := by
  constructor
  · rw [valid, state]
    rfl
  · rw [Pathfinder.posFound, Pathfinder.childGreParent, Pathfinder.highestLevel, state]
    have up : (Pathfinder.OpState.heapDown == Pathfinder.OpState.heapUp) = false := rfl
    rw [up, Bool.and_false, Bool.and_false, Bool.or_false, Bool.or_false]

theorem down_registers (state : h.pf.state = .heapDown) {next : Pathfinder.OpState}
    (same : nextState w h.pf (pfIn h e) = next) :
    (step w h e).pf.state = next ∧ (step w h e).pf.adrMode = adrModeOf next ∧
      (step w h e).pf.ptr = ptrDown w h.pf ∧ (step w h e).pf.newLast = h.pf.newLast ∧
      (step w h e).pf.mov = h.pf.mov := by
  have main : Pathfinder.main w h.pf (pfIn h e) = _ := main_down state
  refine ⟨same, ?_, ?_, ?_, ?_⟩
  · show adrModeOf (nextState w h.pf (pfIn h e)) = _
    rw [same]
  all_goals simp only [step, clock, main]

theorem step_qa1 {adr : Nat} (address : adr1 w h.pf = some adr) :
    (step w h e).pf.qa1 = dpramRead h.pf.ram1 adr h.wr.en1 h.wr.wrIdx1 e.clash1 := by
  have clocked := clock_qa1 w h.pf (pfIn h e)
  rw [address] at clocked
  exact clocked

/-- What a comparison tells: the walk ends, or goes to a child that is first and before the
moving entry. -/
inductive Turn (w : Nat) (h : World k v) (a : Nat → Entry k v) (n : Nat) (moving : Entry k v) (p : Nat) : Prop where
  | final (found : Pathfinder.posFound w h.pf = true) (below : ∀ i, 2 ≤ i → i ≤ n → i / 2 = p →
      rank moving ≤ rank (a i))
  | child (q : Nat) (found : Pathfinder.posFound w h.pf = false) (next : ptrDown w h.pf = q) (child : q / 2 = p)
      (small : q ≤ n) (first : ∀ i, 2 ≤ i → i ≤ n → i / 2 = p → rank (a q) ≤ rank (a i))
      (before : rank (a q) < rank moving)

theorem Down.turn (down : Down w h a n moving p past j) : Turn w h a n moving p := by
  obtain ⟨_, posFound⟩ := down_signals (w := w) down.state
  have level := lowest_level down.positive down.small down.fits
  have lowest : lowestLevel w h.pf = fIsLowestLevel w p n := by
    rw [lowestLevel, down.state, down.ptr, down.newLast]
    exact Bool.and_true _
  cases low : fIsLowestLevel w p n with
  | true =>
    rw [low, if_pos rfl] at level
    refine .final ?_ (fun i big small child => by omega)
    rw [posFound, lowest, low]
    exact Bool.or_true _
  | false =>
    rw [low, if_neg Bool.false_ne_true] at level
    obtain ⟨lChild, rChild⟩ := children_eq level
    have left := down.left
    have right := down.right
    have aMov : aGreMov h.pf = decide (moving.key ≤ h.pf.qa0) := by rw [aGreMov, down.mov]
    have bMov : Pathfinder.bGreMov w h.pf = (decide (moving.key ≤ h.pf.qa1) && decide (2 * p + 1 ≤ n)) := by
      rw [Pathfinder.bGreMov, down.mov, down.ptr, down.newLast, rChild]
    have aB : aGreB w h.pf = (decide (h.pf.qa1 ≤ h.pf.qa0) && decide (2 * p + 1 ≤ n)) := by
      rw [aGreB, down.ptr, down.newLast, rChild]
    have found : Pathfinder.posFound w h.pf = ((Pathfinder.bGreMov w h.pf || decide (n < 2 * p + 1)) &&
        (aGreMov h.pf || decide (n < 2 * p))) := by
      rw [posFound, lowest, low, Bool.or_false, parentLeChildren, down.state, down.ptr, down.newLast, lChild, rChild]
      exact Bool.and_true _
    have next : ptrDown w h.pf = if !aGreB w h.pf && !aGreMov h.pf then 2 * p
        else if aGreB w h.pf && !Pathfinder.bGreMov w h.pf then 2 * p + 1 else p := by
      rw [ptrDown, down.state, down.ptr, lChild, rChild]
      rfl
    rcases Nat.lt_trichotomy n (2 * p) with none | one | two
    · refine .final ?_ (fun i big small child => by omega)
      rw [found, decide_eq_true (show n < 2 * p + 1 by omega), decide_eq_true none, Bool.or_true, Bool.or_true]
      rfl
    · -- Only the left child exists.
      have key := left one.ge
      rw [decide_eq_false (show ¬2 * p + 1 ≤ n by omega), Bool.and_false] at aB
      rw [decide_eq_true (show n < 2 * p + 1 by omega), Bool.or_true, Bool.true_and,
        decide_eq_false (show ¬n < 2 * p by omega), Bool.or_false, aMov] at found
      rw [aB, aMov] at next
      by_cases after : moving.key ≤ h.pf.qa0
      · rw [decide_eq_true after] at found
        refine .final found (fun i big small child => ?_)
        have only : i = 2 * p := by omega
        rw [only, ← rank_le, ← key]
        exact after
      · rw [decide_eq_false after] at found next
        rw [key, rank_le, not_le] at after
        refine .child (2 * p) found next (by omega) (by omega) (fun i big small child => ?_) after
        have only : i = 2 * p := by omega
        rw [only]
    · have keyL := left (by omega)
      have keyR := right (by omega)
      rw [decide_eq_true (show 2 * p + 1 ≤ n by omega), Bool.and_true] at aB bMov
      rw [decide_eq_false (show ¬n < 2 * p + 1 by omega), Bool.or_false, decide_eq_false (show ¬n < 2 * p by omega),
        Bool.or_false, aMov, bMov] at found
      rw [aB, aMov, bMov] at next
      have both : ∀ {i : Nat}, 2 ≤ i → i / 2 = p → i = 2 * p ∨ i = 2 * p + 1 := by
        intro i big child
        omega
      have compareL : moving.key ≤ h.pf.qa0 ↔ rank moving ≤ rank (a (2 * p)) := by rw [keyL, rank_le]
      have compareR : moving.key ≤ h.pf.qa1 ↔ rank moving ≤ rank (a (2 * p + 1)) := by rw [keyR, rank_le]
      have compare : h.pf.qa1 ≤ h.pf.qa0 ↔ rank (a (2 * p + 1)) ≤ rank (a (2 * p)) := by rw [keyL, keyR, rank_le]
      rw [decide_eq_decide.mpr compareL, decide_eq_decide.mpr compareR] at found next
      rw [decide_eq_decide.mpr compare] at next
      by_cases less : rank (a (2 * p + 1)) ≤ rank (a (2 * p))
      · by_cases after : rank moving ≤ rank (a (2 * p + 1))
        · rw [decide_eq_true after, decide_eq_true (after.trans less)] at found
          refine .final found (fun i big small child => ?_)
          rcases both big child with rfl | rfl
          · exact after.trans less
          · exact after
        · rw [decide_eq_false after] at found next
          rw [decide_eq_true less] at next
          refine .child (2 * p + 1) found next (by omega) (by omega) (fun i big small child => ?_) (not_le.mp after)
          rcases both big child with rfl | rfl
          · exact less
          · exact le_rfl
      · have less' := (not_le.mp less).le
        by_cases after : rank moving ≤ rank (a (2 * p))
        · rw [decide_eq_true after, decide_eq_true (after.trans less')] at found
          refine .final found (fun i big small child => ?_)
          rcases both big child with rfl | rfl
          · exact after
          · exact after.trans less'
        · rw [decide_eq_false after] at found next
          rw [decide_eq_false less] at next
          rw [Bool.and_false] at found
          refine .child (2 * p) found next (by omega) (by omega) (fun i big small child => ?_) (not_le.mp after)
          rcases both big child with rfl | rfl
          · exact le_rfl
          · exact less'

theorem Down.trail_step (down : Down w h a n moving p past j) (q : Nat) :
    Trail (step w h e) a n moving q (p :: past) (Pathfinder.posFound w h.pf) false := by
  apply down.trail.step down.ptr (down_signals (w := w) down.state).1
  exact fun member => absurd (down.behind p (List.mem_of_mem_tail member)) (Nat.lt_irrefl p)

theorem Down.fresh (down : Down w h a n moving p past j) {i : Nat} (below : p ≤ i) : shift a (p :: past) i = a i :=
  shift_of_notMem (fun member => by have := down.behind i member; omega)

theorem reads_children (trail : Trail h a n moving p past false false) (adrMode : h.pf.adrMode = .down) {q : Nat}
    (positive : 1 ≤ q) (fits : n < 2 ^ w) (next : ptrDown w h.pf = q)
    (behind : ∀ r ∈ p :: past, r ≤ q) :
    (2 * q ≤ n → (step w h e).pf.qa0 = (a (2 * q)).key) ∧
    (2 * q + 1 ≤ n → (step w h e).pf.qa1 = (a (2 * q + 1)).key) := by
  have outside : ∀ {i : Nat}, q < i → i ∉ p :: past := fun less member => by have := behind _ member; omega
  constructor
  · intro some
    have address : adr0 w h.pf = 2 * q := by
      rw [adr0, adrMode, next]
      exact Nat.mod_eq_of_lt (by omega)
    rw [step_qa0, address]
    exact (trail.look (by omega) some (outside (by omega)) e.clash0).1
  · intro some
    have address : adr1 w h.pf = Option.some (2 * q + 1) := by
      rw [adr1, adrMode, next]
      exact congrArg Option.some (children_eq (by omega)).2
    rw [step_qa1 address]
    exact (trail.look (by omega) some (outside (by omega)) e.clash1).2

theorem Down.step (down : Down w h a n moving p past j) :
    (∃ q j', j' < j ∧ Down w (step w h e) a n moving q (p :: past) j') ∨ Closing w (step w h e) a n moving p past := by
  have nextState : nextState w h.pf (pfIn h e) = if Pathfinder.posFound w h.pf then .update else .heapDown := by
    rw [nextState, down.state]
  have busy := busy_bag (w := w) (e := e) down.trail.busy
  cases down.turn with
  | final found below =>
    right
    rw [found, if_pos rfl] at nextState
    obtain ⟨state, _, _, newLast, _⟩ := down_registers (e := e) down.state nextState
    have trail := down.trail_step (e := e) p
    rw [found] at trail
    refine ⟨⟨false, trail⟩, state, newLast.trans down.newLast, down.positive, down.small, down.fits, ?_, ?_⟩
    · apply down.hole.fill down.hole.above
      intro i big small child
      rw [down.fresh (by omega)]
      exact below i big small child
    · rw [busy]
      exact down.bag
  | child q found next child small first before =>
    left
    rw [found, if_neg Bool.false_ne_true] at nextState
    obtain ⟨state, adrMode, ptr, newLast, mov⟩ := down_registers (e := e) down.state nextState
    have positive := down.positive
    have trail := down.trail_step (e := e) q
    rw [found] at trail
    have fresh : shift a (p :: past) q = a q := down.fresh (by omega)
    have behind : ∀ r ∈ p :: past, r < q := by
      intro r member
      rcases List.mem_cons.mp member with rfl | member
      · omega
      · have := down.behind r member
        omega
    have bound := down.bound
    have more : j ≠ 0 := by
      rintro rfl
      omega
    obtain ⟨j, rfl⟩ := Nat.exists_eq_succ_of_ne_zero more
    have reads := reads_children (e := e) down.trail down.adrMode (by omega) down.fits next
      (fun r member => (behind r member).le)
    refine ⟨q, j, Nat.lt_succ_self j, ?_⟩
    exact
      { trail := trail
        state := state
        adrMode := adrMode
        ptr := ptr.trans next
        newLast := newLast.trans down.newLast
        mov := mov.trans down.mov
        fits := down.fits
        positive := by omega
        small := small
        behind := behind
        hole := by
          rw [shift_cons, ← fresh]
          apply down.hole.move positive child small
          · intro i big small' child'
            rw [fresh, down.fresh (by omega)]
            exact first i big small' child'
          · rw [fresh]
            exact before.le
        bag := by
          rw [busy, shift_cons, ← fresh, others_move (by omega) ⟨by omega, small⟩ ⟨positive, down.small⟩]
          exact down.bag
        left := reads.1
        right := reads.2
        bound := by
          have twice : 2 * p * 2 ^ (j + 1) ≤ q * 2 ^ (j + 1) := Nat.mul_le_mul_right _ (by omega)
          have same : p * 2 ^ (j + 1 + 1) = 2 * p * 2 ^ (j + 1) := by rw [pow_succ (2 : Nat) (j + 1)]; ring
          rw [same] at bound
          omega }

theorem DownSetup.step (setup : DownSetup w h n moving) :
    ∃ j, j < w ∧ Down w (step w h e) h.wr.ram n moving 1 [] j := by
  have busy := pfBusy_busy setup.busy
  have next : nextState w h.pf (pfIn h e) = .heapDown := by rw [nextState, setup.state]
  have main : Pathfinder.main w h.pf (pfIn h e) = h.pf := Pathfinder.main_downSetup setup.state
  have still : (HeapTop.step w h e).wr.ram = h.wr.ram := ram_still setup.en1
  have width : 0 < w := by
    rcases Nat.eq_zero_or_pos w with rfl | some
    · have := setup.fits
      have := setup.positive
      omega
    · exact some
  have root : ptrDown w h.pf = 1 := by rw [ptrDown, setup.state, if_pos rfl]
  have clear : ∀ {i : Nat}, h.wr.en1 = true → i ≠ h.wr.wrIdx1 := fun on => by rw [setup.en1] at on; cases on
  refine ⟨w - 1, by omega, ?_⟩
  refine
    { trail := ?_, state := next, adrMode := ?_, ptr := ?_, newLast := ?_, mov := ?_,
      fits := setup.fits, positive := le_rfl
      small := setup.positive, behind := ?_, hole := setup.hole, bag := ?_, left := ?_, right := ?_, bound := ?_ }
  · exact Trail.begins (Or.inr setup.state) busy
      (by rw [next]; decide) setup.writer setup.wrMov setup.en0 setup.fin0 still
      fun i one small _ => agree_step (Or.inr (setup.agree i one small))
  · show adrModeOf (nextState w h.pf (pfIn h e)) = .down
    rw [next]
    rfl
  · show (Pathfinder.main w h.pf (pfIn h e)).ptr = 1
    rw [main]
    exact setup.ptr
  · show (Pathfinder.main w h.pf (pfIn h e)).newLast = n
    rw [main]
    exact setup.newLast
  · show (Pathfinder.main w h.pf (pfIn h e)).mov = moving.key
    rw [main]
    exact setup.mov
  · exact fun q member => absurd member List.not_mem_nil
  · rw [busy_bag busy]
    exact setup.bag
  · intro some
    have fits := setup.fits
    have address : adr0 w h.pf = 2 * 1 := by
      rw [adr0, setup.adrMode, root]
      exact Nat.mod_eq_of_lt (by omega)
    rw [step_qa0, address, read_clear clear, (setup.agree _ (by omega) some).1]
  · intro some
    have fits := setup.fits
    have address : adr1 w h.pf = Option.some (2 * 1 + 1) := by
      rw [adr1, setup.adrMode, root]
      exact congrArg Option.some (children_eq (by omega)).2
    rw [step_qa1 address, read_clear clear, (setup.agree _ (by omega) some).2]
  · have : w - 1 + 1 = w := Nat.sub_add_cancel width
    rw [this, one_mul]
    exact setup.fits

end BelProject.Heap.Downward
