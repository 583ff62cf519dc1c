import BelProject.Heap.Pipeline

/-! A push. The moving entry starts at the new place and its parents are dragged down until
one of them is before it. The last place is presented for two clocks, because the pathfinder
stops one clock after it has found it. -/

namespace BelProject.Heap.Upward
open BelProject.Library.BinaryHeap
open Pathfinder (aGreMov adr0 adrModeOf clock dpramRead fGetParent main_up nextState valid)
open Writer (Entry)
open HeapTop Pipeline

variable {k v : Nat}

structure Result (w : Nat) (s : Nat → Entry k v) (n c : Nat) (moving : Entry k v)
    (bag : Multiset (Entry k v)) : Prop where
  positive : 1 ≤ c
  small : c ≤ n
  fits : n < 2 ^ w
  ordered : Ordered rank (Function.update s c moving) n
  bag : bag = moving ::ₘ others s n c

structure UpSetup (w : Nat) (h : World k v) (n : Nat) (moving : Entry k v) : Prop where
  busy : h.pf.busy = true
  state : h.pf.state = .heapUpSetup
  adrMode : h.pf.adrMode = .up
  ptr : h.pf.ptr = n
  last : h.pf.last + 1 = n
  newLast : h.pf.newLast = n
  mov : h.pf.mov = moving.key
  writer : h.wr.state = .idle
  wrMov : h.wr.mov = moving
  en0 : h.wr.en0 = false
  en1 : h.wr.en1 = true → n = 1
  fin0 : h.wr.fin0 = false
  fits : n < 2 ^ w
  ordered : Ordered rank h.wr.ram (n - 1)
  agree : ∀ i, 1 ≤ i → i < n → Agree h i
  bag : h.bag = moving ::ₘ entries h.wr.ram (n - 1)
  alike : 2 ≤ n → (rank moving ≤ rank (h.wr.ram (fGetParent (n - 1))) ↔ rank moving ≤ rank (h.wr.ram (n / 2)))

/-- The walk, at `p`. -/
structure Up (w : Nat) (h : World k v) (a : Nat → Entry k v) (n : Nat) (moving : Entry k v) (p : Nat) (past : List Nat)
    (j : Nat) : Prop where
  trail : Trail h a n moving p past false false
  state : h.pf.state = .heapUp
  adrMode : h.pf.adrMode = .up
  found : h.pf.posFound = false
  ptr : h.pf.ptr = p
  last : h.pf.last = n
  newLast : h.pf.newLast = n
  mov : h.pf.mov = moving.key
  fits : n < 2 ^ w
  positive : 1 ≤ p
  small : p ≤ n
  behind : ∀ q ∈ past, p < q
  hole : UpHole rank (shift a (p :: past)) n p moving
  bag : h.bag = moving ::ₘ others (shift a (p :: past)) n p
  seen : 2 ≤ p → (moving.key ≤ h.pf.qa0 ↔ rank moving ≤ rank (a (p / 2)))
  bound : p < 2 ^ (j + 1)

/-- The second clock at the last place. -/
structure UpLast (w : Nat) (h : World k v) (a : Nat → Entry k v) (n : Nat) (moving : Entry k v)
    (p : Nat) (past : List Nat) : Prop where
  trail : Trail h a n moving p past true false
  state : h.pf.state = .heapUp
  found : h.pf.posFound = true
  ptr : h.pf.ptr = p
  last : h.pf.last = n
  newLast : h.pf.newLast = n
  outside : p ∉ past.tail
  stays : p = 1 ∨ ¬moving.key ≤ h.pf.qa0
  mov : h.pf.mov = moving.key
  result : Result w (shift a (p :: past)) n p moving h.bag

/-- The walk is over and two places are still to be written. -/
structure Closing (w : Nat) (h : World k v) (a : Nat → Entry k v) (n : Nat) (moving : Entry k v)
    (c : Nat) (past : List Nat) : Prop where
  trail : ∃ fin1, Trail h a n moving c (c :: past) true fin1
  state : h.pf.state = .update
  newLast : h.pf.newLast = n
  result : Result w (shift a (c :: past)) n c moving h.bag

variable {w n p : Nat} {h : World k v} {e : Event k v} {a : Nat → Entry k v} {moving : Entry k v}
  {past : List Nat} {j : Nat}

theorem rank_le (x y : Entry k v) : x.key ≤ y.key ↔ rank x ≤ rank y := BitVec.le_def

theorem pfBusy_busy (busy : h.pf.busy = true) : HeapTop.busy h = true := by rw [HeapTop.busy, busy, Bool.true_or]

theorem fGetParent_eq (big : 2 ≤ p) : fGetParent p = p / 2 := if_neg (by omega)

theorem fGetParent_before (big : 2 ≤ n) : 1 ≤ fGetParent (n - 1) ∧ fGetParent (n - 1) < n := by
  unfold fGetParent
  split <;> omega

theorem up_signals (state : h.pf.state = .heapUp) : valid h.pf = true ∧
    Pathfinder.posFound w h.pf = (!aGreMov h.pf || Pathfinder.ptrUp h.pf == 1) ∧
    Pathfinder.ptrUp h.pf = if aGreMov h.pf then fGetParent h.pf.ptr else h.pf.ptr := by
  refine ⟨?_, ?_, ?_⟩
  · rw [valid, state]
    rfl
  · rw [Pathfinder.posFound, Pathfinder.parentLeChildren, Pathfinder.lowestLevel,
      Pathfinder.childGreParent, Pathfinder.highestLevel, state]
    have up : (Pathfinder.OpState.heapUp == Pathfinder.OpState.heapUp) = true := rfl
    have down : (Pathfinder.OpState.heapUp == Pathfinder.OpState.heapDown) = false := rfl
    rw [up, down, Bool.and_false, Bool.and_false, Bool.and_true, Bool.and_true, Bool.or_false, Bool.false_or]
  · rw [Pathfinder.ptrUp, state]
    rfl

theorem step_qa0 : (step w h e).pf.qa0 =
    dpramRead h.pf.ram0 (adr0 w h.pf) h.wr.en1 h.wr.wrIdx1 e.clash0 := rfl

theorem UpSetup.step (setup : UpSetup w h n moving) :
    ∃ j, j < w ∧ Up w (step w h e) (step w h e).wr.ram n moving n [] j := by
  have busy := pfBusy_busy setup.busy
  obtain ⟨notValid, notFound⟩ := setup_signals w (Or.inl setup.state)
  have next : nextState w h.pf (pfIn h e) = .heapUp := by rw [nextState, setup.state]
  have main : Pathfinder.main w h.pf (pfIn h e) = _ := Pathfinder.main_upSetup setup.state
  have same : 2 ≤ n → (HeapTop.step w h e).wr.ram = h.wr.ram := by
    intro big
    apply ram_still
    by_contra on
    have := setup.en1 (Bool.eq_true_of_not_eq_false on)
    omega
  have positive : 1 ≤ n := by have := setup.last; omega
  have width : 0 < w := by
    rcases Nat.eq_zero_or_pos w with rfl | some
    · have := setup.fits
      omega
    · exact some
  have contents : Ordered rank (HeapTop.step w h e).wr.ram (n - 1) ∧
      entries (HeapTop.step w h e).wr.ram (n - 1) = entries h.wr.ram (n - 1) := by
    rcases Nat.lt_or_ge n 2 with one | big
    · have none : n - 1 = 0 := by omega
      rw [none]
      exact ⟨fun i big small => by omega, rfl⟩
    · rw [same big]
      exact ⟨setup.ordered, rfl⟩
  refine ⟨w - 1, by omega, ?_⟩
  refine
    { trail := ?_, state := next, adrMode := ?_, found := notFound, ptr := ?_, last := ?_, newLast := ?_, mov := ?_
      fits := setup.fits, positive := positive, small := le_rfl, behind := ?_, hole := ?_, bag :=
        ?_, seen := ?_, bound := ?_ }
  · apply Trail.begins (Or.inl setup.state) busy
      (by rw [next]; decide) setup.writer setup.wrMov setup.en0 setup.fin0 rfl
    intro i one small other
    exact agree_step (Or.inr (setup.agree i one (by omega)))
  · show adrModeOf (nextState w h.pf (pfIn h e)) = .up
    rw [next]
    rfl
  · show (Pathfinder.main w h.pf (pfIn h e)).ptr = n
    rw [main]
    exact setup.ptr
  · show (Pathfinder.main w h.pf (pfIn h e)).last = n
    rw [main]
    exact setup.newLast
  · show (Pathfinder.main w h.pf (pfIn h e)).newLast = n
    rw [main]
    exact setup.newLast
  · show (Pathfinder.main w h.pf (pfIn h e)).mov = moving.key
    rw [main]
    exact setup.mov
  · exact fun q member => absurd member List.not_mem_nil
  · have hole := contents.1.upHole (e := moving)
    rw [Nat.sub_add_cancel positive] at hole
    exact hole
  · rw [busy_bag busy, setup.bag, ← contents.2]
    have split := others_last (a := (HeapTop.step w h e).wr.ram) (n := n - 1)
    rw [Nat.sub_add_cancel positive] at split
    rw [shift_one, split]
  · intro big
    obtain ⟨first, before⟩ := fGetParent_before big
    have off : h.wr.en1 = false := by
      by_contra on
      have := setup.en1 (Bool.eq_true_of_not_eq_false on)
      omega
    have address : adr0 w h.pf = fGetParent (n - 1) := by
      have last : h.pf.last = n - 1 := by have := setup.last; omega
      rw [adr0, setup.adrMode, Pathfinder.ptrUp, setup.state, if_pos rfl, last]
    rw [step_qa0, address, read_clear (fun on => by rw [off] at on; cases on),
      (setup.agree _ first before).1, rank_le, setup.alike big,
      same big]
  · have : w - 1 + 1 = w := Nat.sub_add_cancel width
    rw [this]
    exact setup.fits

theorem aGreMov_iff (mov : h.pf.mov = moving.key) : aGreMov h.pf = true ↔ moving.key ≤ h.pf.qa0 := by
  rw [aGreMov, mov, decide_eq_true_iff]

theorem up_registers (state : h.pf.state = .heapUp) {next : Pathfinder.OpState}
    (same : nextState w h.pf (pfIn h e) = next) :
    (step w h e).pf.state = next ∧ (step w h e).pf.adrMode = adrModeOf next ∧
      (step w h e).pf.ptr = Pathfinder.ptrUp h.pf ∧ (step w h e).pf.last = h.pf.last ∧
      (step w h e).pf.newLast = h.pf.newLast ∧ (step w h e).pf.mov = h.pf.mov := by
  have main : Pathfinder.main w h.pf (pfIn h e) = _ := main_up state
  refine ⟨same, ?_, ?_, ?_, ?_, ?_⟩
  · show adrModeOf (nextState w h.pf (pfIn h e)) = _
    rw [same]
  all_goals simp only [step, clock, main]

section
variable (up : Up w h a n moving p past j)
include up

theorem Up.reads {q : Nat} (next : Pathfinder.ptrUp h.pf = q) (big : 2 ≤ q) (less : q ≤ p) :
    (step w h e).pf.qa0 = (a (q / 2)).key := by
  have address : adr0 w h.pf = q / 2 := by
    rw [adr0, up.adrMode, next]
    exact fGetParent_eq big
  have outside : q / 2 ∉ p :: past := by
    intro member
    rcases List.mem_cons.mp member with same | before
    · omega
    · have := up.behind _ before
      omega
  have small := up.small
  rw [step_qa0, address]
  exact (up.trail.look (by omega) (by omega) outside e.clash0).1

theorem Up.trail_step (q : Nat) : Trail (step w h e) a n moving q (p :: past) (Pathfinder.posFound w h.pf) false := by
  apply up.trail.step up.ptr (up_signals (w := w) up.state).1
  exact fun member => absurd (up.behind p (List.mem_of_mem_tail member)) (Nat.lt_irrefl p)

theorem Up.next : nextState w h.pf (pfIn h e) = .heapUp := by
  rw [nextState, up.state]
  show (if h.pf.posFound then Pathfinder.OpState.update else .heapUp) = .heapUp
  rw [up.found]
  rfl

theorem Up.last_step {q : Nat} (next : Pathfinder.ptrUp h.pf = q)
    (final : Pathfinder.posFound w h.pf = true) (outside : q ∉ past) (stays : q = 1 ∨ ¬moving.key ≤ (step w h e).pf.qa0)
    (result : Result w (shift a (q :: p :: past)) n q moving h.bag) :
    UpLast w (step w h e) a n moving q (p :: past) := by
  obtain ⟨state, _, ptr, last, newLast, mov⟩ := up_registers (e := e) up.state up.next
  have trail := up.trail_step (e := e) q
  rw [final] at trail
  rw [← busy_bag (w := w) (e := e) up.trail.busy] at result
  exact
    { trail := trail
      state := state
      found := final
      ptr := ptr.trans next
      last := last.trans up.last
      newLast := newLast.trans up.newLast
      outside := outside
      stays := stays
      mov := mov.trans up.mov
      result := result }

theorem Up.stay (above : 2 ≤ p → rank (a (p / 2)) ≤ rank moving) :
    Result w (shift a (p :: p :: past)) n p moving h.bag := by
  refine ⟨up.positive, up.small, up.fits, ?_, ?_⟩
  · rw [shift_cons, Function.update_idem]
    apply up.hole.fill _ up.hole.below
    intro big
    rw [shift_of_notMem (fun member => by have := up.behind _ member; omega)]
    exact above big
  · rw [shift_cons, others_update]
    exact up.bag

theorem Up.drag (big : 2 ≤ p) (after : rank moving ≤ rank (a (p / 2))) :
    UpHole rank (shift a (p / 2 :: p :: past)) n (p / 2) moving ∧
      h.bag = moving ::ₘ others (shift a (p / 2 :: p :: past)) n (p / 2) := by
  have fresh : shift a (p :: past) (p / 2) = a (p / 2) :=
    shift_of_notMem (fun member => by have := up.behind _ member; omega)
  have small := up.small
  rw [shift_cons, ← fresh]
  constructor
  · exact up.hole.move big small (by rw [fresh]; exact after)
  · rw [others_move (by omega) ⟨by omega, by omega⟩ ⟨by omega, small⟩]
    exact up.bag

theorem Up.step :
    (∃ q j', j' < j ∧ Up w (step w h e) a n moving q (p :: past) j') ∨ ∃ q, UpLast w
    (step w h e) a n moving q (p :: past) := by
  obtain ⟨_, posFound, ptrUp⟩ := up_signals (w := w) up.state
  have outside : p ∉ past := fun member => absurd (up.behind p member) (Nat.lt_irrefl p)
  rw [up.ptr] at ptrUp
  by_cases root : p = 1
  · -- At the root there is nothing to compare with.
    right
    subst root
    have next : Pathfinder.ptrUp h.pf = 1 := by
      rw [ptrUp]
      split <;> rfl
    refine ⟨1, up.last_step next ?_ outside (Or.inl rfl) (up.stay (fun big => by omega))⟩
    rw [posFound, next]
    exact Bool.or_true _
  · have big : 2 ≤ p := by have := up.positive; omega
    cases after : aGreMov h.pf with
    | false =>
      right
      have before : ¬moving.key ≤ h.pf.qa0 := by
        rw [← aGreMov_iff up.mov, after]
        exact Bool.false_ne_true
      have next : Pathfinder.ptrUp h.pf = p := by rw [ptrUp, after, if_neg Bool.false_ne_true]
      have parent : ¬rank moving ≤ rank (a (p / 2)) := fun less => before ((up.seen big).mpr less)
      refine ⟨p, up.last_step next ?_ outside (Or.inr ?_) (up.stay (fun _ => by omega))⟩
      · rw [posFound, after]
        rfl
      · rw [up.reads next big le_rfl, rank_le]
        exact parent
    | true =>
      have less : rank moving ≤ rank (a (p / 2)) := (up.seen big).mp ((aGreMov_iff up.mov).mp after)
      have next : Pathfinder.ptrUp h.pf = p / 2 := by rw [ptrUp, after, if_pos rfl, fGetParent_eq big]
      obtain ⟨hole, bag⟩ := up.drag big less
      have small := up.small
      by_cases top : p / 2 = 1
      · right
        have fresh : p / 2 ∉ past := fun member => by have := up.behind _ member; omega
        refine ⟨p / 2, up.last_step next ?_ fresh (Or.inl top) ⟨by omega, by omega, up.fits, ?_, bag⟩⟩
        · rw [posFound, next, top]
          exact Bool.or_true _
        · exact hole.fill (fun more => by omega) hole.below
      · left
        obtain ⟨state, adrMode, ptr, last, newLast, mov⟩ := up_registers (e := e) up.state up.next
        have bound := up.bound
        have more : j ≠ 0 := by
          rintro rfl
          omega
        obtain ⟨j, rfl⟩ := Nat.exists_eq_succ_of_ne_zero more
        have trail := up.trail_step (e := e) (p / 2)
        have notFound : Pathfinder.posFound w h.pf = false := by
          rw [posFound, after, next]
          simp [top]
        rw [notFound] at trail
        refine ⟨p / 2, j, Nat.lt_succ_self j, ?_⟩
        exact
          { trail := trail
            state := state
            adrMode := adrMode
            found := notFound
            ptr := ptr.trans next
            last := last.trans up.last
            newLast := newLast.trans up.newLast
            mov := mov.trans up.mov
            fits := up.fits
            positive := by omega
            small := by omega
            behind := by
              intro q member
              rcases List.mem_cons.mp member with rfl | member
              · omega
              · have := up.behind q member
                omega
            hole := hole
            bag := by rw [busy_bag up.trail.busy]; exact bag
            seen := fun big' => by rw [up.reads next big' (by omega), rank_le]
            bound := by rw [pow_succ] at bound; omega }

end

theorem UpLast.step (last : UpLast w h a n moving p past) : Closing w (step w h e) a n moving p past := by
  obtain ⟨valid, posFound, ptrUp⟩ := up_signals (w := w) last.state
  have next : nextState w h.pf (pfIn h e) = .update := by
    rw [nextState, last.state]
    show (if h.pf.posFound then Pathfinder.OpState.update else .heapUp) = .update
    rw [last.found]
    rfl
  obtain ⟨state, _, _, _, newLast, _⟩ := up_registers (e := e) last.state next
  have final : Pathfinder.posFound w h.pf = true := by
    rw [posFound]
    rcases last.stays with root | before
    · have one : Pathfinder.ptrUp h.pf = 1 := by
        rw [ptrUp, last.ptr, root]
        split <;> rfl
      rw [one]
      exact Bool.or_true _
    · have off : aGreMov h.pf = false := by
        rw [← Bool.not_eq_true, aGreMov_iff last.mov]
        exact before
      rw [off]
      rfl
  have trail := last.trail.step (w := w) (e := e) last.ptr valid last.outside p
  rw [final] at trail
  refine ⟨⟨true, trail⟩, state, newLast.trans last.newLast, ?_⟩
  rw [busy_bag last.trail.busy]
  exact last.result

end BelProject.Heap.Upward
