import BelProject.Heap.HeapTop

/-! The writer behind the pathfinder. While the pathfinder walks, the RAM is the array before
the walk shifted along the places it left two clocks ago; the two places in between are still
in the pipeline of the writer. -/

namespace BelProject.Heap.Pipeline
open BelProject.Library.BinaryHeap
open Pathfinder (dpramRead dpramWrite)
open Writer (Entry)
open HeapTop

variable {k v w : Nat} {h : World k v} {e : Event k v}

theorem busy_push (busy : busy h = true) : push h e = false := by rw [push, busy]; exact Bool.and_false _

theorem busy_pop (busy : busy h = true) : pop h e = false := by rw [pop, busy]; exact Bool.and_false _

theorem busy_dbg (busy : busy h = true) : dbg h e = false := by rw [dbg, busy]; exact Bool.and_false _

theorem busy_bag (busy : busy h = true) : (step w h e).bag = h.bag := by
  show bagAfter h e = h.bag
  rw [bagAfter, busy_push busy, busy_pop busy]

/-- Both copies of the key agree with the entry at a place. -/
def Agree (h : World k v) (i : Nat) : Prop := h.pf.ram0 i = (h.wr.ram i).key ∧ h.pf.ram1 i = (h.wr.ram i).key

theorem step_ram : (step w h e).wr.ram = dpramWrite h.wr.ram h.wr.en1 h.wr.wrIdx1 (Writer.wrVal h.wr) := rfl

theorem step_ram0 : (step w h e).pf.ram0 = dpramWrite h.pf.ram0 h.wr.en1 h.wr.wrIdx1 (Writer.wrVal h.wr).key := rfl

theorem step_ram1 : (step w h e).pf.ram1 = dpramWrite h.pf.ram1 h.wr.en1 h.wr.wrIdx1 (Writer.wrVal h.wr).key := rfl

theorem ram_still (still : h.wr.en1 = false) : (step w h e).wr.ram = h.wr.ram := by
  rw [step_ram, still]
  rfl

theorem ram_write (writes : h.wr.en1 = true) :
    (step w h e).wr.ram = Function.update h.wr.ram h.wr.wrIdx1 (Writer.wrVal h.wr) := by
  rw [step_ram, writes]
  rfl

variable {i : Nat}

theorem agree_step (before : (h.wr.en1 = true ∧ h.wr.wrIdx1 = i) ∨ Agree h i) : Agree (step w h e) i := by
  unfold Agree
  rw [step_ram, step_ram0, step_ram1]
  cases writes : h.wr.en1 with
  | false =>
    rcases before with ⟨on, _⟩ | agree
    · rw [writes] at on
      cases on
    · exact agree
  | true =>
    simp only [dpramWrite, if_true]
    by_cases here : i = h.wr.wrIdx1
    · rw [here, Function.update_self, Function.update_self, Function.update_self]
      exact ⟨rfl, rfl⟩
    · rw [Function.update_of_ne here, Function.update_of_ne here, Function.update_of_ne here]
      rcases before with ⟨_, same⟩ | agree
      · exact absurd same.symm here
      · exact agree

theorem read_clear {α : Type} {ram : Nat → α} {adr wrAdr : Nat} {we : Bool} {clash : α}
    (clear : we = true → adr ≠ wrAdr) :
    dpramRead ram adr we wrAdr clash = ram adr := by
  unfold dpramRead
  cases we with
  | false => rfl
  | true =>
    have apart := clear rfl
    simp [apart]

/-- The pathfinder is at `p`, and was at the places `past` in the clocks before, latest first. -/
structure Trail (h : World k v) (a : Nat → Entry k v) (n : Nat) (moving : Entry k v) (p : Nat) (past : List Nat)
    (fin0 fin1 : Bool) : Prop where
  busy : busy h = true
  state : h.wr.state = if past.isEmpty then .idle else .copy
  mode : h.wr.rdAdrMode = .inp
  mov : h.wr.mov = moving
  en0 : h.wr.en0 = !past.isEmpty
  idx0 : ∀ q rest, past = q :: rest → h.wr.wrIdx0 = q
  en1 : h.wr.en1 = !past.tail.isEmpty
  idx1 : ∀ q r rest, past = q :: r :: rest → h.wr.wrIdx1 = r
  rdVal : ∀ q rest, past = q :: rest → h.wr.rdVal = a q
  fin0 : h.wr.fin0 = fin0
  fin1 : h.wr.fin1 = fin1
  fin2 : past ≠ [] → h.wr.fin2 = false
  ram : h.wr.ram = shift a past.tail
  agree : ∀ i, 1 ≤ i → i ≤ n → i ∉ (p :: past).take 3 → Agree h i

variable {a : Nat → Entry k v} {n p : Nat} {moving : Entry k v} {past : List Nat} {fin0 fin1 : Bool}

theorem setup_signals (w : Nat) (setup : h.pf.state = .heapUpSetup ∨ h.pf.state = .heapDownSetup) :
    Pathfinder.valid h.pf = false ∧ Pathfinder.posFound w h.pf = false := by
  have apart : (h.pf.state == .heapUp) = false ∧ (h.pf.state == .heapDown) = false := by
    rcases setup with state | state <;> rw [state] <;> exact ⟨rfl, rfl⟩
  rw [Pathfinder.valid, Pathfinder.posFound, Pathfinder.parentLeChildren, Pathfinder.lowestLevel,
    Pathfinder.childGreParent, Pathfinder.highestLevel, apart.1, apart.2, Bool.and_false,
      Bool.and_false, Bool.and_false, Bool.and_false]
  exact ⟨rfl, rfl⟩

theorem Trail.begins (setup : h.pf.state = .heapUpSetup ∨ h.pf.state = .heapDownSetup) (busy : HeapTop.busy h = true)
    (goes : Pathfinder.nextState w h.pf (pfIn h e) ≠ .idle) (writer : h.wr.state = .idle) (mov : h.wr.mov = moving)
    (en0 : h.wr.en0 = false) (fin0 : h.wr.fin0 = false) (ram : (step w h e).wr.ram = a)
    (agree : ∀ i, 1 ≤ i → i ≤ n → i ≠ p → Agree (step w h e) i) : Trail (step w h e) a n moving p [] false false := by
  obtain ⟨notValid, notFound⟩ := setup_signals w setup
  have wrNext : Writer.nextState h.wr (wrIn w h e) = .idle := by
    rw [Writer.nextState, writer]
    show (if dbg h e then _ else if Pathfinder.valid h.pf then _ else Writer.OpState.idle) = .idle
    rw [busy_dbg busy, notValid]
    rfl
  refine
    { busy := ?_, state := wrNext, mode := ?_, mov := ?_, en0 := notValid, idx0 := ?_, en1 := en0, idx1 := ?_
      rdVal := ?_, fin0 := notFound, fin1 := fin0, fin2 := fun some => absurd rfl some, ram := ram, agree := ?_ }
  · show ((Pathfinder.nextState w h.pf (pfIn h e) != .idle) || _) = true
    rw [bne_iff_ne.mpr goes, Bool.true_or]
  · show Writer.rdAdrModeOf (Writer.nextState h.wr (wrIn w h e)) = .inp
    rw [wrNext]
    rfl
  · show (if h.wr.state = .idle && push h e then e.data else if h.wr.state = .cpyLast then h.wr.rdVal
      else h.wr.mov) = moving
    rw [busy_push busy, Bool.and_false, if_neg Bool.false_ne_true, writer]
    exact mov
  · exact fun q rest none => by cases none
  · exact fun q r rest none => by cases none
  · exact fun q rest none => by cases none
  · exact fun i one small outside => agree i one small fun here => outside (by rw [here]; exact List.mem_cons_self)

section
variable (trail : Trail h a n moving p past fin0 fin1)
include trail

theorem Trail.ram_step (order : fin1 = true → fin0 = true) : (step w h e).wr.ram = shift a past := by
  have plain : Writer.wrVal h.wr = h.wr.rdVal := by
    rw [Writer.wrVal, trail.fin0, trail.fin1, if_neg]
    intro last
    rw [Bool.and_eq_true, Bool.not_eq_true'] at last
    rw [order last.1] at last
    cases last.2
  match past, trail with
  | [], trail => rw [ram_still trail.en1, trail.ram]; rfl
  | [q], trail => rw [ram_still trail.en1, trail.ram]; rfl
  | q :: r :: rest, trail =>
    rw [ram_write trail.en1, plain, trail.rdVal q _ rfl, trail.idx1 q r rest rfl, trail.ram]
    rfl

theorem Trail.agree_step (positive : 1 ≤ i) (small : i ≤ n)
    (outside : i ∉ (p :: past).take 2) : Agree (step w h e) i := by
  apply Pipeline.agree_step
  match past, trail with
  | [], trail => exact Or.inr (trail.agree i positive small outside)
  | [q], trail => exact Or.inr (trail.agree i positive small outside)
  | q :: r :: rest, trail =>
    by_cases here : r = i
    · exact Or.inl ⟨trail.en1, (trail.idx1 q r rest rfl).trans here⟩
    · refine Or.inr (trail.agree i positive small ?_)
      simp only [List.take_succ_cons, List.take_zero, List.mem_cons, List.not_mem_nil, or_false, not_or] at outside ⊢
      exact ⟨outside.1, outside.2, fun same => here same.symm⟩

theorem Trail.clear (outside : i ∉ past.tail) : h.wr.en1 = true → i ≠ h.wr.wrIdx1 := by
  intro writes same
  match past, trail, outside with
  | [], trail, _ => rw [trail.en1] at writes; cases writes
  | [q], trail, _ => rw [trail.en1] at writes; cases writes
  | q :: r :: rest, trail, outside =>
    rw [trail.idx1 q r rest rfl] at same
    exact outside (by rw [same]; exact List.mem_cons_self)

theorem Trail.old (outside : i ∉ past.tail) : h.wr.ram i = a i := by
  rw [trail.ram]
  match past, outside with
  | [], _ => rfl
  | [q], _ => rfl
  | q :: r :: rest, outside => exact shift_of_notMem (fun member => outside (List.mem_cons_of_mem _ member))

theorem Trail.read (ptr : h.pf.ptr = p) (outside : p ∉ past.tail) : (step w h e).wr.rdVal = a p := by
  have address : Writer.rdIdx h.wr (wrIn w h e) = p := by
    rw [Writer.rdIdx, trail.mode]
    exact ptr
  show dpramRead h.wr.ram (Writer.rdIdx h.wr (wrIn w h e)) h.wr.en1 h.wr.wrIdx1 e.clash = a p
  rw [address, read_clear (trail.clear outside), trail.old outside]

end

theorem Trail.step (trail : Trail h a n moving p past fin0 false) (ptr : h.pf.ptr = p)
    (valid : Pathfinder.valid h.pf = true) (outside : p ∉ past.tail) (q : Nat) :
    Trail (HeapTop.step w h e) a n moving q (p :: past) (Pathfinder.posFound w h.pf) fin0 := by
  have noPush : (wrIn w h e).push = false := busy_push trail.busy
  have noDbg : (wrIn w h e).dbgShow = false := busy_dbg trail.busy
  have en : (wrIn w h e).en = true := valid
  have next : Writer.nextState h.wr (wrIn w h e) = .copy := by
    rw [Writer.nextState, trail.state]
    match past, trail with
    | [], trail => simp only [List.isEmpty_nil, if_true, noDbg, en, Bool.false_eq_true, if_false]
    | q :: rest, trail =>
      have notDone : Writer.done h.wr = false := by rw [Writer.done, trail.fin2 (List.cons_ne_nil _ _)]; rfl
      simp only [List.isEmpty_cons, Bool.false_eq_true, if_false, notDone]
  have states : h.wr.state ≠ .cpyLast := by
    rw [trail.state]
    cases past.isEmpty <;> exact Writer.OpState.noConfusion
  refine
    { busy := ?_, state := next, mode := ?_, mov := ?_, en0 := en, idx0 := ?_, en1 := trail.en0, idx1 := ?_, rdVal := ?_
      fin0 := rfl, fin1 := trail.fin0, fin2 := ?_, ram := trail.ram_step (fun on => by cases on), agree := ?_ }
  · show (_ || (Writer.nextState h.wr (wrIn w h e) != .idle)) = true
    rw [next, Bool.or_comm]
    rfl
  · show Writer.rdAdrModeOf (Writer.nextState h.wr (wrIn w h e)) = .inp
    rw [next]
    rfl
  · show (if h.wr.state = .idle && (wrIn w h e).push then _ else if h.wr.state = .cpyLast then _ else h.wr.mov) = moving
    rw [noPush, Bool.and_false, if_neg Bool.false_ne_true, if_neg states, trail.mov]
  · intro r rest same
    rw [← (List.cons.inj same).1]
    exact ptr
  · intro r s rest same
    exact trail.idx0 s rest (List.cons.inj same).2
  · intro r rest same
    rw [← (List.cons.inj same).1]
    exact trail.read ptr outside
  · intro _
    exact trail.fin1
  · intro i positive small notIn
    apply trail.agree_step positive small
    intro member
    exact notIn (List.mem_cons_of_mem _ member)

theorem Trail.look (trail : Trail h a n moving p past fin0 fin1) (positive : 1 ≤ i) (small : i ≤ n)
    (outside : i ∉ p :: past)
    (clash : BitVec k) :
    dpramRead h.pf.ram0 i h.wr.en1 h.wr.wrIdx1 clash = (a i).key ∧
      dpramRead h.pf.ram1 i h.wr.en1 h.wr.wrIdx1 clash = (a i).key := by
  have behind : i ∉ past.tail := fun member => outside (List.mem_cons_of_mem _ (List.mem_of_mem_tail member))
  obtain ⟨first, second⟩ := trail.agree i positive small (fun member => outside (List.mem_of_mem_take member))
  rw [read_clear (trail.clear behind), read_clear (trail.clear behind), first, second, trail.old behind]
  exact ⟨rfl, rfl⟩

end BelProject.Heap.Pipeline
