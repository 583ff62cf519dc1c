import BelProject.Library.Cycles
import BelProject.Library.Runs
import BelProject.Library.Slices

/-! `eb_stream_narrow`: each word of a stream goes on as slices, the most significant first. The
slices are taken from the word while it is stalled, and the last of them when it is accepted. -/

namespace BelProject.SlaveCore.StreamNarrow
open BelProject.Library Cycles Slices

/-- `slave_i` and the stall of `master_i`. -/
structure Inputs (bus : Nat) where
  cyc : Bool
  stb : Bool
  dat : BitVec bus
  stall : Bool

structure Registers (width : Nat) where
  ack : Bool
  cyc : Bool
  drop : Bool
  stb : Bool
  last : Bool
  idx : Nat
  dat : BitVec width

/-- The next `r_cyc` and `r_drop`, by `s_cyc_cases`. A fall of the cycle line is kept until it is
reported. -/
def cycCases (drop stb cyc : Bool) : Bool × Bool :=
  match drop, stb, cyc with
  | false, false, false => (false, false)
  | false, false, true => (true, false)
  | false, true, false => (true, true)
  | false, true, true => (true, false)
  | true, false, false => (false, false)
  | true, false, true => (false, false)
  | true, true, _ => (true, true)

/-- `c_max` for `ratio` slices in a word. -/
def cMax (ratio : Nat) : Nat := ratio - 1

def reset (ratio width : Nat) : Registers width :=
  { ack := false, cyc := false, drop := false, stb := false, last := false, idx := cMax ratio, dat := 0 }

section
variable {bus width : Nat} (ratio : Nat) (r : Registers width) (i : Inputs bus)

def sStall : Bool := !r.last || i.stall || r.drop

def blocked : Bool := r.stb && i.stall

/-- There is no word to go on with. -/
def halts : Bool := decide (r.idx = cMax ratio) && !(i.cyc && i.stb && !r.drop)

def clock : Registers width :=
  { ack := i.cyc && i.stb && !sStall r i
    cyc := (cycCases r.drop r.stb i.cyc).1
    drop := (cycCases r.drop r.stb i.cyc).2
    stb := if blocked r i then r.stb else !halts ratio r i
    last := if blocked r i || halts ratio r i then r.last else decide (r.idx = 1)
    idx := if blocked r i || halts ratio r i then r.idx else if r.idx = 0 then cMax ratio else r.idx - 1
    dat := if blocked r i then r.dat else slice width i.dat r.idx }

end

/-- The registers, the word the slave port stalls, the words it accepted and the slices the master
port gave away, by cycles. -/
structure World (bus ratio width : Nat) where
  regs : Registers width
  held : Option (BitVec bus)
  taken : Log (BitVec (ratio * width))
  given : Log (BitVec width)

variable {bus ratio width : Nat}

def start (bus ratio width : Nat) : World bus ratio width := ⟨reset ratio width, none, Log.empty, Log.empty⟩

def World.clock (w : World bus ratio width) (i : Inputs bus) : World bus ratio width :=
  { regs := StreamNarrow.clock ratio w.regs i
    held := if i.cyc && i.stb && sStall w.regs i then some i.dat else none
    taken := w.taken.record i.cyc (i.stb && !sStall w.regs i) (i.dat.setWidth (ratio * width))
    given := w.given.record w.regs.cyc (w.regs.stb && !i.stall) w.regs.dat }

/-- A word that is stalled is offered again. -/
def Held (w : World bus ratio width) (i : Inputs bus) :
    Prop := ∀ dat ∈ w.held, i.cyc = true ∧ i.stb = true ∧ i.dat = dat

instance (w : World bus ratio width) (i : Inputs bus) : Decidable (Held w i) :=
  match known : w.held with
  | none => isTrue (by intro dat listed; rw [known] at listed; cases listed)
  | some dat => decidable_of_iff (i.cyc = true ∧ i.stb = true ∧ i.dat = dat)
      ⟨fun offered other listed => by rw [known] at listed; cases listed; exact offered, fun all => all dat known⟩

def rank {α : Type} (stb cyc : Bool) (given : Log α) : Nat :=
  if stb then 3 else if cyc then 2 else if given.current.isEmpty then 0 else 1

section
variable {α : Type} {stb cyc : Bool} {given given' : Log α}

theorem rank_le (stb cyc : Bool) (given : Log α) : rank stb cyc given ≤ 3 := by
  rw [rank]
  split_ifs <;> decide

theorem rank_lowers (closed : cyc = false → given'.current = []) : rank false stb given' ≤ rank stb cyc given - 1 := by
  rw [rank, rank, if_neg Bool.false_ne_true]
  cases stb with
  | true => exact Nat.le_refl 2
  | false =>
    cases cyc with
    | true =>
      simp only [Bool.false_eq_true, if_false]
      split_ifs <;> decide
    | false =>
      rw [closed rfl]
      exact Nat.zero_le _

theorem rank_eq_zero (settled : rank stb cyc given = 0) : stb = false ∧ cyc = false ∧ given.current = [] := by
  rw [rank] at settled
  split_ifs at settled with strobe high empty
  exact ⟨Bool.eq_false_iff.mpr strobe, Bool.eq_false_iff.mpr high, List.isEmpty_iff.mp empty⟩

end

def pending (r : Registers width) : List (BitVec width) := if r.stb then [r.dat] else []

/-- The slices that were taken of a word that is stalled. -/
def begun (w : World bus ratio width) : List (BitVec width) :=
  (slices ratio width (w.held.getD 0)).take (cMax ratio - w.regs.idx)

/-- The cycle on the master port is that on the slave port. -/
def Joined (r : Registers width) : Prop := r.cyc = true ∧ r.drop = false

structure Conveying (w : World bus ratio width) : Prop where
  idx_le : w.regs.idx ≤ cMax ratio
  last : w.regs.last = decide (w.regs.idx = 0)
  high : w.regs.stb = true ∨ w.regs.drop = true → w.regs.cyc = true
  /-- Once a word was begun, it is there, and a slice of it is in the register. -/
  midway : w.regs.idx ≠ cMax ratio → w.regs.stb = true ∧ w.held ≠ none ∧ Joined w.regs
  same : Joined w.regs → w.given.append (pending w.regs) = (w.taken.expand (slices ratio width)).append (begun w)
  /-- A cycle that ended on the slave port ends on the master port before another one begins. -/
  behind : ¬Joined w.regs → w.taken.current = [] ∧ (w.given.append (pending w.regs)).close =
    w.taken.expand (slices ratio width)

variable {w : World bus ratio width} {i : Inputs bus}

theorem begun_of_max (here : w.regs.idx = cMax ratio) : begun w = [] := by
  rw [begun, here, Nat.sub_self, List.take_zero]

theorem cycCases_joined {stb : Bool} : cycCases false stb true = (true, false) := by
  cases stb <;> rfl

theorem cycCases_falls {drop stb cyc : Bool} (falls : cyc = false ∨ drop = true) :
    cycCases drop stb cyc = (stb, stb) := by
  rcases falls with rfl | rfl
  · cases drop <;> cases stb <;> rfl
  · cases stb <;> cases cyc <;> rfl

theorem Conveying.stalled (conveying : Conveying w) (here : w.regs.idx ≠ 0) : sStall w.regs i = true := by
  rw [sStall, conveying.last, decide_eq_false here]
  rfl

theorem Conveying.begun_eq (conveying : Conveying w) (legal : Held w i) :
    begun w = (slices ratio width i.dat).take (cMax ratio - w.regs.idx) := by
  by_cases here : w.regs.idx = cMax ratio
  · rw [begun_of_max here, here, Nat.sub_self, List.take_zero]
  · obtain ⟨dat, known⟩ := Option.ne_none_iff_exists'.mp (conveying.midway here).2.1
    rw [begun, known, (legal dat known).2.2]
    rfl

theorem Conveying.offered (conveying : Conveying w) (legal : Held w i) (goes : halts ratio w.regs i = false) :
    i.cyc = true ∧ i.stb = true := by
  by_cases here : w.regs.idx = cMax ratio
  · rw [halts, decide_eq_true here, Bool.true_and, Bool.not_eq_false', Bool.and_eq_true, Bool.and_eq_true] at goes
    exact goes.1
  · obtain ⟨dat, known⟩ := Option.ne_none_iff_exists'.mp (conveying.midway here).2.1
    exact ⟨(legal dat known).1, (legal dat known).2.1⟩

section
variable (several : 2 ≤ ratio) (conveying : Conveying w) (legal : Held w i)
  (nodrop : w.regs.drop = false) (cyc : i.cyc = true)
  (free : blocked w.regs i = false) (flushed : (w.clock i).given =
    (w.taken.expand (slices ratio width)).append (begun w))
include several conveying legal nodrop cyc free flushed

omit several legal in
theorem Conveying.rest (halt : halts ratio w.regs i = true) : Conveying (w.clock i) := by
  have joined : Joined (w.clock i).regs := by
    rw [Joined, World.clock, clock, nodrop, cyc, cycCases_joined]
    exact ⟨rfl, rfl⟩
  have here : w.regs.idx = cMax ratio := by
    rw [halts, Bool.and_eq_true, decide_eq_true_iff] at halt
    exact halt.1
  have idle : i.stb = false := by
    rw [halts, cyc, nodrop, Bool.and_eq_true, Bool.true_and, Bool.not_false, Bool.and_true, Bool.not_eq_true'] at halt
    exact halt.2
  have stb : (w.clock i).regs.stb = false := by
    change (if blocked w.regs i then w.regs.stb else !halts ratio w.regs i) = false
    rw [free, halt]
    rfl
  have idx : (w.clock i).regs.idx = w.regs.idx := by
    change (if blocked w.regs i || halts ratio w.regs i then w.regs.idx else _) = _
    rw [free, halt]
    rfl
  have last : (w.clock i).regs.last = w.regs.last := by
    change (if blocked w.regs i || halts ratio w.regs i then w.regs.last else _) = _
    rw [free, halt]
    rfl
  have taken : (w.clock i).taken = w.taken := by
    change w.taken.record i.cyc (i.stb && _) _ = _
    rw [cyc, idle]
    rfl
  refine ⟨idx ▸ conveying.idx_le, ?_, fun _ => joined.1, fun away => absurd (idx.trans here) away,
    fun _ => ?_, fun apart => absurd joined apart⟩
  · rw [last, idx]
    exact conveying.last
  · rw [flushed, taken, pending, stb, begun_of_max here, begun_of_max (idx.trans here),
      if_neg Bool.false_ne_true, Log.append_nil]

theorem Conveying.latch (goes : halts ratio w.regs i = false) : Conveying (w.clock i) := by
  have top : cMax ratio ≠ 0 := by unfold cMax; omega
  have joined : Joined (w.clock i).regs := by
    rw [Joined, World.clock, clock, nodrop, cyc, cycCases_joined]
    exact ⟨rfl, rfl⟩
  have offer := (conveying.offered legal goes).2
  have stb : (w.clock i).regs.stb = true := by
    change (if blocked w.regs i then w.regs.stb else !halts ratio w.regs i) = true
    rw [free, goes]
    rfl
  have dat : (w.clock i).regs.dat = slice width i.dat w.regs.idx := by
    change (if blocked w.regs i then w.regs.dat else _) = _
    rw [free]
    rfl
  have idx : (w.clock i).regs.idx = if w.regs.idx = 0 then cMax ratio else w.regs.idx - 1 := by
    change (if blocked w.regs i || halts ratio w.regs i then w.regs.idx else _) = _
    rw [free, goes]
    rfl
  have last : (w.clock i).regs.last = decide (w.regs.idx = 1) := by
    change (if blocked w.regs i || halts ratio w.regs i then w.regs.last else _) = _
    rw [free, goes]
    rfl
  have le := conveying.idx_le
  have next : (slices ratio width i.dat).take (cMax ratio - w.regs.idx + 1) =
    begun w ++ [slice width i.dat w.regs.idx] := by
    have place : ratio - 1 - (cMax ratio - w.regs.idx) = w.regs.idx := by unfold cMax at le ⊢; omega
    rw [take_slices_succ _ (by unfold cMax; omega), conveying.begun_eq legal, place]
  by_cases zero : w.regs.idx = 0
  · -- The last slice is taken, and the word is accepted.
    rw [zero, if_pos rfl] at idx
    obtain ⟨strobed, -⟩ := conveying.midway (by rw [zero]; exact top.symm)
    have unstalled : i.stall = false := by
      rw [blocked, strobed, Bool.true_and] at free
      exact free
    have accepts : sStall w.regs i = false := by
      rw [sStall, conveying.last, decide_eq_true zero, unstalled, nodrop]
      rfl
    have taken : (w.clock i).taken = w.taken.append [i.dat.setWidth (ratio * width)] := by
      change w.taken.record i.cyc (i.stb && !sStall w.regs i) _ = _
      rw [cyc, offer, accepts]
      rfl
    have all : cMax ratio - 0 + 1 = ratio := by unfold cMax; omega
    rw [zero, all, take_slices_all] at next
    refine ⟨Nat.le_of_eq idx, ?_, fun _ => joined.1, fun away => absurd idx away, fun _ => ?_,
      fun apart => absurd joined apart⟩
    · rw [last, idx, decide_eq_false top, zero]
      rfl
    · rw [flushed, taken, pending, stb, dat, zero, Log.expand_append, begun_of_max idx,
        List.flatMap_singleton, slices_setWidth, next,
        Log.append_append, Log.append_nil]
      rfl
  · rw [if_neg zero] at idx
    have stalls := conveying.stalled (i := i) zero
    have taken : (w.clock i).taken = w.taken := by
      change w.taken.record i.cyc (i.stb && !sStall w.regs i) _ = _
      rw [cyc, stalls, Bool.not_true, Bool.and_false]
      rfl
    have held : (w.clock i).held = some i.dat := by
      change (if i.cyc && i.stb && sStall w.regs i then some i.dat else none) = _
      rw [cyc, offer, stalls]
      rfl
    refine ⟨by omega, ?_, fun _ => joined.1, fun _ =>
      ⟨stb, by rw [held]; exact Option.some_ne_none _, joined⟩, fun _ => ?_,
      fun apart => absurd joined apart⟩
    · rw [last, idx]
      exact decide_eq_decide.mpr (by omega)
    · have more : cMax ratio - (w.regs.idx - 1) = cMax ratio - w.regs.idx + 1 := by omega
      have after : begun (w.clock i) = begun w ++ [slice width i.dat w.regs.idx] := by
        rw [← next, begun, held, idx, more]
        rfl
      rw [flushed, taken, pending, stb, dat, Log.append_append, after]
      rfl

end

theorem Conveying.apart_taken (several : 2 ≤ ratio) (conveying : Conveying w) (apart : ¬Joined w.regs) :
    w.regs.idx = cMax ratio ∧ (w.clock i).taken = w.taken := by
  have top : cMax ratio ≠ 0 := by unfold cMax; omega
  have here : w.regs.idx = cMax ratio := by
    by_contra away
    exact apart (conveying.midway away).2.2
  refine ⟨here, ?_⟩
  change w.taken.record i.cyc (i.stb && !sStall w.regs i) _ = _
  rw [conveying.stalled (i := i) (by rw [here]; exact top), Bool.not_true, Bool.and_false, Log.record]
  cases i.cyc with
  | true => rfl
  | false => exact Log.close_of_nil (conveying.behind apart).1

theorem Conveying.unbegun (conveying : Conveying w) (legal : Held w i) (low : i.cyc = false) :
    w.regs.idx = cMax ratio := by
  by_contra away
  obtain ⟨dat, known⟩ := Option.ne_none_iff_exists'.mp (conveying.midway away).2.1
  exact Bool.false_ne_true (low.symm.trans (legal dat known).1)

theorem Conveying.fall (conveying : Conveying w) (here : w.regs.idx = cMax ratio)
    (falls : i.cyc = false ∨ w.regs.drop = true)
    (none : (w.clock i).taken.current = [])
    (same : (w.given.append (pending w.regs)).close = (w.clock i).taken.expand (slices ratio width)) :
    Conveying (w.clock i) := by
  have halt : halts ratio w.regs i = true := by
    rw [halts, decide_eq_true here]
    rcases falls with low | drop
    · rw [low]
      rfl
    · rw [drop, Bool.not_true, Bool.and_false]
      rfl
  have stb : (w.clock i).regs.stb = (w.regs.stb && i.stall) := by
    change (if blocked w.regs i then w.regs.stb else !halts ratio w.regs i) = _
    rw [halt, blocked]
    cases w.regs.stb <;> cases i.stall <;> rfl
  have idx : (w.clock i).regs.idx = w.regs.idx := by
    change (if blocked w.regs i || halts ratio w.regs i then w.regs.idx else _) = _
    rw [halt, Bool.or_true]
    rfl
  have last : (w.clock i).regs.last = w.regs.last := by
    change (if blocked w.regs i || halts ratio w.regs i then w.regs.last else _) = _
    rw [halt, Bool.or_true]
    rfl
  have cyc : (w.clock i).regs.cyc = w.regs.stb := congrArg Prod.fst (cycCases_falls falls)
  have drop : (w.clock i).regs.drop = w.regs.stb := congrArg Prod.snd (cycCases_falls falls)
  have apart : ¬Joined (w.clock i).regs := by
    rw [Joined, cyc, drop]
    cases w.regs.stb <;> simp
  have flows : ((w.clock i).given.append (pending (w.clock i).regs)).close =
    (w.given.append (pending w.regs)).close := by
    rw [pending, stb, pending]
    change ((w.given.record w.regs.cyc (w.regs.stb && !i.stall) w.regs.dat).append _).close = _
    cases strobed : w.regs.stb with
    | false =>
      rw [Bool.false_and, Bool.false_and, if_neg Bool.false_ne_true, if_neg Bool.false_ne_true,
        Log.append_nil, Log.append_nil, Log.record]
      cases w.regs.cyc with
      | true => rfl
      | false => exact Log.close_close _
    | true =>
      rw [conveying.high (.inl strobed), Bool.true_and, Bool.true_and]
      cases stall : i.stall with
      | false => rw [if_neg Bool.false_ne_true, Log.append_nil]; rfl
      | true =>
        have dat : (w.clock i).regs.dat = w.regs.dat := by
          change (if blocked w.regs i then w.regs.dat else _) = _
          rw [blocked, strobed, stall]
          rfl
        rw [dat]
        rfl
  refine ⟨idx ▸ conveying.idx_le, by rw [last, idx]; exact conveying.last, fun high => ?_,
    fun away => absurd (idx.trans here) away,
    fun joined => absurd joined apart, fun _ => ⟨none, flows.trans same⟩⟩
  rw [stb, drop] at high
  rw [cyc]
  rcases high with high | high
  · exact (Bool.and_eq_true _ _ ▸ high).1
  · exact high

theorem Conveying.wait (conveying : Conveying w) (legal : Held w i) (joined : Joined w.regs) (cyc : i.cyc = true)
    (blocks : blocked w.regs i = true) : Conveying (w.clock i) := by
  have strobed : w.regs.stb = true ∧ i.stall = true := by rwa [blocked, Bool.and_eq_true] at blocks
  have stalls : sStall w.regs i = true := by
    rw [sStall, strobed.2, Bool.or_true, Bool.true_or]
  have stb : (w.clock i).regs.stb = w.regs.stb := if_pos blocks
  have dat : (w.clock i).regs.dat = w.regs.dat := if_pos blocks
  have idx : (w.clock i).regs.idx = w.regs.idx := if_pos (by rw [blocks, Bool.true_or])
  have last : (w.clock i).regs.last = w.regs.last := if_pos (by rw [blocks, Bool.true_or])
  have joined' : Joined (w.clock i).regs := by
    rw [Joined, World.clock, clock, joined.2, cyc, cycCases_joined]
    exact ⟨rfl, rfl⟩
  have taken : (w.clock i).taken = w.taken := by
    change w.taken.record i.cyc (i.stb && !sStall w.regs i) _ = _
    rw [cyc, stalls, Bool.not_true, Bool.and_false]
    rfl
  have given : (w.clock i).given = w.given := by
    change w.given.record w.regs.cyc (w.regs.stb && !i.stall) _ = _
    rw [joined.1, strobed.2, Bool.not_true, Bool.and_false]
    rfl
  have held (away : w.regs.idx ≠ cMax ratio) : (w.clock i).held = some i.dat := by
    obtain ⟨dat, known⟩ := Option.ne_none_iff_exists'.mp (conveying.midway away).2.1
    change (if i.cyc && i.stb && sStall w.regs i then some i.dat else none) = _
    rw [cyc, (legal dat known).2.1, stalls]
    rfl
  refine ⟨idx ▸ conveying.idx_le, by rw [last, idx]; exact conveying.last, fun _ => joined'.1, fun away => ?_, fun _ => ?_,
    fun apart => absurd joined' apart⟩
  · rw [idx] at away
    exact ⟨stb.trans strobed.1, by rw [held away]; exact Option.some_ne_none _, joined'⟩
  · have still : begun (w.clock i) = begun w := by
      by_cases here : w.regs.idx = cMax ratio
      · rw [begun_of_max here, begun_of_max (idx.trans here)]
      · rw [begun, held here, idx, conveying.begun_eq legal]
        rfl
    rw [taken, given, still, pending, stb, dat]
    exact conveying.same joined

theorem Conveying.clock (several : 2 ≤ ratio) (conveying : Conveying w) (legal : Held w i) : Conveying (w.clock i) := by
  by_cases joined : Joined w.regs
  · cases cyc : i.cyc with
    | false =>
      have here := conveying.unbegun legal cyc
      have taken : (w.clock i).taken = w.taken.close := by
        change w.taken.record i.cyc _ _ = _
        rw [cyc]
        rfl
      have same := conveying.same joined
      rw [begun_of_max here, Log.append_nil] at same
      refine conveying.fall here (.inl cyc) (by rw [taken, Log.close_current]) ?_
      rw [taken, same, Log.expand_close (Log.expand_full length_slices (by omega))]
    | true =>
      cases free : blocked w.regs i with
      | true => exact conveying.wait legal joined cyc free
      | false =>
        have flushed : (w.clock i).given = (w.taken.expand (slices ratio width)).append (begun w) := by
          rw [← conveying.same joined, pending]
          change w.given.record w.regs.cyc (w.regs.stb && !i.stall) _ = _
          rw [blocked] at free
          rw [joined.1]
          cases strobed : w.regs.stb with
          | false => exact (Log.append_nil _).symm
          | true =>
            rw [strobed, Bool.true_and] at free
            rw [free]
            rfl
        cases halt : halts ratio w.regs i with
        | true => exact conveying.rest joined.2 cyc free flushed halt
        | false => exact conveying.latch several legal joined.2 cyc free flushed halt
  · obtain ⟨here, taken⟩ := conveying.apart_taken (i := i) several joined
    obtain ⟨none, same⟩ := conveying.behind joined
    by_cases falls : i.cyc = false ∨ w.regs.drop = true
    · exact conveying.fall here falls (by rw [taken]; exact none) (by rw [taken]; exact same)
    · obtain ⟨cyc, nodrop⟩ := not_or.mp falls
      rw [Bool.not_eq_false] at cyc
      rw [Bool.not_eq_true] at nodrop
      have low : w.regs.cyc = false := Bool.eq_false_iff.mpr fun high => joined ⟨high, nodrop⟩
      have idle : w.regs.stb = false := Bool.eq_false_iff.mpr fun strobed => by
        rw [conveying.high (.inl strobed)] at low
        exact Bool.false_ne_true low.symm
      have free : blocked w.regs i = false := by rw [blocked, idle, Bool.false_and]
      have flushed : (w.clock i).given = (w.taken.expand (slices ratio width)).append (begun w) := by
        rw [begun_of_max here, Log.append_nil, ← same, pending, idle, if_neg Bool.false_ne_true, Log.append_nil]
        change w.given.record w.regs.cyc _ _ = _
        rw [low]
        rfl
      cases halt : halts ratio w.regs i with
      | true => exact conveying.rest nodrop cyc free flushed halt
      | false => exact conveying.latch several legal nodrop cyc free flushed halt

theorem conveying_start (several : 2 ≤ ratio) : Conveying (start bus ratio width) := by
  refine ⟨Nat.le_refl _, ?_, ?_, fun away => absurd rfl away, fun joined =>
    absurd joined.1 Bool.false_ne_true, fun _ => ⟨rfl, rfl⟩⟩
  · exact (decide_eq_false (by change ratio - 1 ≠ 0; omega)).symm
  · rintro (high | high) <;> cases high

theorem conveying_run (several : 2 ≤ ratio) {inputs : List (Inputs bus)}
    (legal : Runs.Along World.clock Held (start bus ratio width) inputs) :
    Conveying (inputs.foldl World.clock (start bus ratio width)) :=
  legal.invariant Conveying (conveying_start several) (Conveying.clock several)

/-- The slices of the word that waits at the slave port. -/
def onOffer (w : World bus ratio width) : List (BitVec width) := (w.held.map (slices ratio width)).getD []

theorem Conveying.upto_begun (conveying : Conveying w) :
    w.given.Upto ((w.taken.expand (slices ratio width)).append (begun w)) := by
  have before := Log.upto_append w.given (pending w.regs)
  by_cases joined : Joined w.regs
  · rwa [conveying.same joined] at before
  · have closed := Log.upto_close (w.given.append (pending w.regs))
    rw [(conveying.behind joined).2] at closed
    exact (before.trans closed).trans (Log.upto_append _ _)

theorem Conveying.upto (conveying : Conveying w) :
    w.given.Upto ((w.taken.expand (slices ratio width)).append (onOffer w)) := by
  apply conveying.upto_begun.trans
  refine .inl ⟨rfl, List.prefix_append_right_inj _ |>.mpr ?_⟩
  by_cases here : w.regs.idx = cMax ratio
  · rw [begun_of_max here]
    exact List.nil_prefix
  · obtain ⟨dat, known⟩ := Option.ne_none_iff_exists'.mp (conveying.midway here).2.1
    rw [begun, onOffer, known]
    exact List.take_prefix _ _

theorem begun_short (several : 2 ≤ ratio) : (begun w).length < ratio := by
  rw [begun, List.length_take, cMax]
  omega

theorem Conveying.whole (conveying : Conveying w) : ∀ cycle ∈ w.given.ended, ratio ∣ cycle.length := by
  have words : ∀ cycle ∈ (w.taken.expand (slices ratio width)).ended, ratio ∣ cycle.length := by
    intro cycle listed
    obtain ⟨words, -, rfl⟩ := List.mem_map.mp listed
    rw [Log.length_flatMap length_slices]
    exact Nat.dvd_mul_left _ _
  intro cycle listed
  apply words
  by_cases joined : Joined w.regs
  · have same := congrArg Log.ended (conveying.same joined)
    change w.given.ended = (w.taken.expand (slices ratio width)).ended at same
    rwa [← same]
  · rw [← (conveying.behind joined).2]
    by_cases none : (w.given.append (pending w.regs)).current = []
    · rw [Log.close_of_nil none]
      exact listed
    · rw [Log.close_of_ne none]
      exact List.mem_append_left _ listed

theorem Conveying.quiet (conveying : Conveying w) (legal : Held w i) (low : i.cyc = false) :
    (w.clock i).regs.stb = (w.regs.stb && i.stall) ∧ (w.clock i).regs.cyc = w.regs.stb := by
  have halt : halts ratio w.regs i = true := by
    rw [halts, decide_eq_true (conveying.unbegun legal low), low]
    rfl
  constructor
  · change (if blocked w.regs i then w.regs.stb else !halts ratio w.regs i) = _
    rw [halt, blocked]
    cases w.regs.stb <;> cases i.stall <;> rfl
  · change (cycCases w.regs.drop w.regs.stb i.cyc).1 = w.regs.stb
    rw [low]
    cases w.regs.drop <;> cases w.regs.stb <;> rfl

theorem Conveying.rank_clock (conveying : Conveying w) (legal : Held w i) (low : i.cyc = false)
    (free : i.stall = false) :
    rank (w.clock i).regs.stb (w.clock i).regs.cyc (w.clock i).given ≤ rank w.regs.stb w.regs.cyc w.given - 1 := by
  obtain ⟨stb, cyc⟩ := conveying.quiet legal low
  rw [stb, cyc, free, Bool.and_false]
  apply rank_lowers
  intro fell
  change (w.given.record w.regs.cyc _ _).current = []
  rw [fell]
  exact Log.close_current _

theorem Conveying.out (conveying : Conveying w) (settled : rank w.regs.stb w.regs.cyc w.given = 0) :
    w.given = w.taken.expand (slices ratio width) := by
  obtain ⟨stb, cyc, closed⟩ := rank_eq_zero settled
  have apart : ¬Joined w.regs := fun joined => Bool.false_ne_true (cyc.symm.trans joined.1)
  rw [← (conveying.behind apart).2, pending, stb, if_neg Bool.false_ne_true, Log.append_nil, Log.close_of_nil closed]

theorem Conveying.drained (several : 2 ≤ ratio) {quiet : List (Inputs bus)} (conveying : Conveying w)
    (legal : Runs.Along World.clock Held w quiet) (still : ∀ i ∈ quiet, i.cyc = false ∧ i.stall = false)
    (enough : 3 ≤ quiet.length) :
    (quiet.foldl World.clock w).given = (quiet.foldl World.clock w).taken.expand (slices ratio width) := by
  have settled := (legal.and fun i listed _ => still i listed).settles Conveying
    (fun w => rank w.regs.stb w.regs.cyc w.given) conveying
    (fun conveying here => conveying.clock several here.1)
    (fun conveying here => conveying.rank_clock here.1 here.2.1 here.2.2)
    (Nat.le_trans (rank_le _ _ _) enough)
  exact (legal.invariant Conveying conveying (Conveying.clock several)).out settled

/-- How many clocks it takes when the master does not stall. -/
def clocksLeft (r : Registers width) : Nat := (if r.drop then if r.stb then 2 else 1 else 0) + r.idx

theorem Conveying.clocksLeft_lt (several : 2 ≤ ratio) (conveying : Conveying w) : clocksLeft w.regs < ratio + 2 := by
  have le := conveying.idx_le
  unfold clocksLeft
  unfold cMax at le
  split_ifs <;> omega

theorem Conveying.nearer (several : 2 ≤ ratio) (conveying : Conveying w) (cyc : i.cyc = true) (stb : i.stb = true)
    (free : blocked w.regs i = false) :
    (w.clock i).taken = w.taken.append [i.dat.setWidth (ratio * width)] ∨
      (w.clock i).taken = w.taken ∧ clocksLeft (w.clock i).regs < clocksLeft w.regs := by
  have taken : (w.clock i).taken = if sStall w.regs i then w.taken
    else w.taken.append [i.dat.setWidth (ratio * width)] := by
    change w.taken.record i.cyc (i.stb && !sStall w.regs i) _ = _
    rw [cyc, stb]
    cases sStall w.regs i <;> rfl
  have halt : halts ratio w.regs i = w.regs.drop := by
    rw [halts, cyc, stb]
    cases drop : w.regs.drop with
    | false => exact Bool.and_false _
    | true =>
      have here : w.regs.idx = cMax ratio := by
        by_contra away
        exact Bool.false_ne_true ((conveying.midway away).2.2.2.symm.trans drop)
      rw [decide_eq_true here]
      rfl
  have next : clocksLeft (w.clock i).regs = (if
    (cycCases w.regs.drop w.regs.stb i.cyc).2 then if !w.regs.drop then 2 else 1 else 0) +
      (if w.regs.drop then w.regs.idx else if w.regs.idx = 0 then cMax ratio else w.regs.idx - 1) := by
    rw [clocksLeft, World.clock, StreamNarrow.clock]
    simp only [free, halt, Bool.false_or, Bool.false_eq_true, if_false]
  rw [taken, next, clocksLeft]
  cases drop : w.regs.drop with
  | true =>
    have stalls : sStall w.regs i = true := by rw [sStall, drop, Bool.or_true]
    refine .inr ⟨if_pos stalls, ?_⟩
    rw [cyc]
    cases w.regs.stb <;> simp [cycCases]
  | false =>
    rw [cyc, cycCases_joined]
    by_cases zero : w.regs.idx = 0
    · have strobed := (conveying.midway (by rw [zero, cMax]; omega)).1
      have unstalled : i.stall = false := by rwa [blocked, strobed, Bool.true_and] at free
      have accepts : sStall w.regs i = false := by
        rw [sStall, conveying.last, decide_eq_true zero, unstalled, drop]
        rfl
      exact .inl (if_neg (by rw [accepts]; exact Bool.false_ne_true))
    · refine .inr ⟨if_pos (conveying.stalled zero), ?_⟩
      rw [if_neg zero]
      simp only [Bool.false_eq_true, if_false]
      omega

theorem taken_clock (cyc : i.cyc = true) : ∃ words, (w.clock i).taken = w.taken.append words := by
  change ∃ words, w.taken.record i.cyc (i.stb && !sStall w.regs i) _ = _
  rw [cyc]
  cases i.stb && !sStall w.regs i with
  | false => exact ⟨[], (Log.append_nil _).symm⟩
  | true => exact ⟨_, rfl⟩

theorem Conveying.accepted (several : 2 ≤ ratio) {offers : List (Inputs bus)} (conveying : Conveying w)
    (legal : Runs.Along World.clock Held w offers)
    (offered : ∀ i ∈ offers, i.cyc = true ∧ i.stb = true ∧ i.stall = false)
    (enough : ratio + 2 ≤ offers.length) : ∃ words ≠ [], (offers.foldl World.clock w).taken = w.taken.append words := by
  apply (legal.and fun i listed _ => offered i listed).reaches (fun later => Conveying later ∧ later.taken = w.taken)
    (fun later => ∃ words ≠ [], later.taken = w.taken.append words)
    (fun later => clocksLeft later.regs) ⟨conveying, rfl⟩
  · rintro later i ⟨conveying, same⟩ ⟨legal, cyc, stb, free⟩
    rcases conveying.nearer several cyc stb (by rw [blocked, free, Bool.and_false]) with taken | ⟨still, less⟩
    · exact .inl ⟨_, List.cons_ne_nil _ _, same ▸ taken⟩
    · exact .inr ⟨⟨conveying.clock several legal, still.trans same⟩, less⟩
  · rintro later i ⟨words, some, taken⟩ ⟨-, cyc, -⟩
    obtain ⟨more, next⟩ := taken_clock (w := later) cyc
    exact ⟨words ++ more, List.append_ne_nil_of_left_ne_nil some more, by rw [next, taken, Log.append_append]⟩
  · exact Nat.lt_of_lt_of_le (conveying.clocksLeft_lt several) enough

end BelProject.SlaveCore.StreamNarrow
