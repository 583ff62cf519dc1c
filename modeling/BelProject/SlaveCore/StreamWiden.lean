import BelProject.SlaveCore.StreamNarrow

/-! `eb_stream_widen`: the slices of a stream are put together to words, the most significant
first. What a cycle leaves of a word is dropped. -/

namespace BelProject.SlaveCore.StreamWiden
open BelProject.Library Cycles Slices
open StreamNarrow (cycCases cMax cycCases_joined cycCases_falls rank rank_le rank_lowers rank_eq_zero)

/-- `slave_i` and the stall of `master_i`. -/
structure Inputs (bus : Nat) where
  cyc : Bool
  stb : Bool
  dat : BitVec bus
  stall : Bool

structure Registers (bus : Nat) where
  ack : Bool
  cyc : Bool
  drop : Bool
  stb : Bool
  idx : Nat
  dat : BitVec bus

def reset (bus ratio : Nat) : Registers bus :=
  { ack := false, cyc := false, drop := false, stb := false, idx := cMax ratio, dat := 0 }

section
variable {bus : Nat} (ratio width : Nat) (r : Registers bus) (i : Inputs bus)

def sStall : Bool := (r.stb && i.stall) || r.drop

def pushed : Bool := i.cyc && (i.stb && !sStall r i)

def clock : Registers bus :=
  { ack := i.cyc && i.stb && !sStall r i
    cyc := (cycCases r.drop r.stb i.cyc).1
    drop := (cycCases r.drop r.stb i.cyc).2
    stb := if pushed r i && decide (r.idx = 0) then true else if r.stb && !i.stall then false else r.stb
    idx := if i.cyc = false then cMax ratio else if pushed r i then (if r.idx = 0 then cMax ratio
      else r.idx - 1) else r.idx
    dat := if pushed r i then setSlice width r.dat r.idx (i.dat.setWidth width) else r.dat }

end

/-- The registers, the slices the slave port accepted and the words the master port gave away, by
cycles. -/
structure World (bus ratio width : Nat) where
  regs : Registers bus
  taken : Log (BitVec width)
  given : Log (BitVec (ratio * width))

variable {bus ratio width : Nat}

def start (bus ratio width : Nat) : World bus ratio width := ⟨reset bus ratio, Log.empty, Log.empty⟩

def World.clock (w : World bus ratio width) (i : Inputs bus) : World bus ratio width :=
  { regs := StreamWiden.clock ratio width w.regs i
    taken := w.taken.record i.cyc (i.stb && !sStall w.regs i) (i.dat.setWidth width)
    given := w.given.record w.regs.cyc (w.regs.stb && !i.stall) (w.regs.dat.setWidth (ratio * width)) }

def Whole (ratio : Nat) (log : Log (BitVec width)) : Prop := ∀ cycle ∈ log.ended, ratio ∣ cycle.length

def pending (w : World bus ratio width) : List (BitVec (ratio * width)) :=
  if w.regs.stb then [w.regs.dat.setWidth (ratio * width)] else []

def begun (w : World bus ratio width) : List (BitVec width) :=
  (slices ratio width w.regs.dat).take (cMax ratio - w.regs.idx)

/-- The cycle on the master port is that on the slave port. -/
def Joined (r : Registers bus) : Prop := r.cyc = true ∧ r.drop = false

structure Conveying (w : World bus ratio width) : Prop where
  idx_le : w.regs.idx ≤ cMax ratio
  high : w.regs.stb = true ∨ w.regs.drop = true → w.regs.cyc = true
  midway : ¬Joined w.regs → w.regs.idx = cMax ratio ∧ w.taken.current = []
  same : Joined w.regs → Whole ratio w.taken →
    w.taken = ((w.given.append (pending w)).expand (slices ratio width)).append (begun w)
  /-- A cycle that ended on the slave port ends on the master port before another one begins. -/
  behind : ¬Joined w.regs → Whole ratio w.taken →
    w.taken = (w.given.append (pending w)).close.expand (slices ratio width)

variable {w : World bus ratio width} {i : Inputs bus}

theorem begun_of_max (here : w.regs.idx = cMax ratio) : begun w = [] := by
  rw [begun, here, Nat.sub_self, List.take_zero]

theorem Whole.of_close {log : Log (BitVec width)} (whole : Whole ratio log.close) :
    Whole ratio log ∧ ratio ∣ log.current.length := by
  by_cases none : log.current = []
  · rw [Log.close_of_nil none] at whole
    rw [none]
    exact ⟨whole, Nat.dvd_zero _⟩
  · rw [Log.close_of_ne none] at whole
    exact ⟨fun cycle listed => whole cycle (List.mem_append_left _ listed),
      whole _ (List.mem_append_right _ (List.mem_singleton.mpr rfl))⟩

theorem begun_eq_nil (several : 2 ≤ ratio) {words : Log (BitVec (ratio * width))}
    (whole : ratio ∣ ((words.expand (slices ratio width)).append (begun w)).current.length) : begun w = [] := by
  have length : ((words.expand (slices ratio width)).append (begun w)).current.length =
    words.current.length * ratio + (begun w).length := by
    rw [← Log.length_flatMap length_slices]
    exact List.length_append
  have short : (begun w).length < ratio := by
    rw [begun, List.length_take, cMax]
    omega
  rw [length, Nat.dvd_add_right (Nat.dvd_mul_left _ _)] at whole
  exact List.length_eq_zero_iff.mp (Nat.eq_zero_of_dvd_of_lt whole short)

theorem slices_setSlice (fits : ratio * width ≤ bus) (dat : BitVec bus) {idx : Nat}
    (piece : BitVec width) (le : idx ≤ cMax ratio)
    (several : 2 ≤ ratio) : (slices ratio width (setSlice width dat idx piece)).take (cMax ratio - idx + 1) =
      (slices ratio width dat).take (cMax ratio - idx) ++ [piece] := by
  unfold cMax at le ⊢
  have place : ratio - 1 - (ratio - 1 - idx) = idx := by omega
  have inside {k : Nat} (below : k < ratio) : k * width + width ≤ bus := Nat.le_trans (slice_le below) fits
  rw [take_slices_succ _ (by omega), place, slice_setSlice_self dat piece (inside (by omega))]
  congr 1
  exact take_slices_congr fun k below above => slice_setSlice_of_lt dat piece (by omega) (inside below)

section
variable (several : 2 ≤ ratio) (fits : ratio * width ≤ bus) (conveying : Conveying w)
include several conveying

theorem Conveying.fall (falls : i.cyc = false ∨ w.regs.drop = true) : Conveying (w.clock i) := by
  have unpushed : pushed w.regs i = false := by
    rw [pushed, sStall]
    rcases falls with low | drop
    · rw [low, Bool.false_and]
    · rw [drop, Bool.or_true, Bool.not_true, Bool.and_false, Bool.and_false]
  have stb : (w.clock i).regs.stb = (w.regs.stb && i.stall) := by
    change (if pushed w.regs i && _ then true else if w.regs.stb && !i.stall then false else w.regs.stb) = _
    rw [unpushed]
    cases w.regs.stb <;> cases i.stall <;> rfl
  have dat : (w.clock i).regs.dat = w.regs.dat := if_neg (by rw [unpushed]; exact Bool.false_ne_true)
  have idx : (w.clock i).regs.idx = cMax ratio := by
    change (if i.cyc = false then cMax ratio else if pushed w.regs i then _ else w.regs.idx) = _
    rcases falls with low | drop
    · exact if_pos low
    · have here := (conveying.midway fun joined => Bool.false_ne_true (joined.2.symm.trans drop)).1
      rw [unpushed, if_neg Bool.false_ne_true, here, ite_self]
  have cyc : (w.clock i).regs.cyc = w.regs.stb := congrArg Prod.fst (cycCases_falls falls)
  have drop : (w.clock i).regs.drop = w.regs.stb := congrArg Prod.snd (cycCases_falls falls)
  have apart : ¬Joined (w.clock i).regs := by
    rw [Joined, cyc, drop]
    cases w.regs.stb <;> simp
  have flows : ((w.clock i).given.append (pending (w.clock i))).close = (w.given.append (pending w)).close := by
    rw [pending, stb, dat, pending]
    change ((w.given.record w.regs.cyc (w.regs.stb && !i.stall) _).append _).close = _
    cases strobed : w.regs.stb with
    | false =>
      rw [Bool.false_and, Bool.false_and, if_neg Bool.false_ne_true, Log.append_nil, Log.append_nil, Log.record]
      cases w.regs.cyc with
      | true => rfl
      | false => exact Log.close_close _
    | true =>
      rw [conveying.high (.inl strobed), Bool.true_and, Bool.true_and]
      cases i.stall with
      | false => rw [if_neg Bool.false_ne_true, Log.append_nil]; rfl
      | true => rfl
  have taken : (w.clock i).taken = w.taken.close := by
    change w.taken.record i.cyc (i.stb && !sStall w.regs i) _ = _
    cases high : i.cyc with
    | false => rfl
    | true =>
      have dropping := falls.resolve_left (by rw [high]; exact Bool.noConfusion)
      have none := (conveying.midway fun joined => Bool.false_ne_true (joined.2.symm.trans dropping)).2
      rw [pushed, high, Bool.true_and] at unpushed
      rw [unpushed, Log.close_of_nil none]
      rfl
  refine ⟨Nat.le_of_eq idx, fun high => ?_, fun _ => ⟨idx, by rw [taken, Log.close_current]⟩,
    fun joined => absurd joined apart, fun _ whole => ?_⟩
  · rw [stb, drop, Bool.and_eq_true] at high
    rw [cyc]
    rcases high with high | high
    · exact high.1
    · exact high
  · rw [taken] at whole
    obtain ⟨before, divides⟩ := whole.of_close
    rw [taken, flows]
    by_cases joined : Joined w.regs
    · have same := conveying.same joined before
      rw [same] at divides
      rw [same, begun_eq_nil several divides, Log.append_nil,
        Log.expand_close (Log.expand_full length_slices (by omega))]
    · rw [Log.close_of_nil (conveying.midway joined).2]
      exact conveying.behind joined before

omit several in
theorem Conveying.wait (joined : Joined w.regs) (cyc : i.cyc = true) (strobed : w.regs.stb = true)
    (stall : i.stall = true) :
    Conveying (w.clock i) := by
  have unpushed : pushed w.regs i = false := by
    rw [pushed, sStall, strobed, stall]
    exact (congrArg _ (Bool.and_false _)).trans (Bool.and_false _)
  have stb : (w.clock i).regs.stb = w.regs.stb := by
    change (if pushed w.regs i && _ then true else if w.regs.stb && !i.stall then false else w.regs.stb) = _
    rw [unpushed, stall, Bool.not_true, Bool.and_false]
    rfl
  have dat : (w.clock i).regs.dat = w.regs.dat := if_neg (by rw [unpushed]; exact Bool.false_ne_true)
  have idx : (w.clock i).regs.idx = w.regs.idx := by
    change (if i.cyc = false then cMax ratio else if pushed w.regs i then _ else w.regs.idx) = _
    rw [cyc, unpushed]
    rfl
  have joined' : Joined (w.clock i).regs := by
    rw [Joined, World.clock, clock, joined.2, cyc, cycCases_joined]
    exact ⟨rfl, rfl⟩
  have taken : (w.clock i).taken = w.taken := by
    change w.taken.record i.cyc (i.stb && !sStall w.regs i) _ = _
    rw [pushed, cyc, Bool.true_and] at unpushed
    rw [cyc, unpushed]
    rfl
  have given : (w.clock i).given = w.given := by
    change w.given.record w.regs.cyc (w.regs.stb && !i.stall) _ = _
    rw [joined.1, stall, Bool.not_true, Bool.and_false]
    rfl
  refine ⟨idx ▸ conveying.idx_le, fun _ => joined'.1, fun apart => absurd joined' apart, fun _ whole =>
    ?_, fun apart => absurd joined' apart⟩
  rw [taken] at whole
  rw [taken, given, pending, begun, stb, dat, idx]
  exact conveying.same joined whole

include fits

theorem Conveying.advance (nodrop : w.regs.drop = false) (cyc : i.cyc = true) (free : (w.regs.stb && i.stall) = false)
    (flushed : Whole ratio w.taken → w.taken = ((w.clock i).given.expand (slices ratio width)).append (begun w)) :
    Conveying (w.clock i) := by
  have accepts : sStall w.regs i = false := by
    rw [sStall, free, nodrop]
    rfl
  have pushes : pushed w.regs i = i.stb := by
    rw [pushed, cyc, accepts, Bool.not_false, Bool.and_true, Bool.true_and]
  have emptied : (if w.regs.stb && !i.stall then false else w.regs.stb) = false := by
    cases strobed : w.regs.stb with
    | false => exact ite_self _
    | true =>
      rw [strobed, Bool.true_and] at free
      rw [free]
      rfl
  have stb : (w.clock i).regs.stb = (i.stb && decide (w.regs.idx = 0)) := by
    change (if pushed w.regs i && decide (w.regs.idx = 0) then true
      else if w.regs.stb && !i.stall then false else w.regs.stb) = _
    rw [emptied, pushes]
    cases i.stb && decide (w.regs.idx = 0) <;> rfl
  have idx : (w.clock i).regs.idx = if i.stb then (if w.regs.idx = 0 then cMax ratio
    else w.regs.idx - 1) else w.regs.idx := by
    change (if i.cyc = false then cMax ratio else if pushed w.regs i then _ else w.regs.idx) = _
    rw [cyc, pushes]
    rfl
  have dat : (w.clock i).regs.dat = if i.stb then setSlice width w.regs.dat w.regs.idx
    (i.dat.setWidth width) else w.regs.dat := by
    change (if pushed w.regs i then _ else w.regs.dat) = _
    rw [pushes]
  have joined : Joined (w.clock i).regs := by
    rw [Joined, World.clock, clock, nodrop, cyc, cycCases_joined]
    exact ⟨rfl, rfl⟩
  have taken : (w.clock i).taken = if i.stb then w.taken.append [i.dat.setWidth width] else w.taken := by
    change w.taken.record i.cyc (i.stb && !sStall w.regs i) _ = _
    rw [cyc, accepts, Bool.not_false, Bool.and_true]
    rfl
  have le := conveying.idx_le
  refine ⟨?_, fun _ => joined.1, fun apart => absurd joined apart, fun _ whole => ?_, fun apart => absurd joined apart⟩
  · rw [idx]
    split_ifs <;> omega
  cases push : i.stb with
  | false =>
    rw [push] at stb idx dat taken
    simp only [Bool.false_and, Bool.false_eq_true, if_false] at stb idx dat taken
    rw [taken] at whole
    rw [pending, stb, if_neg Bool.false_ne_true, Log.append_nil, taken, begun, idx, dat]
    exact flushed whole
  | true =>
    rw [push] at stb idx dat taken
    simp only [Bool.true_and, if_true] at stb idx dat taken
    have before : Whole ratio w.taken := by
      rw [taken] at whole
      exact whole
    have next := slices_setSlice fits w.regs.dat (i.dat.setWidth width) le several
    by_cases zero : w.regs.idx = 0
    · rw [decide_eq_true zero] at stb
      rw [if_pos zero] at idx
      have all : cMax ratio - 0 + 1 = ratio := by unfold cMax; omega
      rw [zero, all, take_slices_all] at next
      have part : (slices ratio width w.regs.dat).take (cMax ratio - 0) = begun w := by rw [begun, zero]
      rw [begun_of_max idx, Log.append_nil, pending, stb, if_pos rfl, Log.expand_append,
        List.flatMap_singleton, slices_setWidth,
        dat, zero, next, taken, part, ← Log.append_append, ← flushed before]
    · rw [decide_eq_false zero] at stb
      rw [if_neg zero] at idx
      have more : cMax ratio - (w.regs.idx - 1) = cMax ratio - w.regs.idx + 1 := by omega
      have part : (slices ratio width w.regs.dat).take (cMax ratio - w.regs.idx) = begun w := rfl
      rw [pending, stb, if_neg Bool.false_ne_true, Log.append_nil, taken, begun, idx, dat, more, next,
        part, ← Log.append_append,
        ← flushed before]

theorem Conveying.clock : Conveying (w.clock i) := by
  by_cases falls : i.cyc = false ∨ w.regs.drop = true
  · exact conveying.fall several falls
  obtain ⟨cyc, nodrop⟩ := not_or.mp falls
  rw [Bool.not_eq_false] at cyc
  rw [Bool.not_eq_true] at nodrop
  by_cases joined : Joined w.regs
  · cases free : w.regs.stb && i.stall with
    | true =>
      rw [Bool.and_eq_true] at free
      exact conveying.wait joined cyc free.1 free.2
    | false =>
      refine conveying.advance several fits nodrop cyc free fun whole => ?_
      have given : (w.clock i).given = w.given.append (pending w) := by
        change w.given.record w.regs.cyc (w.regs.stb && !i.stall) _ = _
        rw [joined.1, pending]
        cases strobed : w.regs.stb with
        | false => exact (Log.append_nil _).symm
        | true =>
          rw [strobed, Bool.true_and] at free
          rw [free]
          rfl
      rw [given]
      exact conveying.same joined whole
  · have low : w.regs.cyc = false := Bool.eq_false_iff.mpr fun high => joined ⟨high, nodrop⟩
    have idle : w.regs.stb = false := Bool.eq_false_iff.mpr fun strobed => by
      rw [conveying.high (.inl strobed)] at low
      exact Bool.false_ne_true low.symm
    refine conveying.advance several fits nodrop cyc (by rw [idle, Bool.false_and]) fun whole => ?_
    have same := conveying.behind joined whole
    have given : (w.clock i).given = w.given.close := by
      change w.given.record w.regs.cyc _ _ = _
      rw [low]
      rfl
    rw [pending, idle, if_neg Bool.false_ne_true, Log.append_nil] at same
    rw [begun_of_max (conveying.midway joined).1, Log.append_nil, given]
    exact same

end

theorem conveying_start : Conveying (start bus ratio width) := by
  refine ⟨Nat.le_refl _, ?_, fun _ => ⟨rfl, rfl⟩, fun joined => absurd joined.1 Bool.false_ne_true, fun _ _ => rfl⟩
  rintro (high | high) <;> cases high

theorem conveying_run (several : 2 ≤ ratio) (fits : ratio * width ≤ bus) (inputs : List (Inputs bus)) :
    Conveying (inputs.foldl World.clock (start bus ratio width)) := by
  suffices ∀ w : World bus ratio width, Conveying w → Conveying (inputs.foldl World.clock w) from this _ conveying_start
  induction inputs with
  | nil => exact fun w conveying => conveying
  | cons i inputs ih => exact fun w conveying => ih _ (conveying.clock several fits)

theorem Conveying.upto (several : 2 ≤ ratio) (conveying : Conveying w) (whole : Whole ratio w.taken) :
    (w.given.expand (slices ratio width)).Upto w.taken := by
  have before := Log.upto_append (w.given.expand (slices ratio width)) ((pending w).flatMap (slices ratio width))
  rw [← Log.expand_append] at before
  by_cases joined : Joined w.regs
  · rw [conveying.same joined whole]
    exact before.trans (Log.upto_append _ _)
  · rw [conveying.behind joined whole, Log.expand_close (Log.expand_full length_slices (by omega))]
    exact before.trans (Log.upto_close _)

theorem quiet (low : i.cyc = false) (free : i.stall = false) :
    (w.clock i).regs.stb = false ∧ (w.clock i).regs.cyc = w.regs.stb := by
  constructor
  · change (if pushed w.regs i && _ then true else if w.regs.stb && !i.stall then false else w.regs.stb) = false
    rw [pushed, low, free]
    cases w.regs.stb <;> rfl
  · change (cycCases w.regs.drop w.regs.stb i.cyc).1 = w.regs.stb
    rw [low]
    cases w.regs.drop <;> cases w.regs.stb <;> rfl

theorem rank_clock (low : i.cyc = false) (free : i.stall = false) :
    rank (w.clock i).regs.stb (w.clock i).regs.cyc (w.clock i).given ≤ rank w.regs.stb w.regs.cyc w.given - 1 := by
  obtain ⟨stb, cyc⟩ := quiet (w := w) low free
  rw [stb, cyc]
  apply rank_lowers
  intro fell
  change (w.given.record w.regs.cyc _ _).current = []
  rw [fell]
  exact Log.close_current _

theorem Conveying.out (conveying : Conveying w) (whole : Whole ratio w.taken)
    (settled : rank w.regs.stb w.regs.cyc w.given = 0) :
    w.given.expand (slices ratio width) = w.taken := by
  obtain ⟨stb, cyc, closed⟩ := rank_eq_zero settled
  have apart : ¬Joined w.regs := fun joined => Bool.false_ne_true (cyc.symm.trans joined.1)
  rw [conveying.behind apart whole, pending, stb, if_neg Bool.false_ne_true, Log.append_nil, Log.close_of_nil closed]

theorem Conveying.drained (several : 2 ≤ ratio) (fits : ratio * width ≤ bus) {quiet : List (Inputs bus)}
    (conveying : Conveying w)
    (still : ∀ i ∈ quiet, i.cyc = false ∧ i.stall = false) (enough : 3 ≤ quiet.length)
    (whole : Whole ratio (quiet.foldl World.clock w).taken) :
    (quiet.foldl World.clock w).given.expand (slices ratio width) = (quiet.foldl World.clock w).taken := by
  have along := (Runs.along_true World.clock w quiet).and fun i listed _ => still i listed
  have settled := along.settles Conveying (fun w => rank w.regs.stb w.regs.cyc w.given) conveying
    (fun conveying _ => conveying.clock several fits) (fun _ here => rank_clock here.2.1 here.2.2)
    (Nat.le_trans (rank_le _ _ _) enough)
  exact (along.invariant Conveying conveying fun conveying _ => conveying.clock several fits).out whole settled

/-- How many clocks the slave port stalls when the master does not. -/
def dropLeft (r : Registers bus) : Nat := if r.drop then if r.stb then 2 else 1 else 0

theorem dropLeft_le (r : Registers bus) : dropLeft r ≤ 2 := by
  rw [dropLeft]
  split_ifs <;> decide

theorem dropLeft_clock (free : i.stall = false) : dropLeft (w.clock i).regs ≤ dropLeft w.regs - 1 ∨
    w.regs.drop = false ∧ i.cyc = false ∧ dropLeft (w.clock i).regs ≤ 1 := by
  have drop : (w.clock i).regs.drop = (cycCases w.regs.drop w.regs.stb i.cyc).2 := rfl
  cases dropping : w.regs.drop with
  | true =>
    have unpushed : pushed w.regs i = false := by
      rw [pushed, sStall, dropping, Bool.or_true, Bool.not_true, Bool.and_false, Bool.and_false]
    have stb : (w.clock i).regs.stb = false := by
      change (if pushed w.regs i && _ then true else if w.regs.stb && !i.stall then false else w.regs.stb) = _
      rw [unpushed, free]
      cases w.regs.stb <;> rfl
    rw [dropLeft, stb, drop, dropLeft, dropping]
    left
    cases w.regs.stb <;> cases i.cyc <;> decide
  | false =>
    cases cyc : i.cyc with
    | true =>
      left
      rw [dropLeft, drop, dropping, cyc, cycCases_joined]
      exact Nat.zero_le _
    | false =>
      have stb := (quiet (w := w) cyc free).1
      refine .inr ⟨rfl, rfl, ?_⟩
      rw [dropLeft, stb]
      split_ifs <;> simp_all

theorem accepted {offers : List (Inputs bus)} (offered : ∀ i ∈ offers, i.cyc = true ∧ i.stb = true ∧ i.stall = false)
    (enough : 3 ≤ offers.length) : ∃ slices ≠ [], (offers.foldl World.clock w).taken = w.taken.append slices := by
  apply ((Runs.along_true World.clock w offers).and fun i listed _ => offered i listed).reaches
    (fun later => later.taken = w.taken)
    (fun later => ∃ slices ≠ [], later.taken = w.taken.append slices) (fun later => dropLeft later.regs) rfl
  · rintro later i same ⟨-, cyc, stb, free⟩
    have taken : (later.clock i).taken = if later.regs.drop then later.taken
      else later.taken.append [i.dat.setWidth width] := by
      change later.taken.record i.cyc (i.stb && !sStall later.regs i) _ = _
      rw [cyc, stb, sStall, free, Bool.and_false]
      cases later.regs.drop <;> rfl
    cases drop : later.regs.drop with
    | false => exact .inl ⟨_, List.cons_ne_nil _ _, by rw [taken, drop, same]; rfl⟩
    | true =>
      refine .inr ⟨by rw [taken, drop, same]; rfl, ?_⟩
      have positive : 0 < dropLeft later.regs := by
        rw [dropLeft, drop]
        cases later.regs.stb <;> decide
      rcases dropLeft_clock (w := later) free with less | ⟨none, -⟩
      · omega
      · exact absurd (none.symm.trans drop) Bool.false_ne_true
  · rintro later i ⟨slices, some, taken⟩ ⟨-, cyc, stb, free⟩
    have next : ∃ more, (later.clock i).taken = later.taken.append more := by
      change ∃ more, later.taken.record i.cyc (i.stb && !sStall later.regs i) _ = _
      rw [cyc]
      cases i.stb && !sStall later.regs i with
      | false => exact ⟨[], (Log.append_nil _).symm⟩
      | true => exact ⟨_, rfl⟩
    obtain ⟨more, next⟩ := next
    exact ⟨slices ++ more, List.append_ne_nil_of_left_ne_nil some more, by rw [next, taken, Log.append_append]⟩
  · exact Nat.lt_of_lt_of_le (Nat.lt_succ_of_le (dropLeft_le _)) enough

end BelProject.SlaveCore.StreamWiden
