import BelProject.SlaveCore.StreamWiden

/-! A stream that is made narrow and wide again. Neither of the two loses a word or moves it to
another cycle, and what is behind both is what was in front of them. -/

namespace BelProject.SlaveCore.StreamWidths
open BelProject.Library Runs Cycles Slices
open StreamNarrow (cycCases cMax)
open StreamNarrow.World (clock)

variable {bus ratio width : Nat}

/-- What the slices of a run of `eb_stream_narrow` that goes on are to its words. -/
structure Emits (w : StreamNarrow.World bus ratio width) (more : List (StreamNarrow.Inputs bus)) : Prop where
  /-- They are the slices of the words accepted and of the word on offer, as far as they are out. -/
  upto : w.given.Upto ((w.taken.expand (slices ratio width)).append (StreamNarrow.onOffer w))
  /-- Once there are no more words, all of them are out, and so is the end of the cycle. -/
  drained : (∀ i ∈ more, i.cyc = false ∧ i.stall = false) → 3 ≤ more.length →
    (more.foldl clock w).given = (more.foldl clock w).taken.expand (slices ratio width)
  /-- A word that is offered is accepted. -/
  accepted : (∀ i ∈ more, i.cyc = true ∧ i.stb = true ∧ i.stall = false) → ratio + 2 ≤ more.length →
    ∃ words ≠ [], (more.foldl clock w).taken = w.taken.append words

/-- What the words of a run of `eb_stream_widen` that goes on are to its slices, when the cycles
end between words. -/
structure Reassembles (w : StreamWiden.World bus ratio width) (more : List (StreamWiden.Inputs bus)) : Prop where
  upto : StreamWiden.Whole ratio w.taken → (w.given.expand (slices ratio width)).Upto w.taken
  drained : (∀ i ∈ more, i.cyc = false ∧ i.stall = false) → 3 ≤ more.length →
    StreamWiden.Whole ratio (more.foldl StreamWiden.World.clock w).taken →
    (more.foldl StreamWiden.World.clock w).given.expand (slices ratio width) =
    (more.foldl StreamWiden.World.clock w).taken
  accepted : (∀ i ∈ more, i.cyc = true ∧ i.stb = true ∧ i.stall = false) → 3 ≤ more.length →
    ∃ slices ≠ [], (more.foldl StreamWiden.World.clock w).taken = w.taken.append slices

theorem emits (several : 2 ≤ ratio) {inputs more : List (StreamNarrow.Inputs bus)}
    (legal : Along clock StreamNarrow.Held (StreamNarrow.start bus ratio width) (inputs ++ more)) :
    Emits (inputs.foldl clock (StreamNarrow.start bus ratio width)) more := by
  obtain ⟨before, after⟩ := along_append.mp legal
  have conveying := StreamNarrow.conveying_run several before
  exact ⟨conveying.upto, fun still enough => conveying.drained several after still enough,
    fun offered enough => conveying.accepted several after offered enough⟩

theorem reassembles (several : 2 ≤ ratio) (fits : ratio * width ≤ bus) (inputs more : List (StreamWiden.Inputs bus)) :
    Reassembles (inputs.foldl StreamWiden.World.clock (StreamWiden.start bus ratio width)) more := by
  have conveying := StreamWiden.conveying_run several fits inputs
  exact ⟨conveying.upto several, fun still enough => conveying.drained several fits still enough,
    fun offered enough => StreamWiden.accepted offered enough⟩

/-- `eb_stream_narrow`, and `eb_stream_widen` on its master port. -/
structure World (bus ratio width : Nat) where
  narrow : StreamNarrow.World bus ratio width
  widen : StreamWiden.World bus ratio width

def start (bus ratio width : Nat) : World bus ratio width :=
  ⟨StreamNarrow.start bus ratio width, StreamWiden.start bus ratio width⟩

section
variable (w : World bus ratio width) (i : StreamNarrow.Inputs bus)

def widenInputs : StreamWiden.Inputs bus :=
  { cyc := w.narrow.regs.cyc, stb := w.narrow.regs.stb, dat := w.narrow.regs.dat.setWidth bus, stall := i.stall }

def narrowInputs : StreamNarrow.Inputs bus := { i with stall := StreamWiden.sStall w.widen.regs (widenInputs w i) }

/-- One clock, with the words of a source and the stall of a sink. -/
def World.clock : World bus ratio width := ⟨w.narrow.clock (narrowInputs w i), w.widen.clock (widenInputs w i)⟩

/-- A word that is stalled is offered again. -/
def Held : Prop := StreamNarrow.Held w.narrow (narrowInputs w i)

instance : Decidable (Held w i) := inferInstanceAs (Decidable (StreamNarrow.Held w.narrow (narrowInputs w i)))

end

/-- What the words behind are to the words in front. -/
structure Reproduces (w : World bus ratio width) (more : List (StreamNarrow.Inputs bus)) : Prop where
  upto : w.widen.given.Upto w.narrow.taken
  drained : (∀ i ∈ more, i.cyc = false ∧ i.stall = false) → 12 ≤ more.length →
    (more.foldl World.clock w).widen.given = (more.foldl World.clock w).narrow.taken
  accepted : (∀ i ∈ more, i.cyc = true ∧ i.stb = true ∧ i.stall = false) → ratio + 6 ≤ more.length →
    ∃ words ≠ [], (more.foldl World.clock w).narrow.taken = w.narrow.taken.append words

structure Conveying (w : World bus ratio width) : Prop where
  narrow : StreamNarrow.Conveying w.narrow
  widen : StreamWiden.Conveying w.widen
  between : w.widen.taken = w.narrow.given

section
variable {w : World bus ratio width} {i : StreamNarrow.Inputs bus} (several : 2 ≤ ratio) (fits : ratio * width ≤ bus)
include several fits

theorem width_le : width ≤ bus := by
  apply Nat.le_trans _ fits
  exact Nat.le_mul_of_pos_left width (by omega)

theorem Conveying.clock (conveying : Conveying w) (legal : Held w i) : Conveying (w.clock i) := by
  refine ⟨conveying.narrow.clock several legal, conveying.widen.clock several fits, ?_⟩
  have dat : (w.narrow.regs.dat.setWidth bus).setWidth width = w.narrow.regs.dat := by
    rw [BitVec.setWidth_setWidth_of_le _ (width_le several fits), BitVec.setWidth_eq]
  change w.widen.taken.record w.narrow.regs.cyc (w.narrow.regs.stb && !_)
    ((w.narrow.regs.dat.setWidth bus).setWidth width) =
    w.narrow.given.record w.narrow.regs.cyc (w.narrow.regs.stb && !_) w.narrow.regs.dat
  rw [dat, conveying.between]
  rfl

omit fits

omit several in
theorem Conveying.whole (conveying : Conveying w) : StreamWiden.Whole ratio w.widen.taken := by
  rw [conveying.between]
  exact conveying.narrow.whole

theorem Conveying.upto (conveying : Conveying w) : w.widen.given.Upto w.narrow.taken := by
  have before := conveying.widen.upto several conveying.whole
  rw [conveying.between] at before
  exact (before.trans conveying.narrow.upto_begun).of_expand length_slices (by omega) slices_injective
    (StreamNarrow.begun_short several)

/-- How many clocks it takes when there are no more words. -/
def rank (w : World bus ratio width) : Nat :=
  if w.narrow.regs.stb then 10 + StreamWiden.dropLeft w.widen.regs
  else if w.narrow.regs.cyc then 7 + StreamWiden.dropLeft w.widen.regs
  else StreamNarrow.rank w.widen.regs.stb w.widen.regs.cyc w.widen.given

omit several in
theorem Conveying.rank_clock (conveying : Conveying w) (legal : Held w i) (low : i.cyc = false)
    (free : i.stall = false) :
    rank (w.clock i) ≤ rank w - 1 := by
  obtain ⟨stb, cyc⟩ := conveying.narrow.quiet legal low
  have stall : (narrowInputs w i).stall = w.widen.regs.drop := by
    change (w.widen.regs.stb && i.stall || w.widen.regs.drop) = _
    rw [free, Bool.and_false, Bool.false_or]
  have widened := StreamWiden.dropLeft_clock (w := w.widen) (i := widenInputs w i) free
  have few := StreamNarrow.rank_le (w.clock i).widen.regs.stb (w.clock i).widen.regs.cyc (w.clock i).widen.given
  rw [rank, rank]
  change (if (w.narrow.clock (narrowInputs w i)).regs.stb then _ else if (w.narrow.clock
    (narrowInputs w i)).regs.cyc then _ else _) ≤ _
  rw [stb, cyc, stall]
  cases strobed : w.narrow.regs.stb with
  | true =>
    have high := conveying.narrow.high (.inl strobed)
    rcases widened with less | ⟨-, fell, -⟩
    · change StreamWiden.dropLeft (w.clock i).widen.regs ≤ _ at less
      have positive : w.widen.regs.drop = true → 0 < StreamWiden.dropLeft w.widen.regs := by
        intro drop
        rw [StreamWiden.dropLeft, drop]
        cases w.widen.regs.stb <;> decide
      cases drop : w.widen.regs.drop with
      | true =>
        have more := positive drop
        simp only [Bool.and_self, if_true]
        omega
      | false =>
        simp only [Bool.and_false, Bool.false_eq_true, if_false, if_true]
        omega
    · exact absurd (fell.symm.trans high) Bool.false_ne_true
  | false =>
    simp only [Bool.false_and, Bool.false_eq_true, if_false]
    cases high : w.narrow.regs.cyc with
    | true =>
      simp only [if_true]
      omega
    | false => exact StreamWiden.rank_clock (i := widenInputs w i) high free

omit several in
theorem rank_le (w : World bus ratio width) : rank w ≤ 12 := by
  have few := StreamNarrow.rank_le w.widen.regs.stb w.widen.regs.cyc w.widen.given
  have short := StreamWiden.dropLeft_le w.widen.regs
  rw [rank]
  split_ifs <;> omega

theorem Conveying.out (conveying : Conveying w) (settled : rank w = 0) : w.widen.given = w.narrow.taken := by
  rw [rank] at settled
  split_ifs at settled with strobe high
  · omega
  · omega
  have idle := (StreamNarrow.rank_eq_zero settled).2.1
  have apart : ¬StreamWiden.Joined w.widen.regs := fun joined => Bool.false_ne_true (idle.symm.trans joined.1)
  have apart' : ¬StreamNarrow.Joined w.narrow.regs := fun joined => high joined.1
  have ended : w.narrow.given.current = [] := by
    rw [← conveying.between]
    exact (conveying.widen.midway apart).2
  have wide := conveying.widen.out conveying.whole settled
  have slim := (conveying.narrow.behind apart').2
  rw [StreamNarrow.pending, if_neg strobe, Log.append_nil, Log.close_of_nil ended] at slim
  apply Log.expand_injective length_slices (by omega) slices_injective
  rw [wide, conveying.between, slim]

def gap (r : StreamNarrow.Registers width) : Nat := if r.drop || !r.cyc then 2 else 0

def clocksLeft (w : World bus ratio width) : Nat :=
  StreamNarrow.clocksLeft w.narrow.regs + gap w.narrow.regs + StreamWiden.dropLeft w.widen.regs

theorem Conveying.clocksLeft_lt (conveying : Conveying w) : clocksLeft w < ratio + 6 := by
  have narrow := conveying.narrow.clocksLeft_lt several
  have widen := StreamWiden.dropLeft_le w.widen.regs
  rw [clocksLeft, gap]
  split_ifs <;> omega

theorem Conveying.nearer (conveying : Conveying w) (cyc : i.cyc = true) (stb : i.stb = true) (free : i.stall = false) :
    (w.clock i).narrow.taken = w.narrow.taken.append [i.dat.setWidth (ratio * width)] ∨
      (w.clock i).narrow.taken = w.narrow.taken ∧ clocksLeft (w.clock i) < clocksLeft w := by
  have stall : (narrowInputs w i).stall = w.widen.regs.drop := by
    change (w.widen.regs.stb && i.stall || w.widen.regs.drop) = _
    rw [free, Bool.and_false, Bool.false_or]
  have widened : StreamWiden.dropLeft (w.clock i).widen.regs ≤ StreamWiden.dropLeft w.widen.regs - 1 ∨
      w.widen.regs.drop = false ∧ w.narrow.regs.cyc = false ∧ StreamWiden.dropLeft (w.clock i).widen.regs ≤ 1 :=
    StreamWiden.dropLeft_clock (i := widenInputs w i) free
  have cycle : (w.clock i).narrow.regs.cyc = (cycCases w.narrow.regs.drop w.narrow.regs.stb i.cyc).1 := rfl
  have drop : (w.clock i).narrow.regs.drop = (cycCases w.narrow.regs.drop w.narrow.regs.stb i.cyc).2 := rfl
  rw [cyc] at cycle drop
  cases blocked : StreamNarrow.blocked w.narrow.regs (narrowInputs w i) with
  | true =>
    -- The slice in the narrow stream waits for the wide one to report the end of a cycle.
    have waits : w.narrow.regs.stb = true ∧ w.widen.regs.drop = true := by
      rwa [StreamNarrow.blocked, stall, Bool.and_eq_true] at blocked
    have high := conveying.narrow.high (.inl waits.1)
    have stalls : StreamNarrow.sStall w.narrow.regs (narrowInputs w i) = true := by
      rw [StreamNarrow.sStall, stall, waits.2, Bool.or_true, Bool.true_or]
    have taken : (w.clock i).narrow.taken = w.narrow.taken := by
      change w.narrow.taken.record i.cyc (i.stb && !StreamNarrow.sStall w.narrow.regs (narrowInputs w i)) _ = _
      rw [cyc, stalls, Bool.not_true, Bool.and_false]
      rfl
    have strobe : (w.clock i).narrow.regs.stb = w.narrow.regs.stb := if_pos blocked
    have idx : (w.clock i).narrow.regs.idx = w.narrow.regs.idx := if_pos (by rw [blocked, Bool.true_or])
    have still : (w.clock i).narrow.regs.cyc = w.narrow.regs.cyc ∧ (w.clock i).narrow.regs.drop =
      w.narrow.regs.drop := by
      rw [cycle, drop, waits.1, high]
      cases w.narrow.regs.drop <;> exact ⟨rfl, rfl⟩
    have positive : 0 < StreamWiden.dropLeft w.widen.regs := by
      rw [StreamWiden.dropLeft, waits.2]
      cases w.widen.regs.stb <;> decide
    have less := widened.resolve_right fun none => Bool.false_ne_true (none.1.symm.trans waits.2)
    refine .inr ⟨taken, ?_⟩
    rw [clocksLeft, clocksLeft, gap, gap, StreamNarrow.clocksLeft, StreamNarrow.clocksLeft, strobe, idx,
      still.1, still.2]
    omega
  | false =>
    rcases conveying.narrow.nearer (i := narrowInputs w i) several cyc stb blocked with taken | ⟨same, less⟩
    · exact .inl taken
    · refine .inr ⟨same, ?_⟩
      have gaps : gap (w.clock i).narrow.regs + StreamWiden.dropLeft (w.clock i).widen.regs ≤
          gap w.narrow.regs + StreamWiden.dropLeft w.widen.regs := by
        cases dropping : w.narrow.regs.drop with
        | true =>
          have high := conveying.narrow.high (.inr dropping)
          have less := widened.resolve_right fun none => Bool.false_ne_true (none.2.1.symm.trans high)
          have here : gap w.narrow.regs = 2 := by rw [gap, dropping]; rfl
          have most : gap (w.clock i).narrow.regs ≤ 2 := by
            rw [gap]
            split_ifs <;> decide
          omega
        | false =>
          have joined : gap (w.clock i).narrow.regs = 0 := by
            rw [gap, cycle, drop, dropping, StreamNarrow.cycCases_joined]
            rfl
          rcases widened with less | ⟨-, fell, few⟩
          · omega
          · have here : gap w.narrow.regs = 2 := by rw [gap, fell, Bool.not_false, Bool.or_true]; rfl
            omega
      change StreamNarrow.clocksLeft (w.clock i).narrow.regs < _ at less
      rw [clocksLeft, clocksLeft]
      omega

include fits

theorem reproduces {inputs more : List (StreamNarrow.Inputs bus)}
    (legal : Along World.clock Held (start bus ratio width) (inputs ++ more)) :
    Reproduces (inputs.foldl World.clock (start bus ratio width)) more := by
  obtain ⟨before, after⟩ := along_append.mp legal
  have first : Conveying (start bus ratio width) :=
    ⟨StreamNarrow.conveying_start several, StreamWiden.conveying_start, rfl⟩
  have conveying := before.invariant Conveying first fun conveying legal => conveying.clock several fits legal
  refine ⟨conveying.upto several, fun still enough => ?_, fun offered enough => ?_⟩
  · have along := after.and fun i listed _ => still i listed
    have settled := along.settles Conveying rank conveying (fun conveying here => conveying.clock several fits here.1)
      (fun conveying here => conveying.rank_clock here.1 here.2.1 here.2.2) (Nat.le_trans (rank_le _) enough)
    exact (after.invariant Conveying conveying fun conveying legal =>
      conveying.clock several fits legal).out several settled
  · generalize inputs.foldl World.clock (start bus ratio width) = w at after conveying ⊢
    apply (after.and fun i listed _ => offered i listed).reaches (fun later => Conveying later ∧
      later.narrow.taken = w.narrow.taken)
      (fun later => ∃ words ≠ [], later.narrow.taken = w.narrow.taken.append words) clocksLeft ⟨conveying, rfl⟩
    · rintro later i ⟨conveying, same⟩ ⟨legal, cyc, stb, free⟩
      rcases conveying.nearer several cyc stb free with taken | ⟨still, less⟩
      · exact .inl ⟨_, List.cons_ne_nil _ _, same ▸ taken⟩
      · exact .inr ⟨⟨conveying.clock several fits legal, still.trans same⟩, less⟩
    · rintro later i ⟨words, some, taken⟩ ⟨-, cyc, -⟩
      obtain ⟨rest, next⟩ := StreamNarrow.taken_clock (w := later.narrow) (i := narrowInputs later i) cyc
      exact ⟨words ++ rest, List.append_ne_nil_of_left_ne_nil some rest, next.trans (by rw [taken, Log.append_append])⟩
    · exact Nat.lt_of_lt_of_le (conveying.clocksLeft_lt several) enough

end

/-- A stream of words made narrow is a stream of their slices, a stream of slices made wide is a
stream of their words, and one behind the other they give back the words, each in its cycle. -/
theorem widths_converted (several : 2 ≤ ratio) (fits : ratio * width ≤ bus) :
    (∀ inputs more : List (StreamNarrow.Inputs bus),
      Along clock StreamNarrow.Held (StreamNarrow.start bus ratio width) (inputs ++ more) →
      Emits (inputs.foldl clock (StreamNarrow.start bus ratio width)) more) ∧
    (∀ inputs more : List (StreamWiden.Inputs bus),
      Reassembles (inputs.foldl StreamWiden.World.clock (StreamWiden.start bus ratio width)) more) ∧
    ∀ inputs more : List (StreamNarrow.Inputs bus), Along World.clock Held (start bus ratio width) (inputs ++ more) →
      Reproduces (inputs.foldl World.clock (start bus ratio width)) more :=
  ⟨fun _ _ legal => emits several legal, reassembles several fits, fun _ _ legal => reproduces several fits legal⟩

def twoCycles : List (StreamNarrow.Inputs 32) :=
  [⟨true, true, 1, false⟩, ⟨true, true, 1, false⟩, ⟨true, true, 2, false⟩, ⟨true, true, 2, false⟩,
    ⟨false, false, 0, false⟩,
    ⟨true, true, 3, false⟩, ⟨true, true, 3, false⟩, ⟨true, true, 3, false⟩]

theorem widths_converted_core :
    Emits (twoCycles.foldl clock (StreamNarrow.start 32 2 16)) (List.replicate 12 ⟨false, false, 0, false⟩) ∧
    Reassembles (([] : List (StreamWiden.Inputs 32)).foldl StreamWiden.World.clock (StreamWiden.start 32 2 16)) [] ∧
    ((List.replicate 12 ⟨false, false, 0, false⟩).foldl World.clock
      (twoCycles.foldl World.clock (start 32 2 16))).widen.given =
      ⟨[[1, 2], [3]], []⟩ := by
  obtain ⟨emits, reassembles, reproduces⟩ := @widths_converted 32 2 16 (by decide) (by decide)
  have out := (reproduces twoCycles (List.replicate 12 ⟨false, false, 0, false⟩)
    (by decide +kernel)).drained (by decide) (by decide)
  refine ⟨emits _ _ (by decide +kernel), reassembles [] [], ?_⟩
  rw [out]
  decide +kernel

end BelProject.SlaveCore.StreamWidths
