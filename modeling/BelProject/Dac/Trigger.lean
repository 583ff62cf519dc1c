import BelProject.Dac.Line
import BelProject.Library.Runs

/-! External convert mode. A load waits for a trigger, which `Trig_DAC` stores until the state
machine looks at it. An edge in a shift is stored in `wait_for_end_of_shift`, where nothing looks at
it, and `Trig_DAC` stays behind a load unless there is another edge in `Load_End`. -/

namespace BelProject.Dac.Trigger
open Dac714 Line Library.Runs

/-- What a watcher has seen since the mode was selected: edges and loads, an edge behind the last
load, an edge in the shift at hand. -/
structure Watch where
  line : Seen
  edges : ℕ
  loads : ℕ
  armed : Bool
  early : Bool

def Watch.start : Watch := ⟨⟨[], []⟩, 0, 0, false, false⟩

section
variable (s s' : Registers)

def edge : Bool := s.cntrl.dacConvExtern && s.trig.edge

/-- A load in external convert mode, by the clock between two states. -/
def load : Bool := s.cntrl.dacConvExtern && Line.loads s.spi s'.spi

def decides : Bool := running s && (s.spi.spiSm == .load && spiClkEna s)

def Watch.next (w : Watch) : Watch where
  line := w.line.next s.spi s'.spi
  edges := if s'.cntrl.dacConvExtern then (if edge s then w.edges + 1 else w.edges) else 0
  loads := if s'.cntrl.dacConvExtern then (if load s s' then w.loads + 1 else w.loads) else 0
  armed := s'.cntrl.dacConvExtern && (!load s s' && (w.armed || edge s))
  early := s'.cntrl.dacConvExtern && (s'.spi.spiSm != .idle &&
    (!decides s && (w.early || edge s && shifting s.spi.spiSm)))

/-- The discipline of the load line in a clock. -/
structure Disciplined (w : Watch) : Prop where
  once : (w.next s s').loads ≤ (w.next s s').edges
  armed : load s s' = true → w.armed = true
  whole : load s s' = true → s.spi.nCs = true ∧ w.line.bits.length = 16
  atEnd : w.early = true → s.cntrl.dacConvExtern = true → decides s = true → load s s' = true

/-- The branches that go wrong are not taken: no edge in a shift, and `Trig_DAC` is taken back by an
edge before `Load_End` is left. -/
structure Heeds : Prop where
  shift : edge s = true → shifting s.spi.spiSm = false
  cleared : s.cntrl.dacConvExtern = true → s.spi.spiSm = .loadEnd → spiClkEna s = true →
    s.trig.trigDac = true → s.trig.edge = true

end

def watched (g : Generics) (x : Registers × Watch) (i : Inputs) : Registers × Watch :=
  (clock g x.1 i, x.2.next x.1 (clock g x.1 i))

/-- What is kept in a run that heeds the conditions. -/
structure Kept (s : Registers) (w : Watch) : Prop where
  phase : Phase s.spi w.line.bits.length
  armed : s.cntrl.dacConvExtern = true → s.trig.trigDac = true → s.spi.spiSm ≠ .loadEnd → w.armed = true
  early : w.early = false
  counts : w.loads + w.armed.toNat ≤ w.edges

variable {g : Generics} {s : Registers} {w : Watch} {i : Inputs}

theorem phase_next (phase : Phase s.spi w.line.bits.length) :
    Phase (clock g s i).spi (w.next s (clock g s i)).line.bits.length := by
  change Phase (spiNext s i) (w.line.next s.spi (spiNext s i)).bits.length
  rw [spiNext]
  split_ifs
  · exact phase.clock
  · exact phase_reset _

theorem load_only (phase : Phase s.spi w.line.bits.length) (falls : load s (clock g s i) = true) :
    s.cntrl.dacConvExtern = true ∧ s.trig.trigDac = true ∧ s.spi.spiSm = .load ∧
      (clock g s i).spi.spiSm = .loadEnd := by
  rw [load, Bool.and_eq_true] at falls
  obtain ⟨convExtern, falls⟩ := falls
  change Line.loads s.spi (spiNext s i) = true at falls
  change _ ∧ _ ∧ _ ∧ (spiNext s i).spiSm = .loadEnd
  rw [spiNext] at falls ⊢
  cases runs : running s with
  | false =>
    rw [runs, if_neg Bool.false_ne_true, Line.loads, Bool.and_comm] at falls
    exact absurd falls Bool.false_ne_true
  | true =>
    rw [runs, if_pos rfl] at falls
    rw [if_pos rfl]
    obtain ⟨sm, ena⟩ := loads_only phase falls
    rw [ena] at falls ⊢
    rw [loads_load sm (phase.at_load sm).2.1, convExtern] at falls
    refine ⟨convExtern, falls, sm, ?_⟩
    rw [clock_ena, Spi.advance, sm, convExtern, show s.trig.trigDac = true from falls]
    rfl

theorem trigDac_next (stored : (clock g s i).trig.trigDac = true) :
    running s = true ∧ s.cntrl.dacConvExtern = true ∧ (s.trig.edge = true ∨ s.trig.trigDac = true) := by
  change (if running s then _ else Trig.reset).trigDac = true at stored
  cases runs : running s with
  | false =>
    rw [runs, if_neg Bool.false_ne_true] at stored
    exact absurd stored Bool.false_ne_true
  | true =>
    rw [runs, if_pos rfl, Trig.clock] at stored
    cases convExtern : s.cntrl.dacConvExtern with
    | false =>
      rw [convExtern, if_neg Bool.false_ne_true] at stored
      exact absurd stored Bool.false_ne_true
    | true =>
      rw [convExtern, if_pos rfl] at stored
      refine ⟨rfl, rfl, ?_⟩
      cases edge : s.trig.edge with
      | true => exact Or.inl rfl
      | false =>
        rw [edge, if_neg Bool.false_ne_true] at stored
        exact Or.inr stored

theorem loadEnd_stays (sm : s.spi.spiSm = .loadEnd) (runs : running s = true)
    (ena : spiClkEna s = false) : (clock g s i).spi.spiSm = .loadEnd := by
  change (spiNext s i).spiSm = .loadEnd
  rw [spiNext, runs, if_pos rfl, ena, clock_rest]
  exact (half_same _ _ _ _).spiSm.trans sm

section
variable (kept : Kept s w)
include kept

theorem Kept.armed_next (heeds : Heeds s) (convExtern : (clock g s i).cntrl.dacConvExtern = true)
    (stored : (clock g s i).trig.trigDac = true) (other : (clock g s i).spi.spiSm ≠ .loadEnd) :
    (w.next s (clock g s i)).armed = true := by
  obtain ⟨runs, before, source⟩ := trigDac_next stored
  have none : load s (clock g s i) = false := by
    by_contra falls
    exact other (load_only kept.phase (Bool.not_eq_false _ ▸ falls)).2.2.2
  have held : (w.armed || edge s) = true := by
    rw [edge, before, Bool.true_and, Bool.or_eq_true]
    rcases source with now | stored
    · exact Or.inr now
    · by_cases sm : s.spi.spiSm = .loadEnd
      · cases ena : spiClkEna s with
        | false => exact absurd (loadEnd_stays sm runs ena) other
        | true => exact Or.inr (heeds.cleared before sm ena stored)
      · exact Or.inl (kept.armed before stored sm)
  rw [Watch.next]
  dsimp only
  rw [convExtern, none, held]
  rfl

theorem Kept.early_next (heeds : Heeds s) : (w.next s (clock g s i)).early = false := by
  have none : (w.early || edge s && shifting s.spi.spiSm) = false := by
    rw [kept.early, Bool.false_or]
    cases now : edge s with
    | false => rfl
    | true => exact heeds.shift now
  rw [Watch.next]
  dsimp only
  rw [none, Bool.and_false, Bool.and_false, Bool.and_false]

theorem Kept.load_armed (falls : load s (clock g s i) = true) : w.armed = true := by
  obtain ⟨convExtern, stored, sm, _⟩ := load_only kept.phase falls
  apply kept.armed convExtern stored
  rw [sm]
  exact SpiSm.noConfusion

theorem Kept.counts_next :
    (w.next s (clock g s i)).loads + (w.next s (clock g s i)).armed.toNat ≤ (w.next s (clock g s i)).edges := by
  have counts := kept.counts
  rw [Watch.next]
  dsimp only
  cases convExtern : (clock g s i).cntrl.dacConvExtern with
  | false => exact Nat.le_refl 0
  | true =>
    rw [if_pos rfl, if_pos rfl, Bool.true_and]
    cases falls : load s (clock g s i) with
    | true =>
      rw [kept.load_armed falls] at counts
      rw [if_pos rfl, Bool.not_true, Bool.false_and]
      cases edge s with
      | false => exact counts
      | true => exact Nat.le_succ_of_le counts
    | false =>
      rw [if_neg Bool.false_ne_true, Bool.not_false, Bool.true_and]
      cases edge s with
      | false =>
        rw [Bool.or_false]
        exact counts
      | true =>
        rw [Bool.or_true, if_pos rfl]
        exact Nat.succ_le_succ (Nat.le_of_add_right_le counts)

theorem Kept.next (heeds : Heeds s) : Kept (clock g s i) (w.next s (clock g s i)) where
  phase := phase_next kept.phase
  armed := kept.armed_next heeds
  early := kept.early_next heeds
  counts := kept.counts_next

theorem Kept.discipline : Disciplined s (clock g s i) w where
  once := Nat.le_of_add_right_le kept.counts_next
  armed := kept.load_armed
  whole falls := by
    obtain ⟨_, _, sm, _⟩ := load_only kept.phase falls
    obtain ⟨nCs, _, all⟩ := kept.phase.at_load sm
    exact ⟨nCs, all⟩
  atEnd early := absurd (kept.early.symm.trans early) Bool.false_ne_true

end

theorem start_kept (g : Generics) : Kept (start g) Watch.start where
  phase := phase_reset _
  armed convExtern := absurd convExtern Bool.false_ne_true
  early := rfl
  counts := Nat.le_refl 0

/-- In every run, with any writes, triggers and resets, the load line is disciplined as long as the
conditions are met. -/
theorem disciplined (g : Generics) (inputs : List Inputs)
    (heeds : Along (watched g) (fun x _ => Heeds x.1) (start g, Watch.start) inputs) :
    Along (watched g) (fun x i => Disciplined x.1 (clock g x.1 i) x.2) (start g, Watch.start) inputs := by
  apply heeds.derive (fun x => Kept x.1 x.2) (start_kept g)
  · exact fun kept heeds => kept.next heeds
  · exact fun kept _ => kept.discipline

instance : Decidable (Heeds s) :=
  decidable_of_iff ((edge s = true → shifting s.spi.spiSm = false) ∧
      (s.cntrl.dacConvExtern = true → s.spi.spiSm = .loadEnd → spiClkEna s = true →
        s.trig.trigDac = true → s.trig.edge = true))
    ⟨fun ⟨shift, cleared⟩ => ⟨shift, cleared⟩, fun ⟨shift, cleared⟩ => ⟨shift, cleared⟩⟩

def rests : Inputs := ⟨0, 0, false, false, true, false, 0, false⟩

def write (offset data : BitVec 16) : List Inputs :=
  [{ rests with adr := defaults.baseAddr + offset, data := data, extAdrVal := true, extWrActive := true },
    { rests with data := data }]

def pulse : List Inputs := List.replicate 4 { rests with nExtTrigDac := true }

/-- External convert mode, a word, a trigger for it and a second edge in `Load_End`, and the same
for another word. -/
def cleared : List Inputs :=
  write 0 0x0004 ++ List.replicate 3 rests ++ write 1 0xA5C3 ++ List.replicate 190 rests ++ pulse ++
    List.replicate 4 rests ++ pulse ++
    List.replicate 40 rests ++ write 1 0x1234 ++ List.replicate 190 rests ++ pulse ++ List.replicate 5 rests

theorem disciplined_cleared :
    Along (watched defaults) (fun x i => Disciplined x.1 (clock defaults x.1 i) x.2) (start defaults,
      Watch.start) cleared := by
  have heeds : test (watched defaults) (fun x _ => decide (Heeds x.1)) (start defaults, Watch.start) cleared = true := by
    decide +kernel
  exact disciplined defaults cleared ((test_iff.mp heeds).mono of_decide_eq_true)

def stale : List Inputs :=
  write 0 0x0004 ++ List.replicate 3 rests ++ write 1 0xA5C3 ++ List.replicate 190 rests ++ pulse ++
    List.replicate 40 rests ++ write 1 0x1234 ++ List.replicate 200 rests

def early : List Inputs :=
  write 0 0x0004 ++ List.replicate 3 rests ++ write 1 0xA5C3 ++ List.replicate 90 rests ++ pulse ++
    List.replicate 100 rests

/-- The second word is loaded without a trigger of its own, and a trigger in the shift brings no
load at its end. -/
theorem stale_early :
    ¬ Along (watched defaults) (fun x i => Disciplined x.1 (clock defaults x.1 i) x.2) (start defaults,
      Watch.start) stale ∧
      ¬ Along (watched defaults) (fun x i => Disciplined x.1 (clock defaults x.1 i) x.2) (start defaults,
        Watch.start) early := by
  have again : test (watched defaults) (fun x i => decide (load x.1 (clock defaults x.1 i) = true → x.2.armed = true))
      (start defaults, Watch.start) stale = false := by
    decide +kernel
  have lost : test (watched defaults)
      (fun x i => decide (x.2.early = true → x.1.cntrl.dacConvExtern = true → decides x.1 = true →
        load x.1 (clock defaults x.1 i) = true))
      (start defaults, Watch.start) early = false := by
    decide +kernel
  constructor
  · intro all
    have armed := test_iff.mpr (all.mono fun disciplined => decide_eq_true disciplined.armed)
    exact Bool.false_ne_true (again.symm.trans armed)
  · intro all
    have atEnd := test_iff.mpr (all.mono fun disciplined => decide_eq_true disciplined.atEnd)
    exact Bool.false_ne_true (lost.symm.trans atEnd)

end BelProject.Dac.Trigger
