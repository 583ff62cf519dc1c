import BelProject.Library.Manchester
import BelProject.Mil.Windows
import Mathlib.Data.List.Forall2
import Mathlib.Data.List.GetD
import Mathlib.Data.List.Induction

/-! The words that `Mil_dec_edge_timed` reports. With every edge since it left idle are kept the
reading of the counter, and a word is held against the Manchester code of its bits. -/

namespace BelProject.Mil.Message
open List.Forall₂ (cons nil)

open Decoder Library.Manchester

/-- The edges since idle was left: the level behind the first one, and the counter at the others. -/
structure Edges where
  first : Bool
  readings : List Nat
  deriving DecidableEq, Repr

def Edges.see (e : Edges) (r : Registers) : Edges :=
  if edgeDetect r then
    if r.machine.state = .idle then ⟨r.sync1, []⟩ else { e with readings := e.readings ++ [r.count] }
  else e

/-- The decoder, the edges since it left idle, and those of the word it reported last. -/
structure World where
  regs : Registers
  since : Edges
  last : Edges

section
variable (hz : Nat) (posLane : Bool)

def World.clock (w : World) (i : Inputs) : World :=
  { regs := Decoder.clock hz posLane w.regs i
    since := w.since.see (settle w.regs i.res)
    last := if (settle w.regs i.res).machine.parityOk then w.since else w.last }

/-- A gap of so many halves of a bit, give or take the tolerance. -/
def Within (reading halves : Nat) : Prop :=
  cnt hz (500 * halves - deltaInNs) < reading ∧ reading ≤ cnt hz (500 * halves + deltaInNs)

def messageBits (word : BitVec 16) (parity : Bool) : List Bool := (List.range 16).map word.getMsbD ++ [parity]

def levels (bits : List Bool) : List Bool := bits.map (· == posLane)

/-- A sync and bits with each gap inside of its window, and edges behind them. -/
def Shows (e : Edges) (full : Bool) (bits : List Bool) (trailing : List Nat) : Prop :=
  ∃ timed, e.readings = timed ++ trailing ∧
    List.Forall₂ (Within hz) timed (message full e.first (levels posLane bits)).gaps

/-- A message with odd parity. A sync that shows both of its levels is that of a command on the
positive lane and of data on the other. Where the line does not rest at the level behind the last
bit, there are two more edges at most. -/
def Word (e : Edges) (word : BitVec 16) (cmd : Bool) : Prop :=
  ∃ full parity trailing, Shows hz posLane e full (messageBits word parity) trailing ∧
    (parity ≠ posLane → trailing.length ≤ 2) ∧
    (messageBits word parity).count true % 2 = 1 ∧ cmd = (full == posLane)

/-- Bits behind the one that the shift register starts with, and their parity. -/
structure Taken (r : Registers) (bits : List Bool) : Prop where
  shift : r.shift = bits.foldl BitVec.shiftConcat 1
  parity : r.parityTst = decide (bits.count true % 2 = 1)

end

variable {hz : Nat} {posLane full : Bool} {r : Registers} {i : Inputs} {e : Edges} {bits : List Bool} {last : Bool}

theorem bitIn_eq : bitIn posLane r = (r.sync2 == posLane) := by
  rw [bitIn]
  cases posLane <;> cases r.sync2 <;> rfl

theorem getLsbD_taken : ∀ (bits : List Bool) {k : Nat}, bits.length ≤ 17 → k < 18 →
    (bits.foldl BitVec.shiftConcat (1 : BitVec 18)).getLsbD k =
      if k < bits.length then bits.getD (bits.length - 1 - k) false else decide (k = bits.length) := by
  intro bits
  induction bits using List.reverseRecOn with
  | nil =>
    intro k _ inside
    simp [BitVec.getLsbD_one]
  | append_singleton bits last ih =>
    intro k short inside
    rw [List.length_append, List.length_singleton] at short ⊢
    rw [List.foldl_concat, BitVec.getLsbD_shiftConcat]
    cases k with
    | zero => simp
    | succ k =>
      have before := ih (k := k) (by omega) (by omega)
      simp only [inside, decide_true, Bool.true_and, Nat.add_one_ne_zero, if_false, Nat.add_sub_cancel,
        before, Nat.add_lt_add_iff_right,
        Nat.add_right_cancel_iff]
      split
      next older =>
        have index : bits.length - (k + 1) = bits.length - 1 - k := by omega
        rw [index, List.getD_append _ _ _ _ (by omega)]
      next => rfl

theorem Taken.msb (taken : Taken r bits) (short : bits.length ≤ 17) : r.shift.msb = decide (bits.length = 17) := by
  rw [BitVec.msb_eq_getLsbD_last, taken.shift, getLsbD_taken bits short (by decide), if_neg (by omega)]
  exact decide_eq_decide.mpr eq_comm

theorem Taken.message (taken : Taken r bits) (whole : bits.length = 17) :
    bits = messageBits (r.shift.extractLsb' 1 16) (r.shift.getLsbD 0) := by
  have bit {k : Nat} (inside : k < 17) : r.shift.getLsbD k = bits.getD (16 - k) false := by
    rw [taken.shift, getLsbD_taken bits (by omega) (by omega), if_pos (by omega), whole]
  apply List.ext_getElem
  · simp [messageBits, whole]
  · intro k inside _
    have here : bits[k] = r.shift.getLsbD (16 - k) := by
      rw [bit (by omega), Nat.sub_sub_self (by omega), List.getD_eq_getElem bits false inside]
    by_cases parity : k = 16
    · subst parity
      simp [here, messageBits]
    · have early : k < 16 := by omega
      have index : 1 + (15 - k) = 16 - k := by omega
      have other : 15 - k < 16 := by omega
      simp [here, messageBits, early, BitVec.getMsbD, index, other]

theorem Taken.start (idle : r.machine.state = .idle) : Taken (edge hz posLane r i) [] := by
  constructor
  · exact if_pos idle
  · exact if_pos idle

theorem Taken.still (taken : Taken r bits) (busy : r.machine.state ≠ .idle) (off : r.machine.shiftEna = false) :
    Taken (edge hz posLane r i) bits := by
  constructor
  · simp [Decoder.edge, busy, off, taken.shift]
  · simp [Decoder.edge, busy, off, taken.parity]

theorem Taken.shifted (taken : Taken r bits) (busy : r.machine.state ≠ .idle) (on : r.machine.shiftEna = true) :
    Taken (edge hz posLane r i) (bits ++ [bitIn posLane r]) := by
  constructor
  · simp [Decoder.edge, busy, on, taken.shift]
  · have parity : r.parityTst = decide (bits.count true % 2 = 1) := taken.parity
    cases bit : bitIn posLane r with
    | false => simp [Decoder.edge, busy, on, bit, parity]
    | true =>
      simp only [Decoder.edge, busy, on, bit, parity, Bool.and_self, if_true, if_false,
        List.count_append, List.count_singleton_self]
      rw [← decide_not]
      exact decide_eq_decide.mpr (by omega)

section
variable (hz : Nat) (posLane : Bool)

structure Fresh (r : Registers) : Prop where
  taken : Taken r []
  shiftEna : r.machine.shiftEna = false
  nextShort : r.machine.nextShort = false

/-- The wave that the edges in `data` show. A bit goes into the shift register one clock behind its
edge. -/
structure Reading (r : Registers) (e : Edges) (full : Bool) (bits : List Bool) : Prop where
  gaps : List.Forall₂ (Within hz) e.readings ((message full e.first (levels posLane bits)).ahead
    r.machine.nextShort).gaps
  level : ((message full e.first (levels posLane bits)).ahead r.machine.nextShort).level = r.sync2
  lasting : ((message full e.first (levels posLane bits)).ahead r.machine.nextShort).lasting = 1
  cmd : r.machine.isCmd = (full == posLane)
  short : bits.length ≤ 17
  taken : r.machine.shiftEna = false → Taken r bits
  pending : r.machine.shiftEna = true →
    ∃ front, bits = front ++ [bitIn posLane r] ∧ Taken r front ∧ r.machine.nextShort = false ∧ r.count = 0
  ends : r.shift.msb = true → r.count ≤ 1
  closed : bits.length = 17 → r.machine.nextShort = false

structure Whole (r : Registers) (e : Edges) (full : Bool) (bits : List Bool) (trailing : List Nat) : Prop where
  shows : Shows hz posLane e full bits trailing
  cmd : r.machine.isCmd = (full == posLane)
  length : bits.length = 17
  taken : Taken r bits
  shiftEna : r.machine.shiftEna = false
  few : r.shift.getLsbD 0 ≠ posLane → trailing.length ≤ 1

/-- What the edges have been, in each state. -/
def Follows (r : Registers) (e : Edges) : Prop :=
  match r.machine.state with
  | .idle => r.machine.parityOk = true → Word hz posLane e (r.shift.extractLsb' 1 16) r.machine.isCmd
  | .sync1or2 => Fresh r ∧ e.readings = [] ∧ r.sync2 = e.first
  | .sync2orData => Fresh r ∧ (∃ reading, e.readings = [reading] ∧ Within hz reading 3) ∧ r.sync2 = !e.first
  | .data => ∃ full bits, Reading hz posLane r e full bits
  | .parity => ∃ full bits trailing, Whole hz posLane r e full bits trailing
  | .err => True

end

section
variable (running : (edge hz posLane r i).machine = nextMachine posLane r)
include running

theorem follows_idle (state : r.machine.state = .idle) : Follows hz posLane (edge hz posLane r i) (e.see r) := by
  by_cases seen : edgeDetect r = true
  · have machine : (edge hz posLane r i).machine = { r.machine.lower with nextShort := false, state := .sync1or2 } := by
      simp [running, nextMachine, state, seen]
    have edges : e.see r = ⟨r.sync1, []⟩ := by
      simp [Edges.see, seen, state]
    rw [Follows, machine, edges]
    exact ⟨⟨Taken.start state, by rw [machine]; rfl, by rw [machine]⟩, rfl, rfl⟩
  · have machine : (edge hz posLane r i).machine = { r.machine.lower with nextShort := false, state := .idle } := by
      simp [running, nextMachine, state, seen]
    rw [Follows, machine]
    intro ok
    cases ok

theorem follows_err (state : r.machine.state = .err) : Follows hz posLane (edge hz posLane r i) (e.see r) := by
  have machine : (edge hz posLane r i).machine = { r.machine.lower with state := .idle } := by
    simp [running, nextMachine, state]
  rw [Follows, machine]
  intro ok
  cases ok

end

theorem see_edge (seen : edgeDetect r = true) (busy : r.machine.state ≠ .idle) :
    e.see r = ⟨e.first, e.readings ++ [r.count]⟩ := by
  simp [Edges.see, seen, busy]

theorem see_still (still : edgeDetect r = false) : e.see r = e := by
  simp [Edges.see, still]

theorem within_of_up {g : Gap} (timed : Timed hz r) (clean : Clean hz r) (seen : edgeDetect r = true)
    (busy : r.machine.state ≠ .idle)
    (up : r.isGap g = true) : Within hz r.count g.halves := by
  have inside := (timed.inside clean seen busy up).2
  rw [minCnt, maxCnt, Gap.ns_eq] at inside
  exact inside

theorem Reading.taking {front : List Bool} (taken : Taken r front) (short : front.length < 17)
    (gaps : List.Forall₂ (Within hz) e.readings ((message full e.first (levels posLane front)).bit r.sync2).gaps)
    (cmd : r.machine.isCmd = (full == posLane)) (enabled : r.machine.shiftEna = true)
    (turn : r.machine.nextShort = false)
    (start : r.count = 0) : Reading hz posLane r e full (front ++ [bitIn posLane r]) := by
  have level : (bitIn posLane r == posLane) = r.sync2 := by
    rw [bitIn_eq]
    cases posLane <;> cases r.sync2 <;> rfl
  have wave : (message full e.first (levels posLane (front ++ [bitIn posLane r]))).ahead r.machine.nextShort =
      (message full e.first (levels posLane front)).bit r.sync2 := by
    rw [turn, levels, List.map_append, List.map_singleton, level, message_concat]
    rfl
  exact
    { gaps := wave ▸ gaps
      level := wave ▸ bit_level.1
      lasting := wave ▸ bit_level.2
      cmd := cmd
      short := by
        rw [List.length_append]
        exact short
      taken := fun off => by rw [enabled] at off; cases off
      pending := fun _ => ⟨front, rfl, taken, turn, start⟩
      ends := fun _ => by omega
      closed := fun _ => turn }

section
variable (running : (edge hz posLane r i).machine = nextMachine posLane r)
include running

theorem follows_sync1or2 (state : r.machine.state = .sync1or2) (timed : Timed hz r) (clean : Clean hz r)
    (fresh : Fresh r) (none : e.readings = []) (level : r.sync2 = e.first) :
    Follows hz posLane (edge hz posLane r i) (e.see r) := by
  have busy : r.machine.state ≠ .idle := by simp [state]
  have taken : Taken (edge hz posLane r i) [] := fresh.taken.still busy fresh.shiftEna
  by_cases seen : edgeDetect r = true
  · have within {g : Gap} (up : r.isGap g = true) : Within hz r.count g.halves := within_of_up timed clean seen busy up
    have turned : (edge hz posLane r i).sync2 = !e.first := by
      rw [← level]
      exact level_of_edge seen
    rw [see_edge seen busy, none, List.nil_append]
    by_cases withBit : r.isGap .syncWithBit = true
    · have machine : (edge hz posLane r i).machine =
          { r.machine.lower with clr := only .syncWithBit, shiftEna := true, isCmd := !posLane, state := .data } := by
        simp [running, nextMachine, state, seen, withBit]
      have wave : ((message false e.first (levels posLane [])).bit (!e.first)).gaps = [4] := by
        rw [levels, List.map_nil, message, List.foldl_nil, sync_half]
        exact congrArg Wave.gaps bit_not
      rw [Follows, machine]
      refine ⟨false, [] ++ [bitIn posLane (edge hz posLane r i)], Reading.taking taken (by decide) ?_ ?_ ?_ ?_ ?_⟩
      · rw [turned, wave]
        exact cons (within (g := .syncWithBit) withBit) nil
      · simp [machine]
      · simp [machine]
      · simp [machine, Machine.lower, fresh.nextShort]
      · simp [Decoder.edge, nextCount, seen]
    · by_cases plain : r.isGap .sync = true
      · have machine : (edge hz posLane r i).machine = { r.machine.lower with clr := only .sync, state := .sync2orData } := by
          simp [running, nextMachine, state, seen, withBit, plain]
        rw [Follows, machine]
        refine ⟨⟨taken, ?_, ?_⟩, ⟨r.count, rfl, within (g := .sync) plain⟩, turned⟩
        · rw [machine]
          rfl
        · rw [machine]
          exact fresh.nextShort
      · have machine : (edge hz posLane r i).machine = { r.machine.lower with state := .idle } := by
          simp [running, nextMachine, state, seen, withBit, plain]
        rw [Follows, machine]
        intro ok
        cases ok
  · have still := Bool.eq_false_of_not_eq_true seen
    have machine : (edge hz posLane r i).machine = r.machine.lower := by
      simp [running, nextMachine, state, still]
    have same : r.machine.lower.state = .sync1or2 := state
    rw [see_still still, Follows, machine, same]
    refine ⟨⟨taken, ?_, ?_⟩, none, ?_⟩
    · rw [machine]
      rfl
    · rw [machine]
      exact fresh.nextShort
    · rw [← level]
      exact level_of_still still

theorem follows_sync2orData (state : r.machine.state = .sync2orData) (timed : Timed hz r) (clean : Clean hz r)
    (fresh : Fresh r) {reading : Nat} (one : e.readings = [reading]) (three : Within hz reading 3)
    (level : r.sync2 = !e.first) :
    Follows hz posLane (edge hz posLane r i) (e.see r) := by
  have busy : r.machine.state ≠ .idle := by simp [state]
  have taken : Taken (edge hz posLane r i) [] := fresh.taken.still busy fresh.shiftEna
  by_cases seen : edgeDetect r = true
  · have within {g : Gap} (up : r.isGap g = true) : Within hz r.count g.halves := within_of_up timed clean seen busy up
    have turned : (edge hz posLane r i).sync2 = e.first := by
      have here := level_of_edge seen
      rw [level, Bool.not_not] at here
      exact here
    have start : (edge hz posLane r i).count = 0 := by simp [Decoder.edge, nextCount, seen]
    rw [see_edge seen busy, one, List.singleton_append]
    by_cases withBit : r.isGap .syncWithBit = true
    · have machine : (edge hz posLane r i).machine =
          { r.machine.lower with clr := only .syncWithBit, shiftEna := true, isCmd := posLane, state := .data } := by
        simp [running, nextMachine, state, seen, withBit]
      have wave : ((message true e.first (levels posLane [])).bit e.first).gaps = [3, 4] := by
        rw [levels, List.map_nil, message, List.foldl_nil, sync_full]
        simpa using congrArg Wave.gaps (bit_not (w := ⟨[3], !e.first, 3⟩))
      have gaps : List.Forall₂ (Within hz) [reading, r.count]
        ((message true e.first (levels posLane [])).bit e.first).gaps := by
        rw [wave]
        exact cons three (cons (within (g := .syncWithBit) withBit) nil)
      rw [Follows, machine]
      refine ⟨true, [] ++ [bitIn posLane (edge hz posLane r i)], Reading.taking taken (by decide) ?_ ?_ ?_ ?_ start⟩
      · rw [turned]
        exact gaps
      · simp [machine]
      · simp [machine]
      · simp [machine, Machine.lower, fresh.nextShort]
    · by_cases plain : r.isGap .sync = true
      · have machine : (edge hz posLane r i).machine =
            { r.machine.lower with clr := only .sync, isCmd := posLane, nextShort := true, state := .data } := by
          simp [running, nextMachine, state, seen, withBit, plain]
        have wave : (message true e.first (levels posLane [])).ahead true = ⟨[3, 3], e.first, 1⟩ := by
          rw [levels, List.map_nil, message, List.foldl_nil, sync_full, Wave.ahead, if_pos rfl, half_not, Bool.not_not]
          rfl
        rw [Follows, machine]
        exact ⟨true, [],
          { gaps := by
              rw [machine, wave]
              exact cons three (cons (within (g := .sync) plain) nil)
            level := by rw [machine, wave, turned]
            lasting := by rw [machine, wave]
            cmd := by simp [machine]
            short := Nat.zero_le _
            taken := fun _ => taken
            pending := by simp [machine, Machine.lower]
            ends := fun _ => by omega
            closed := by simp }⟩
      · by_cases short : r.isGap .short = true
        · have machine : (edge hz posLane r i).machine =
              { r.machine.lower with clr := only .short, isCmd := !posLane, shiftEna := true, state := .data } := by
            simp [running, nextMachine, state, seen, withBit, plain, short]
          have wave : ((message false e.first (levels posLane [])).bit e.first).gaps = [3, 1] := by
            rw [levels, List.map_nil, message, List.foldl_nil, sync_half]
            exact congrArg Wave.gaps (bit_same (w := ⟨[], e.first, 3⟩))
          have gaps : List.Forall₂ (Within hz) [reading, r.count]
            ((message false e.first (levels posLane [])).bit e.first).gaps := by
            rw [wave]
            exact cons three (cons (within (g := .short) short) nil)
          rw [Follows, machine]
          refine ⟨false, [] ++ [bitIn posLane (edge hz posLane r i)],
            Reading.taking taken (by decide) ?_ ?_ ?_ ?_ start⟩
          · rw [turned]
            exact gaps
          · simp [machine]
          · simp [machine]
          · simp [machine, Machine.lower, fresh.nextShort]
        · have machine : (edge hz posLane r i).machine = { r.machine.lower with state := .err } := by
            simp [running, nextMachine, state, seen, withBit, plain, short]
          rw [Follows, machine]
          trivial
  · have still := Bool.eq_false_of_not_eq_true seen
    have machine : (edge hz posLane r i).machine = r.machine.lower := by
      simp [running, nextMachine, state, still]
    have same : r.machine.lower.state = .sync2orData := state
    rw [see_still still, Follows, machine, same]
    refine ⟨⟨taken, ?_, ?_⟩, ⟨reading, one, three⟩, ?_⟩
    · rw [machine]
      rfl
    · rw [machine]
      exact fresh.nextShort
    · rw [← level]
      exact level_of_still still

theorem follows_last (state : r.machine.state = .data) (reading : Reading hz posLane r e full bits)
    (whole : r.shift.msb = true) :
    Follows hz posLane (edge hz posLane r i) (e.see r) := by
  have busy : r.machine.state ≠ .idle := by simp [state]
  have off : r.machine.shiftEna = false := by
    by_contra on
    obtain ⟨front, split, taken, -, -⟩ := reading.pending (Bool.eq_true_of_not_eq_false on)
    have short := reading.short
    rw [split, List.length_append, List.length_singleton] at short
    have missing := taken.msb (by omega)
    rw [whole] at missing
    have length := of_decide_eq_true missing.symm
    omega
  have length : bits.length = 17 := by
    have msb := (reading.taken off).msb reading.short
    rw [whole] at msb
    exact of_decide_eq_true msb.symm
  have machine : (edge hz posLane r i).machine = { r.machine.lower with state := .parity } := by
    simp [running, nextMachine, state, whole]
  have gaps := reading.gaps
  rw [reading.closed length] at gaps
  have trailing : ∃ trailing, (e.see r).readings = e.readings ++ trailing ∧ trailing.length ≤ 1 ∧
    (e.see r).first = e.first := by
    by_cases seen : edgeDetect r = true
    · rw [see_edge seen busy]
      exact ⟨[r.count], rfl, Nat.le_refl 1, rfl⟩
    · rw [see_still (Bool.eq_false_of_not_eq_true seen)]
      exact ⟨[], (List.append_nil _).symm, Nat.zero_le 1, rfl⟩
  obtain ⟨trailing, readings, few, first⟩ := trailing
  rw [Follows, machine]
  exact ⟨full, bits, trailing,
    { shows := ⟨e.readings, readings, by rw [first]; exact gaps⟩
      cmd := by rw [machine]; exact reading.cmd
      length := length
      taken := (reading.taken off).still busy off
      shiftEna := by rw [machine]; rfl
      few := fun _ => few }⟩

theorem follows_between (state : r.machine.state = .data) (reading : Reading hz posLane r e full bits)
    (going : r.shift.msb = false)
    (still : edgeDetect r = false) : Follows hz posLane (edge hz posLane r i) (e.see r) := by
  have busy : r.machine.state ≠ .idle := by simp [state]
  have machine : (edge hz posLane r i).machine = r.machine.lower := by
    simp [running, nextMachine, state, going, still]
  have same : r.machine.lower.state = .data := state
  have level : (edge hz posLane r i).sync2 = r.sync2 := level_of_still still
  rw [see_still still, Follows, machine, same]
  refine ⟨full, bits, ?_⟩
  exact
    { gaps := by rw [machine]; exact reading.gaps
      level := by rw [machine, level]; exact reading.level
      lasting := by rw [machine]; exact reading.lasting
      cmd := by rw [machine]; exact reading.cmd
      short := reading.short
      taken := by
        intro _
        by_cases on : r.machine.shiftEna = true
        · obtain ⟨front, split, taken, -, -⟩ := reading.pending on
          rw [split]
          exact taken.shifted busy on
        · have off := Bool.eq_false_of_not_eq_true on
          exact (reading.taken off).still busy off
      pending := by simp [machine, Machine.lower]
      ends := by
        intro whole
        by_cases on : r.machine.shiftEna = true
        · obtain ⟨-, -, -, -, start⟩ := reading.pending on
          simp only [Decoder.edge, nextCount, start]
          split_ifs <;> omega
        · have kept : (edge hz posLane r i).shift = r.shift := by simp [Decoder.edge, busy, on]
          rw [kept, going] at whole
          cases whole
      closed := fun length => by rw [machine]; exact reading.closed length }

end

theorem Reading.measured (reading : Reading hz posLane r e full bits) (going : r.shift.msb = false)
    (late : 0 < r.count) :
    r.machine.shiftEna = false ∧ bits.length < 17 := by
  have off : r.machine.shiftEna = false := by
    by_contra on
    obtain ⟨-, -, -, -, start⟩ := reading.pending (Bool.eq_true_of_not_eq_false on)
    omega
  have msb := (reading.taken off).msb reading.short
  rw [going] at msb
  have other := of_decide_eq_false msb.symm
  have short := reading.short
  exact ⟨off, by omega⟩

section
variable (running : (edge hz posLane r i).machine = nextMachine posLane r)
include running

theorem follows_edge (state : r.machine.state = .data) (timed : Timed hz r) (clean : Clean hz r)
    (reading : Reading hz posLane r e full bits) (going : r.shift.msb = false) (seen : edgeDetect r = true) :
    Follows hz posLane (edge hz posLane r i) (e.see r) := by
  have busy : r.machine.state ≠ .idle := by simp [state]
  have within {g : Gap} (up : r.isGap g = true) : Within hz r.count g.halves := within_of_up timed clean seen busy up
  have measured {g : Gap} (up : r.isGap g = true) : r.machine.shiftEna = false ∧ bits.length < 17 := by
    have inside := timed.inside clean seen busy up
    exact reading.measured going (by omega)
  have start : (edge hz posLane r i).count = 0 := by simp [Decoder.edge, nextCount, seen]
  have turned : (edge hz posLane r i).sync2 = !r.sync2 := level_of_edge seen
  have gaps := reading.gaps
  have level := reading.level
  have lasting := reading.lasting
  have longer {g : Gap} {w : List Nat} (up : r.isGap g = true) (so_far : List.Forall₂ (Within hz) e.readings w) :
      List.Forall₂ (Within hz) (e.readings ++ [r.count]) (w ++ [g.halves]) :=
    List.rel_append so_far (cons (within up) nil)
  rw [see_edge seen busy]
  by_cases turn : r.machine.nextShort = true
  · rw [turn] at gaps level lasting
    by_cases short : r.isGap .short = true
    · obtain ⟨off, few⟩ := measured short
      have machine : (edge hz posLane r i).machine =
          { r.machine.lower with clr := fun g => g == .long || g == .short, shiftEna := true, nextShort := false } := by
        simp [running, nextMachine, state, going, seen, turn, short]
      have same : r.machine.lower.state = .data := state
      rw [Follows, machine, same]
      refine ⟨full, _, Reading.taking ((reading.taken off).still busy off) few ?_ ?_ ?_ ?_ start⟩
      · have back : (edge hz posLane r i).sync2 = (message full e.first (levels posLane bits)).level := by
          rw [turned, ← level, Wave.ahead, if_pos rfl, half_not, Bool.not_not]
        have wave := half_not (w := (message full e.first (levels posLane bits)).ahead true)
        rw [level, ← turned, back, ahead_bit] at wave
        rw [back, wave, lasting]
        exact longer (g := .short) short gaps
      · rw [machine]
        exact reading.cmd
      · rw [machine]
      · rw [machine]
    · have machine : (edge hz posLane r i).machine = { r.machine.lower with clr := only .long, state := .err } := by
        simp [running, nextMachine, state, going, seen, turn, short]
      rw [Follows, machine]
      trivial
  · have notTurn := Bool.eq_false_of_not_eq_true turn
    rw [notTurn] at gaps level lasting
    by_cases long : r.isGap .long = true
    · obtain ⟨off, few⟩ := measured long
      have machine : (edge hz posLane r i).machine =
          { r.machine.lower with clr := fun g => g == .long || g == .short, shiftEna := true, nextShort := false } := by
        simp [running, nextMachine, state, going, seen, notTurn, long]
      have same : r.machine.lower.state = .data := state
      rw [Follows, machine, same]
      refine ⟨full, _, Reading.taking ((reading.taken off).still busy off) few ?_ ?_ ?_ ?_ start⟩
      · have wave := bit_not (w := message full e.first (levels posLane bits))
        change (message full e.first (levels posLane bits)).level = r.sync2 at level
        change (message full e.first (levels posLane bits)).lasting = 1 at lasting
        rw [level, lasting] at wave
        rw [turned, wave]
        exact longer (g := .long) long gaps
      · rw [machine]
        exact reading.cmd
      · rw [machine]
      · rw [machine]
    · by_cases short : r.isGap .short = true
      · obtain ⟨off, few⟩ := measured short
        have machine : (edge hz posLane r i).machine = { r.machine.lower with clr := only .short, nextShort := true } := by
          simp [running, nextMachine, state, going, seen, notTurn, long, short]
        have same : r.machine.lower.state = .data := state
        have kept : (edge hz posLane r i).shift = r.shift := by simp [Decoder.edge, busy, off]
        have wave := half_not (w := message full e.first (levels posLane bits))
        change (message full e.first (levels posLane bits)).level = r.sync2 at level
        change (message full e.first (levels posLane bits)).lasting = 1 at lasting
        rw [lasting, level, ← turned] at wave
        have ahead : (message full e.first (levels posLane bits)).ahead true =
            ⟨(message full e.first (levels posLane bits)).gaps ++ [1], (edge hz posLane r i).sync2, 1⟩ := by
          rw [Wave.ahead, if_pos rfl, level, ← turned, wave]
        rw [Follows, machine, same]
        refine ⟨full, bits, ?_⟩
        exact
          { gaps := by
              rw [machine, ahead]
              exact longer (g := .short) short gaps
            level := by rw [machine, ahead]
            lasting := by rw [machine, ahead]
            cmd := by rw [machine]; exact reading.cmd
            short := reading.short
            taken := fun _ => (reading.taken off).still busy off
            pending := by simp [machine, Machine.lower]
            ends := fun _ => by omega
            closed := fun length => by omega }
      · have machine : (edge hz posLane r i).machine = { r.machine.lower with clr := only .long, state := .err } := by
          simp [running, nextMachine, state, going, seen, notTurn, long, short]
        rw [Follows, machine]
        trivial

end

def leaves (posLane : Bool) (r : Registers) : Bool :=
  if r.shift.getLsbD 0 = posLane then r.waitShort else edgeDetect r || r.leaveParityTst

theorem nextMachine_parity (state : r.machine.state = .parity) : nextMachine posLane r =
    if leaves posLane r = true then
      if r.parityTst = true then { r.machine.lower with parityOk := true, state := .idle }
        else { r.machine.lower with state := .err }
    else r.machine.lower := by
  simp only [nextMachine, state, leaves]
  cases posLane <;> cases r.shift.getLsbD 0 <;> simp

theorem Whole.see {trailing : List Nat} (whole : Whole hz posLane r e full bits trailing)
    (busy : r.machine.state ≠ .idle) :
    ∃ more, Shows hz posLane (e.see r) full bits (trailing ++ more) ∧ more.length ≤ 1 ∧
      (edgeDetect r = false → more = []) := by
  obtain ⟨timed, readings, gaps⟩ := whole.shows
  by_cases seen : edgeDetect r = true
  · refine ⟨[r.count], ⟨timed, ?_, ?_⟩, Nat.le_refl 1, ?_⟩
    · rw [see_edge seen busy, readings, List.append_assoc]
    · rw [see_edge seen busy]
      exact gaps
    · intro still
      rw [seen] at still
      cases still
  · rw [see_still (Bool.eq_false_of_not_eq_true seen)]
    exact ⟨[], ⟨timed, by rw [readings, List.append_nil], gaps⟩, Nat.zero_le 1, fun _ => rfl⟩

section
variable (running : (edge hz posLane r i).machine = nextMachine posLane r)
include running

theorem follows_parity {trailing : List Nat} (state : r.machine.state = .parity)
    (whole : Whole hz posLane r e full bits trailing) :
    Follows hz posLane (edge hz posLane r i) (e.see r) := by
  have busy : r.machine.state ≠ .idle := by simp [state]
  have kept : (edge hz posLane r i).shift = r.shift := by simp [Decoder.edge, busy, whole.shiftEna]
  obtain ⟨more, shows, one, none⟩ := whole.see busy
  rw [nextMachine_parity state] at running
  split at running
  next =>
    split at running
    next odd =>
      rw [Follows, running]
      intro _
      refine ⟨full, r.shift.getLsbD 0, trailing ++ more, ?_, ?_, ?_, ?_⟩
      · rw [kept, ← whole.taken.message whole.length]
        exact shows
      · intro notRest
        have few := whole.few notRest
        rw [List.length_append]
        omega
      · have parity := whole.taken.parity
        rw [odd] at parity
        rw [kept, ← whole.taken.message whole.length]
        exact of_decide_eq_true parity.symm
      · exact whole.cmd
    next =>
      rw [Follows, running]
      trivial
  next stays =>
    have same : r.machine.lower.state = .parity := state
    rw [Follows, running, same]
    refine ⟨full, bits, trailing ++ more, ?_⟩
    exact
      { shows := shows
        cmd := by rw [running]; exact whole.cmd
        length := whole.length
        taken := whole.taken.still busy whole.shiftEna
        shiftEna := by rw [running]; rfl
        few := by
          intro notRest
          rw [kept] at notRest
          rw [leaves, if_neg notRest, Bool.or_eq_true, not_or] at stays
          rw [none (Bool.eq_false_of_not_eq_true stays.1), List.append_nil]
          exact whole.few notRest }

theorem follows_edge_of (timed : Timed hz r) (clean : Clean hz r) (follows : Follows hz posLane r e) :
    Follows hz posLane (edge hz posLane r i) (e.see r) := by
  cases state : r.machine.state with
  | idle => exact follows_idle running state
  | sync1or2 =>
    rw [Follows, state] at follows
    obtain ⟨fresh, none, level⟩ := follows
    exact follows_sync1or2 running state timed clean fresh none level
  | sync2orData =>
    rw [Follows, state] at follows
    obtain ⟨fresh, ⟨reading, one, three⟩, level⟩ := follows
    exact follows_sync2orData running state timed clean fresh one three level
  | data =>
    rw [Follows, state] at follows
    obtain ⟨full, bits, reading⟩ := follows
    by_cases whole : r.shift.msb = true
    · exact follows_last running state reading whole
    · have going := Bool.eq_false_of_not_eq_true whole
      by_cases seen : edgeDetect r = true
      · exact follows_edge running state timed clean reading going seen
      · exact follows_between running state reading going (Bool.eq_false_of_not_eq_true seen)
  | parity =>
    rw [Follows, state] at follows
    obtain ⟨full, bits, trailing, whole⟩ := follows
    exact follows_parity running state whole
  | err => exact follows_err running state

end

end BelProject.Mil.Message
