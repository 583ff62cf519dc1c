import BelProject.Library.Ring
import BelProject.Library.Runs

/-! `eb_commit_fifo`: a ring in a RAM with a registered read port and two write pointers. Words
are written behind the tentative pointer; a commit moves the committed one up to it, an abort
takes it back. The reader sees the words below the committed pointer, one clock late. -/

namespace BelProject.SlaveCore.CommitFifo
open BelProject.Library Runs

/-- Registers and RAM, for `c_depth` address bits. -/
structure Fifo (α : Type) (depth : Nat) where
  rIdx : BitVec (depth + 1)
  wIdx : BitVec (depth + 1)
  eIdx : BitVec (depth + 1)
  full : Bool
  empty : Bool
  ram : Nat → α
  rDat : α

/-- Both ports. `conflict` is what the RAM returns for a cell that is written in the same clock. -/
structure Ports (α : Type) where
  push : Option α
  commit : Bool
  abort : Bool
  pop : Bool
  conflict : α

variable {α : Type} {depth : Nat}

/-- After a reset the RAM and its output hold anything. -/
def reset (ram : Nat → α) (rDat : α) : Fifo α depth := ⟨0, 0, 0, false, true, ram, rDat⟩

/-- `c_high`. -/
def high : BitVec (depth + 1) := BitVec.twoPow (depth + 1) depth

section
variable (f : Fifo α depth) (i : Ports α)

def rIdx1 : BitVec (depth + 1) := if i.pop then f.rIdx + 1 else f.rIdx

def wIdx1 : BitVec (depth + 1) := if i.push.isSome then f.wIdx + 1 else f.wIdx

def wCell : Nat := f.wIdx.toNat % 2 ^ depth

def rCell : Nat := (rIdx1 f i).toNat % 2 ^ depth

def clock : Fifo α depth :=
  { rIdx := rIdx1 f i
    eIdx := if i.commit then wIdx1 f i else f.eIdx
    wIdx := if i.abort then f.eIdx else wIdx1 f i
    -- the newest pointers
    full := decide (wIdx1 f i ^^^ high = rIdx1 f i)
    -- the OLD committed pointer, to prevent read-during-write
    empty := decide (f.eIdx = rIdx1 f i)
    ram := match i.push with
      | some dat => Function.update f.ram (wCell f) dat
      | none => f.ram
    rDat := if i.push.isSome ∧ wCell f = rCell f i then i.conflict else f.ram (rCell f i) }

end

/-- The FIFO with its history: the words of committed transactions, those of the open one, and
those the reader popped. -/
structure World (α : Type) (depth : Nat) where
  fifo : Fifo α depth
  committed : List α
  opened : List α
  popped : List α

def start (ram : Nat → α) (rDat : α) : World α depth := ⟨reset ram rDat, [], [], []⟩

/-- The open transaction with the word of this clock. -/
def written (w : World α depth) (i : Ports α) : List α := w.opened ++ i.push.toList

def step (w : World α depth) (i : Ports α) : World α depth :=
  { fifo := clock w.fifo i
    committed := if i.commit then w.committed ++ written w i else w.committed
    opened := if i.commit || i.abort then [] else written w i
    popped := if i.pop then w.popped ++ [w.fifo.rDat] else w.popped }

def unread (w : World α depth) : List α := w.committed.drop w.popped.length

/-- Pushes are made when the FIFO is not full, pops when it is not empty. -/
structure Allowed (w : World α depth) (i : Ports α) : Prop where
  push : i.push.isSome = true → w.fifo.full = false
  pop : i.pop = true → w.fifo.empty = false

instance (w : World α depth) (i : Ports α) : Decidable (Allowed w i) :=
  decidable_of_iff ((i.push.isSome = true → w.fifo.full = false) ∧ (i.pop = true → w.fifo.empty = false))
    ⟨fun both => ⟨both.1, both.2⟩, fun allowed => ⟨allowed.push, allowed.pop⟩⟩

/-- A transaction with words in it is not committed and aborted at once. -/
def Apart (w : World α depth) (i : Ports α) : Prop := i.commit = true → i.abort = true → written w i = []

/-- What the reader and the writer may rely on. -/
structure Faithful (w : World α depth) : Prop where
  /-- the words popped are the first words of committed transactions -/
  popped : w.popped <+: w.committed
  /-- an output that is not empty shows the next of them -/
  shown : w.fifo.empty = false → (unread w).head? = some w.fifo.rDat
  /-- a FIFO that is not full has a cell that holds no unread and no open word -/
  room : w.fifo.full = false → (unread w).length + w.opened.length < 2 ^ depth

/-- After a clock the flags say exactly whether a word that was committed before is unread,
and whether all cells were in use by the words of both sides. -/
structure Flags (w : World α depth) (i : Ports α) : Prop where
  empty : (step w i).fifo.empty = decide ((unread w).drop i.pop.toNat = [])
  full : (step w i).fifo.full = decide (((unread w).drop i.pop.toNat).length + (written w i).length = 2 ^ depth)

/-- The unread words and those of the open transaction lie in the ring one after the other. -/
structure Represents (f : Fifo α depth) (queue opened : List α) : Prop where
  fits : queue.length + opened.length ≤ 2 ^ depth
  eIdx : f.eIdx = f.rIdx + BitVec.ofNat (depth + 1) queue.length
  wIdx : f.wIdx = f.rIdx + BitVec.ofNat (depth + 1) (queue.length + opened.length)
  holds : Ring.Holds f.ram (2 ^ depth) f.rIdx.toNat (queue ++ opened)
  front : f.empty = false → queue.head? = some f.rDat
  full : f.full = false → queue.length + opened.length < 2 ^ depth

theorem represents_reset (ram : Nat → α) (rDat : α) : Represents (reset ram rDat : Fifo α depth) [] [] where
  fits := Nat.zero_le _
  eIdx := rfl
  wIdx := rfl
  holds := trivial
  front := fun shown => absurd shown Bool.noConfusion
  full := fun _ => Nat.two_pow_pos depth

variable {f : Fifo α depth} {i : Ports α} {queue opened : List α}

theorem rIdx1_eq (f : Fifo α depth) (i : Ports α) : rIdx1 f i = f.rIdx + BitVec.ofNat (depth + 1) i.pop.toNat := by
  unfold rIdx1
  cases i.pop with
  | false => exact (BitVec.add_zero _).symm
  | true => rfl

theorem wIdx1_eq (f : Fifo α depth) (i : Ports α) :
    wIdx1 f i = f.wIdx + BitVec.ofNat (depth + 1) i.push.toList.length := by
  unfold wIdx1
  cases i.push with
  | none => exact (BitVec.add_zero _).symm
  | some dat => rfl

structure Popped (f : Fifo α depth) (i : Ports α) (queue opened : List α) : Prop where
  fits : queue.length + opened.length + i.pop.toNat ≤ 2 ^ depth
  eIdx : f.eIdx = rIdx1 f i + BitVec.ofNat (depth + 1) queue.length
  wIdx : f.wIdx = rIdx1 f i + BitVec.ofNat (depth + 1) (queue.length + opened.length)
  holds : Ring.Holds f.ram (2 ^ depth) (rIdx1 f i).toNat (queue ++ opened)
  cell : wCell f = ((rIdx1 f i).toNat + (queue ++ opened).length) % 2 ^ depth

theorem Represents.popped (rep : Represents f queue opened) (present : i.pop.toNat ≤ queue.length) :
    Popped f i (queue.drop i.pop.toNat) opened := by
  have length : i.pop.toNat + (queue.drop i.pop.toNat).length = queue.length := by
    rw [List.length_drop]
    omega
  have fits := rep.fits
  have wIdx : f.wIdx = rIdx1 f i + BitVec.ofNat (depth + 1) ((queue.drop i.pop.toNat).length + opened.length) := by
    rw [rep.wIdx, rIdx1_eq, BitVec.add_assoc, ← BitVec.ofNat_add]
    congr 2
    omega
  refine ⟨by omega, ?_, wIdx, ?_, ?_⟩
  · rw [rep.eIdx, rIdx1_eq, BitVec.add_assoc, ← BitVec.ofNat_add, length]
  · have rest := rep.holds.drop i.pop.toNat
    rw [List.drop_append_of_le_length present] at rest
    apply rest.congr
    rw [rIdx1_eq]
    exact (Ring.pointer_mod _ _).symm
  · rw [wCell, wIdx, List.length_append]
    exact Ring.pointer_mod _ _

section
variable (left : Popped f i queue opened)
include left

theorem Popped.empty_clock : (clock f i).empty = decide (queue = []) := by
  have fits := left.fits
  have power : 2 ^ depth < 2 ^ (depth + 1) := Nat.pow_lt_pow_right Nat.one_lt_two (Nat.lt_succ_self depth)
  have same := Ring.pointer_inj (rIdx1 f i) (a := queue.length) (b := 0) (by omega) (by omega)
  rw [BitVec.add_zero, ← left.eIdx, List.length_eq_zero_iff] at same
  exact decide_eq_decide.mpr same

theorem Popped.full_clock (room : queue.length + (opened ++ i.push.toList).length ≤ 2 ^ depth) :
    (clock f i).full = decide (queue.length + (opened ++ i.push.toList).length = 2 ^ depth) := by
  have pointer : wIdx1 f i = rIdx1 f i + BitVec.ofNat (depth + 1)
    (queue.length + (opened ++ i.push.toList).length) := by
    rw [wIdx1_eq, left.wIdx, BitVec.add_assoc, ← BitVec.ofNat_add, List.length_append, Nat.add_assoc]
  show decide (wIdx1 f i ^^^ high = rIdx1 f i) = _
  rw [pointer, decide_eq_decide]
  exact Ring.pointer_full _ room

theorem Popped.front_clock (behind : List α) (room : i.push.isSome = true →
    queue.length + opened.length < 2 ^ depth) (shown : (clock f i).empty = false) :
    (queue ++ behind).head? = some (clock f i).rDat := by
  rw [left.empty_clock, decide_eq_false_iff_not] at shown
  have holds := left.holds
  have cell := left.cell
  cases queue with
  | nil => exact absurd rfl shown
  | cons word queue =>
    have apart : ¬(i.push.isSome = true ∧ wCell f = rCell f i) := by
      rintro ⟨pushed, same⟩
      have space := room pushed
      rw [cell, rCell] at same
      have zero := Ring.cell_inj (b := 0) (by rw [List.length_append]; exact space) (Nat.two_pow_pos depth) same
      simp at zero
    have front : (clock f i).rDat = word := by
      show (if i.push.isSome ∧ wCell f = rCell f i then i.conflict else f.ram (rCell f i)) = word
      rw [if_neg apart]
      exact holds.front
    rw [front]
    rfl

theorem Popped.stored (room : i.push.isSome = true → queue.length + opened.length < 2 ^ depth) :
    Ring.Holds (clock f i).ram (2 ^ depth) (rIdx1 f i).toNat (queue ++ (opened ++ i.push.toList)) := by
  cases push : i.push with
  | none =>
    have kept : (clock f i).ram = f.ram := by simp only [clock, push]
    rw [kept, Option.toList_none, List.append_nil]
    exact left.holds
  | some dat =>
    have space := room (by rw [push]; rfl)
    have next : (clock f i).ram = Function.update f.ram (wCell f) dat := by simp only [clock, push]
    have stored := left.holds.push dat (by rw [List.length_append]; exact space)
    rw [← left.cell, List.append_assoc] at stored
    rw [next]
    exact stored

end

theorem Represents.clock (rep : Represents f queue opened) (present : i.pop.toNat ≤ queue.length)
    (push : i.push.isSome = true → f.full = false)
    (apart : i.commit = true → i.abort = true → opened ++ i.push.toList = []) :
    Represents (clock f i)
      (queue.drop i.pop.toNat ++ if i.commit then opened ++ i.push.toList else [])
      (if i.commit || i.abort then [] else opened ++ i.push.toList) := by
  have left := rep.popped present
  have fits := left.fits
  have shorter : (queue.drop i.pop.toNat).length ≤ queue.length := by
    rw [List.length_drop]
    exact Nat.sub_le _ _
  have room : i.push.isSome = true → (queue.drop i.pop.toNat).length + opened.length < 2 ^ depth := by
    intro pushed
    have := rep.full (push pushed)
    omega
  have bound : (queue.drop i.pop.toNat).length + (opened ++ i.push.toList).length ≤ 2 ^ depth := by
    rw [List.length_append]
    cases pushed : i.push with
    | none =>
      rw [Option.toList_none, List.length_nil]
      omega
    | some dat =>
      have space := room (by rw [pushed]; rfl)
      rw [Option.toList_some, List.length_singleton]
      omega
  have stored := left.stored room
  have flag := left.full_clock bound
  have pointer : wIdx1 f i = rIdx1 f i +
      BitVec.ofNat (depth + 1) ((queue.drop i.pop.toNat).length + (opened ++ i.push.toList).length) := by
    rw [wIdx1_eq, left.wIdx, BitVec.add_assoc, ← BitVec.ofNat_add, List.length_append, Nat.add_assoc]
  have front := fun behind => left.front_clock behind room
  generalize queue.drop i.pop.toNat = rest at *
  cases commit : i.commit with
  | true =>
    have taken : (CommitFifo.clock f i).eIdx = wIdx1 f i := by simp only [CommitFifo.clock, commit, if_true]
    have next : (CommitFifo.clock f i).wIdx = wIdx1 f i := by
      cases abort : i.abort with
      | false => simp only [CommitFifo.clock, abort, Bool.false_eq_true, if_false]
      | true =>
        have none := apart commit abort
        have back : (CommitFifo.clock f i).wIdx = f.eIdx := by simp only [CommitFifo.clock, abort, if_true]
        rw [back, left.eIdx, pointer, none]
        rfl
    simp only [if_true, Bool.true_or]
    refine ⟨?_, ?_, ?_, ?_, front _, ?_⟩
    · rw [List.length_append, List.length_nil]
      exact bound
    · rw [taken, List.length_append]
      exact pointer
    · rw [next, List.length_append, List.length_nil]
      exact pointer
    · rw [List.append_nil]
      exact stored
    · rw [flag, decide_eq_false_iff_not]
      intro space
      rw [List.length_append, List.length_nil]
      omega
  | false =>
    have kept : (CommitFifo.clock f i).eIdx = f.eIdx := by
      simp only [CommitFifo.clock, commit, Bool.false_eq_true, if_false]
    simp only [Bool.false_eq_true, if_false, List.append_nil, Bool.false_or]
    cases abort : i.abort with
    | true =>
      have back : (CommitFifo.clock f i).wIdx = f.eIdx := by simp only [CommitFifo.clock, abort, if_true]
      simp only [if_true]
      refine ⟨?_, kept.trans left.eIdx, ?_, ?_, ?_, ?_⟩
      · rw [List.length_nil]
        omega
      · exact back.trans left.eIdx
      · have short := stored.take rest.length
        rw [List.take_left] at short
        rw [List.append_nil]
        exact short
      · have shown := front []
        rw [List.append_nil] at shown
        exact shown
      · rw [flag, decide_eq_false_iff_not, List.length_nil]
        intro space
        omega
    | false =>
      have next : (CommitFifo.clock f i).wIdx = wIdx1 f i := by
        simp only [CommitFifo.clock, abort, Bool.false_eq_true, if_false]
      simp only [Bool.false_eq_true, if_false]
      refine ⟨bound, kept.trans left.eIdx, next.trans pointer, stored, ?_, ?_⟩
      · have shown := front []
        rw [List.append_nil] at shown
        exact shown
      · rw [flag, decide_eq_false_iff_not]
        intro space
        omega

structure Inv (w : World α depth) : Prop where
  popped : w.popped <+: w.committed
  represents : Represents w.fifo (unread w) w.opened

variable {w : World α depth}

theorem Inv.faithful (inv : Inv w) : Faithful w :=
  ⟨inv.popped, inv.represents.front, inv.represents.full⟩

theorem Inv.present (inv : Inv w) (allowed : Allowed w i) : i.pop.toNat ≤ (unread w).length := by
  cases popping : i.pop with
  | false => exact Nat.zero_le _
  | true =>
    have shown := inv.represents.front (allowed.pop popping)
    cases rest : unread w with
    | nil =>
      rw [rest] at shown
      cases shown
    | cons word rest => exact Nat.succ_pos _

theorem Inv.flags (inv : Inv w) (allowed : Allowed w i) : Flags w i := by
  have left := inv.represents.popped (inv.present allowed)
  refine ⟨left.empty_clock, left.full_clock ?_⟩
  have fits := left.fits
  rw [List.length_append]
  cases pushed : i.push with
  | none =>
    rw [Option.toList_none, List.length_nil]
    omega
  | some dat =>
    have space := inv.represents.full (allowed.push (by rw [pushed]; rfl))
    have shorter := List.length_drop (i := i.pop.toNat) (l := unread w)
    rw [Option.toList_some, List.length_singleton]
    omega

theorem step_committed (w : World α depth) (i : Ports α) :
    (step w i).committed = w.committed ++ if i.commit then written w i else [] := by
  cases commit : i.commit with
  | false => simp only [step, commit, Bool.false_eq_true, if_false, List.append_nil]
  | true => simp only [step, commit, if_true]

theorem Inv.kept (inv : Inv w) (allowed : Allowed w i) (apart : Apart w i) : Inv (step w i) := by
  have clocked := inv.represents.clock (inv.present allowed) allowed.push apart
  have moved : (step w i).popped <+: w.committed ∧
      w.committed.drop (step w i).popped.length = (unread w).drop i.pop.toNat := by
    cases popping : i.pop with
    | false =>
      have same : (step w i).popped = w.popped := by simp only [step, popping, Bool.false_eq_true, if_false]
      rw [same]
      exact ⟨inv.popped, rfl⟩
    | true =>
      have more : (step w i).popped = w.popped ++ [w.fifo.rDat] := by simp only [step, popping, if_true]
      rw [more]
      exact Ring.drop_popped inv.popped (inv.represents.front (allowed.pop popping))
  obtain ⟨before, rest⟩ := moved
  have tail : unread (step w i) = (unread w).drop i.pop.toNat ++ if i.commit then written w i else [] := by
    rw [← rest, unread, step_committed, List.drop_append_of_le_length before.length_le]
  refine ⟨?_, ?_⟩
  · rw [step_committed]
    exact before.trans (List.prefix_append _ _)
  · rw [tail]
    exact clocked

theorem start_inv (ram : Nat → α) (rDat : α) : Inv (start ram rDat : World α depth) :=
  ⟨List.prefix_rfl, represents_reset ram rDat⟩

/-- In every run that commits and aborts one after the other, the reader gets the words of
committed transactions in order, and the flags are those of a queue of them. -/
theorem committed_popped (ram : Nat → α) (rDat : α) (inputs : List (Ports α))
    (along : Along step (fun w i => Allowed w i ∧ Apart w i) (start ram rDat : World α depth) inputs) :
    Faithful (inputs.foldl step (start ram rDat : World α depth)) ∧
      ∀ i, Allowed (inputs.foldl step (start ram rDat : World α depth)) i →
        Flags (inputs.foldl step (start ram rDat : World α depth)) i := by
  have inv := along.invariant Inv (start_inv ram rDat) fun inv meets => inv.kept meets.1 meets.2
  exact ⟨inv.faithful, fun i allowed => inv.flags allowed⟩

def pushing (dat : Nat) (commit abort : Bool) : Ports Nat := ⟨some dat, commit, abort, false, 0⟩

def popping : Ports Nat := ⟨none, false, false, true, 0⟩

def resting : Ports Nat := ⟨none, false, false, false, 0⟩

instance (w : World Nat depth) (i : Ports Nat) : Decidable (Apart w i) :=
  inferInstanceAs (Decidable (i.commit = true → i.abort = true → written w i = []))

/-- The second word is taken back, the other two are read. -/
theorem committed_popped_aborted :
    Faithful ([pushing 1 true false, pushing 2 false true, resting, pushing 3 true false, popping, popping].foldl step
      (start (fun _ => 0) 0 : World Nat 1)) :=
  (committed_popped (fun _ => 0) 0 [pushing 1 true false, pushing 2 false true, resting,
    pushing 3 true false, popping, popping]
    (by decide +kernel)).1

/-- A transaction that is committed and aborted in one clock is overwritten by the next one. -/
theorem committed_overwritten :
    Along step Allowed (start (fun _ => 0) 0 : World Nat 1) [pushing 1 true true, pushing 2 false false,
      resting, popping] ∧
      ¬Faithful ([pushing 1 true true, pushing 2 false false, resting, popping].foldl step
        (start (fun _ => 0) 0 : World Nat 1)) := by
  refine ⟨by decide +kernel, ?_⟩
  intro faithful
  exact absurd faithful.popped (by decide +kernel)

end BelProject.SlaveCore.CommitFifo
