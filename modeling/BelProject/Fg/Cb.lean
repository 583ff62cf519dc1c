import BelProject.Library.SpareRing
import Mathlib.Data.Fin.Basic

/-! The parameter sets of the function generators wait in circular buffers, one for each generator.
A buffer is a queue that loses its oldest set when it is written while full, but its count is the
distance of the pointers, which is the length of the queue only until the write pointer wraps.
What `cbRead` prints is left out. -/

namespace BelProject.Fg.Cb
open BelProject.Library
open Function (update update_of_ne update_self)

/-- `struct param_set` -/
structure ParamSet where
  coeffA : BitVec 16
  coeffB : BitVec 16
  coeffC : BitVec 32
  control : BitVec 32
  deriving DecidableEq

abbrev maxFgDevices : ℕ := 2 * 12

def bufferSize : ℕ := 10

/-- `struct circ_buffer` -/
structure CircBuffer where
  wrPtr : BitVec 32
  rdPtr : BitVec 32
  size : BitVec 32
  pset : ℕ → ParamSet

abbrev Buffers := Fin maxFgDevices → CircBuffer

section
variable (cb : Buffers) (num : Fin maxFgDevices)

def initBuffers : Buffers := fun i => { cb i with wrPtr := 0, rdPtr := 0, size := BitVec.ofNat 32 (bufferSize + 1) }

def cbisEmpty : Bool := (cb num).wrPtr == (cb num).rdPtr

def cbisFull : Bool := ((cb num).wrPtr + 1) % (cb num).size == (cb num).rdPtr

/-- `abs` of the difference as an `int`. -/
def cbgetCount : ℕ := ((cb num).wrPtr - (cb num).rdPtr).toInt.natAbs

/-- The write pointer moves in `int`s, the read pointer in unsigned numbers. -/
def cbWrite (pset : ParamSet) : Buffers :=
  let wptr := (cb num).wrPtr
  let moved := (wptr + 1).srem (cb num).size
  update cb num { cb num with
    pset := update (cb num).pset wptr.toNat pset
    wrPtr := moved
    rdPtr := if moved = (cb num).rdPtr then ((cb num).rdPtr + 1) % (cb num).size else (cb num).rdPtr }

/-- The buffers, and what is behind the pointer `pset` afterwards. -/
def cbRead (pset : ParamSet) : Buffers × ParamSet :=
  if (cb num).wrPtr = (cb num).rdPtr then (cb, pset)
  else
    (update cb num { cb num with rdPtr := ((cb num).rdPtr + 1).srem (cb num).size },
      (cb num).pset (cb num).rdPtr.toNat)

end

inductive Op where
  | write (num : Fin maxFgDevices) (pset : ParamSet)
  /-- With what is behind the pointer before. -/
  | read (num : Fin maxFgDevices) (pset : ParamSet)

/-- The buffers behind a call, and what a read gave. -/
def Op.exec (cb : Buffers) : Op → Buffers × List ParamSet
  | .write num pset => (cbWrite cb num pset, [])
  | .read num pset => ((cbRead cb num pset).1, [(cbRead cb num pset).2])

abbrev Queues := Fin maxFgDevices → List ParamSet

/-- A read of an empty queue leaves the set as it was. -/
def Op.serve (queues : Queues) : Op → Queues × List ParamSet
  | .write num pset => (update queues num (SpareRing.push bufferSize (queues num) pset), [])
  | .read num pset => (update queues num (queues num).tail, [(queues num).headD pset])

def run {σ : Type} (exec : σ → Op → σ × List ParamSet) (s : σ) (ops : List Op) : σ × List ParamSet :=
  ops.foldl (fun (s, given) op => ((exec s op).1, given ++ (exec s op).2)) (s, [])

structure Tells (cb : Buffers) (num : Fin maxFgDevices) (queue : List ParamSet) : Prop where
  empty : cbisEmpty cb num = true ↔ queue.length = 0
  full : cbisFull cb num = true ↔ queue.length = bufferSize
  count : cbgetCount cb num = queue.length

/-- After a sequence on buffers that were set up: the reads gave what the queues give, and the calls
tell their lengths. -/
structure Behaves (buf : Buffers) (ops : List Op) : Prop where
  given : (run Op.exec (initBuffers buf) ops).2 = (run Op.serve (fun _ => []) ops).2
  tells : ∀ num, Tells (run Op.exec (initBuffers buf) ops).1 num ((run Op.serve (fun _ => []) ops).1 num)

structure Stands (buffer : CircBuffer) (queue : List ParamSet) : Prop where
  size : buffer.size = BitVec.ofNat 32 (bufferSize + 1)
  laid : SpareRing.Laid buffer.pset (bufferSize + 1) buffer.wrPtr.toNat buffer.rdPtr.toNat queue

variable {cb : Buffers} {buffer : CircBuffer} {num : Fin maxFgDevices} {queue : List ParamSet}
  {queues : Queues} {pset : ParamSet}

theorem toNat_move {ptr : BitVec 32} (small : ptr.toNat < bufferSize + 1) :
    ((ptr + 1) % BitVec.ofNat 32 (bufferSize + 1)).toNat = (ptr.toNat + 1) % (bufferSize + 1) := by
  have room : ptr.toNat + 1 < 2 ^ 32 := Nat.lt_of_le_of_lt small (by decide)
  rw [BitVec.toNat_umod, BitVec.toNat_add_of_lt room]
  rfl

theorem srem_move {ptr : BitVec 32} (small : ptr.toNat < bufferSize + 1) :
    (ptr + 1).srem (BitVec.ofNat 32 (bufferSize + 1)) = (ptr + 1) % BitVec.ofNat 32 (bufferSize + 1) := by
  have room : ptr.toNat + 1 < 2 ^ 32 := Nat.lt_of_le_of_lt small (by decide)
  have positive : (ptr + 1).msb = false := by
    rw [bufferSize] at small
    rw [BitVec.msb_eq_false_iff_two_mul_lt, BitVec.toNat_add_of_lt room]
    change 2 * (ptr.toNat + 1) < 2 ^ 32
    omega
  have divisor : (BitVec.ofNat 32 (bufferSize + 1)).msb = false := by decide
  rw [BitVec.srem_eq, positive, divisor]

theorem Stands.write_lt (stands : Stands buffer queue) : buffer.wrPtr.toNat < bufferSize + 1 := stands.laid.write_lt

theorem Stands.read_lt (stands : Stands buffer queue) : buffer.rdPtr.toNat < bufferSize + 1 := stands.laid.read

section
variable (stands : Stands (cb num) queue)
include stands

theorem Stands.empty_iff : cbisEmpty cb num = true ↔ queue.length = 0 := by
  rw [cbisEmpty, beq_iff_eq, ← BitVec.toNat_inj]
  exact stands.laid.empty_iff

theorem Stands.full_iff : cbisFull cb num = true ↔ queue.length = bufferSize := by
  rw [cbisFull, beq_iff_eq, ← BitVec.toNat_inj, stands.size, toNat_move stands.write_lt]
  exact stands.laid.full_iff

theorem Stands.count : cbgetCount cb num = (((cb num).wrPtr.toNat : ℤ) - (cb num).rdPtr.toNat).natAbs := by
  have write := stands.write_lt
  have read := stands.read_lt
  rw [bufferSize] at write read
  rw [cbgetCount, BitVec.toInt_sub, BitVec.toInt_eq_toNat_of_lt (by omega), BitVec.toInt_eq_toNat_of_lt (by omega),
    Int.bmod_eq_of_le (by omega) (by omega)]

theorem Stands.count_iff : cbgetCount cb num = queue.length ↔ (cb num).rdPtr ≤ (cb num).wrPtr := by
  rw [BitVec.le_def, ← stands.laid.distance_iff rfl, stands.count]
  omega

theorem Stands.cbWrite (pset : ParamSet) : Stands (cbWrite cb num pset num) (SpareRing.push bufferSize queue pset) := by
  have pushed := stands.laid.push pset (by decide)
  rw [Cb.cbWrite, update_self]
  refine ⟨stands.size, ?_⟩
  dsimp only
  rw [stands.size, srem_move stands.write_lt, toNat_move stands.write_lt, apply_ite BitVec.toNat,
    toNat_move stands.read_lt]
  have same : (((cb num).wrPtr + 1) % BitVec.ofNat 32 (bufferSize + 1) = (cb num).rdPtr) =
      (((cb num).wrPtr.toNat + 1) % (bufferSize + 1) = (cb num).rdPtr.toNat) := by
    rw [← BitVec.toNat_inj, toNat_move stands.write_lt]
  simp only [same]
  exact pushed

theorem Stands.cbRead (pset : ParamSet) :
    Stands ((cbRead cb num pset).1 num) queue.tail ∧ (cbRead cb num pset).2 = queue.headD pset := by
  have empty := stands.empty_iff
  rw [cbisEmpty, beq_iff_eq] at empty
  rw [Cb.cbRead]
  cases queue with
  | nil =>
    rw [if_pos (empty.mpr rfl)]
    exact ⟨stands, rfl⟩
  | cons first rest =>
    rw [if_neg (mt empty.mp (Nat.succ_ne_zero _))]
    dsimp only
    rw [update_self]
    refine ⟨⟨stands.size, ?_⟩, stands.laid.front⟩
    dsimp only
    rw [stands.size, srem_move stands.read_lt, toNat_move stands.read_lt]
    exact stands.laid.pop

end

theorem cbRead_other {other : Fin maxFgDevices} (apart : other ≠ num) (pset : ParamSet) :
    (cbRead cb num pset).1 other = cb other := by
  rw [cbRead]
  split_ifs
  · rfl
  · exact update_of_ne apart _ _

theorem exec_stands (stands : ∀ num, Stands (cb num) (queues num)) (op : Op) :
    (∀ num, Stands ((op.exec cb).1 num) ((op.serve queues).1 num)) ∧ (op.exec cb).2 = (op.serve queues).2 := by
  cases op with
  | write num pset =>
    refine ⟨fun other => ?_, rfl⟩
    by_cases same : other = num
    · subst same
      change Stands _ (update queues other _ other)
      rw [update_self]
      exact (stands other).cbWrite pset
    · change Stands (update cb num _ other) (update queues num _ other)
      rw [update_of_ne same, update_of_ne same]
      exact stands other
  | read num pset =>
    obtain ⟨left, value⟩ := (stands num).cbRead pset
    refine ⟨fun other => ?_, congrArg (fun value => [value]) value⟩
    by_cases same : other = num
    · subst same
      change Stands _ (update queues other _ other)
      rw [update_self]
      exact left
    · change Stands ((cbRead cb num pset).1 other) (update queues num _ other)
      rw [cbRead_other same, update_of_ne same]
      exact stands other

theorem run_concat {σ : Type} (exec : σ → Op → σ × List ParamSet) (s : σ) (ops : List Op) (op : Op) :
    run exec s (ops ++ [op]) = ((exec (run exec s ops).1 op).1,
      (run exec s ops).2 ++ (exec (run exec s ops).1 op).2) := by
  rw [run, List.foldl_append]
  rfl

theorem init_stands (buf : Buffers) (num : Fin maxFgDevices) : Stands (initBuffers buf num) [] :=
  ⟨rfl, SpareRing.laid_nil _ (by decide)⟩

theorem run_stands (buf : Buffers) (ops : List Op) :
    (∀ num, Stands ((run Op.exec (initBuffers buf) ops).1 num) ((run Op.serve (fun _ => []) ops).1 num)) ∧
      (run Op.exec (initBuffers buf) ops).2 = (run Op.serve (fun _ => []) ops).2 := by
  induction ops using List.reverseRecOn with
  | nil => exact ⟨init_stands buf, rfl⟩
  | append_singleton ops op ih =>
    obtain ⟨stands, given⟩ := ih
    obtain ⟨next, value⟩ := exec_stands stands op
    rw [run_concat, run_concat]
    exact ⟨next, by rw [given, value]⟩

/-- The buffers behave as queues, their counts included, as long as no write pointer is behind its
read pointer. -/
theorem behaves_iff (buf : Buffers) (ops : List Op) :
    Behaves buf ops ↔
      ∀ num, ((run Op.exec (initBuffers buf) ops).1 num).rdPtr ≤ ((run Op.exec (initBuffers buf) ops).1 num).wrPtr := by
  obtain ⟨stands, given⟩ := run_stands buf ops
  constructor
  · intro behaves num
    exact (stands num).count_iff.mp (behaves.tells num).count
  · intro ordered
    exact ⟨given, fun num => ⟨(stands num).empty_iff, (stands num).full_iff, (stands num).count_iff.mpr (ordered num)⟩⟩

/-- Ten sets in, two out and one in: the write pointer is at 0, and the count of the nine sets is 2. -/
theorem wrapped_miscounts :
    ¬ Behaves (fun _ => ⟨0, 0, 0, fun _ => ⟨0, 0, 0, 0⟩⟩)
      (List.replicate 10 (.write 0 ⟨1, 2, 3, 4⟩) ++ List.replicate 2 (.read 0 ⟨0, 0, 0, 0⟩) ++
        [.write 0 ⟨5, 6, 7, 8⟩]) := by
  intro behaves
  exact absurd (behaves.tells 0).count (by decide +kernel)

end BelProject.Fg.Cb
