import Mathlib.Computability.StateTransition
import Mathlib.Data.BitVec
import Mathlib.Data.List.Range
import BelProject.Library.Bits

/-! `eb-put` and `eb-get`. Both move a range of bytes in three loops: single transfers of the
smallest size up to a multiple of the largest one, batches of the largest size, and single
transfers again for what is left. `eb-put` reads what it writes from a file and gives up when
the file ends. -/

namespace BelProject.Tools.FileTransfer
open BelProject.Library StateTransition

inductive Tool where
  | put
  | get
  deriving DecidableEq, Repr

/-- What the loops start from. An `eb_address_t` has `w` bits. -/
structure Job (w : Nat) where
  tool : Tool
  address : BitVec w
  length : BitVec w
  /-- the sizes under `EB_DATAX` that line and device support -/
  writeSizes : BitVec 4
  /-- `cycles` to pack before the socket is run -/
  cycles : Nat
  wide : 4 ≤ w
  permits : writeSizes ≠ 0
  positive : 0 < cycles

def bulkOf (writeSizes : BitVec 4) : BitVec 4 :=
  let once := writeSizes ||| writeSizes >>> 1
  let twice := once ||| once >>> 2
  twice ^^^ twice >>> 1

def edgeOf (writeSizes : BitVec 4) : BitVec 4 := writeSizes &&& -writeSizes

def operationsPerCycle : Nat := 32

structure Operation (w : Nat) where
  address : BitVec w
  size : Nat
  deriving DecidableEq, Repr

inductive Phase where
  | head
  | bulk
  | tail
  | done
  | failed
  deriving DecidableEq, Repr

structure State (w : Nat) where
  phase : Phase
  pos : BitVec w
  cycle : Nat
  /-- bytes `fread` can still deliver -/
  left : Nat
  /-- operations of closed cycles the socket has not sent -/
  queued : List (Operation w)
  sent : List (Operation w)
  deriving DecidableEq, Repr

variable {w : Nat}

namespace Job
variable (j : Job w)

def bulk : Nat := (bulkOf j.writeSizes).toNat

def edge : Nat := (edgeOf j.writeSizes).toNat

/-- `bulk - 1`. -/
def mask : BitVec w := BitVec.ofNat w j.bulk - 1

def endAddress : BitVec w := j.address + j.length

def endBulk : BitVec w := j.endAddress &&& ~~~j.mask

def start : State w := ⟨.head, j.address, 0, j.length.toNat, [], []⟩

end Job

def operations (pos : BitVec w) (size count : Nat) : List (Operation w) :=
  (List.range count).map fun i => ⟨pos + BitVec.ofNat w (i * size), size⟩

def State.close (s : State w) (size count : Nat) : State w :=
  { s with
    pos := s.pos + BitVec.ofNat w (count * size)
    left := s.left - count * size
    queued := s.queued ++ operations s.pos size count }

/-- `eb_socket_run` until no cycle is left. -/
def State.flush (s : State w) : State w := { s with queued := [], sent := s.sent ++ s.queued }

/-- Some `fread` comes up short, and the tool exits with the cycle open. -/
def Short (j : Job w) (s : State w) (bytes : Nat) : Prop := j.tool = .put ∧ s.left < bytes

instance (j : Job w) (s : State w) (bytes : Nat) : Decidable (Short j s bytes) :=
  inferInstanceAs (Decidable (j.tool = .put ∧ s.left < bytes))

/-- `transfer`, and what follows it. -/
def transfer (j : Job w) (s : State w) (size count : Nat) (next : State w → State w) : State w :=
  if Short j s (count * size) then { s with phase := .failed } else next (s.close size count)

/-- `step` of the bulk loop. -/
def chunk (j : Job w) (s : State w) : Nat := min ((j.endBulk - s.pos).toNat / j.bulk) operationsPerCycle

/-- Every `cycles` cycles the socket is run. -/
def counted (j : Job w) (s : State w) : State w :=
  if s.cycle + 1 = j.cycles then { s.flush with cycle := 0 } else { s with cycle := s.cycle + 1 }

def step (j : Job w) (s : State w) : Option (State w) :=
  match s.phase with
  | .head => if s.pos &&& j.mask ≠ 0 then some (transfer j s j.edge 1 id) else some { s.flush with phase := .bulk }
  | .bulk => if s.pos < j.endBulk then some (transfer j s j.bulk (chunk j s) (counted j))
      else some { s with phase := .tail }
  | .tail => if s.pos < j.endAddress then some (transfer j s j.edge 1 id) else some { s.flush with phase := .done }
  | .done => none
  | .failed => none

/-- The bytes the operations touch, in their order. -/
def touched (ops : List (Operation w)) : List Nat := ops.flatMap fun op => List.range' op.address.toNat op.size

def Permitted (j : Job w) (size : Nat) : Prop := ∃ i < 4, j.writeSizes.getLsbD i = true ∧ size = 2 ^ i

structure Plan (j : Job w) (ops : List (Operation w)) : Prop where
  covers : touched ops = List.range' j.address.toNat j.length.toNat
  aligned : ∀ op ∈ ops, Permitted j op.size ∧ op.size ∣ op.address.toNat

/-- The tool ends. What it sent by then is a plan if there is one, and nothing otherwise. -/
def Covers (j : Job w) : Prop :=
  ∃ s ∈ eval (step j) j.start, ((∃ ops, Plan j ops) → Plan j s.sent) ∧ ((¬∃ ops, Plan j ops) → s.sent = [])

/-- The first multiple of the largest size at or above the start. -/
def Job.boundary (j : Job w) : Nat := j.address.toNat + (j.bulk - j.address.toNat % j.bulk) % j.bulk

/-- The cycles it takes to move so many bytes in units of the largest size. -/
def Job.batches (j : Job w) (bytes : Nat) : Nat := (bytes / j.bulk + operationsPerCycle - 1) / operationsPerCycle

/-- There is a plan, the first boundary is not behind the end, and an end at the top of the
address space is that boundary. -/
structure Regular (j : Job w) : Prop where
  address : j.edge ∣ j.address.toNat
  length : j.edge ∣ j.length.toNat
  reaches : j.boundary ≤ j.address.toNat + j.length.toNat
  ends : j.address.toNat + j.length.toNat < 2 ^ w ∨ j.address.toNat + j.length.toNat = 2 ^ w ∧ j.boundary = 2 ^ w

/-- No loop is entered at all: the end wrapped around. -/
def Wrapped (j : Job w) : Prop := j.bulk ∣ j.address.toNat ∧ 2 ^ w < j.address.toNat + j.length.toNat

def Unsent (j : Job w) : Prop :=
  j.tool = .put ∧ (j.length = 0 ∨ ¬j.edge ∣ j.address.toNat ∨
    ¬j.edge ∣ j.length.toNat ∧ (j.address.toNat + j.length.toNat < j.boundary ∨
      j.bulk ∣ j.address.toNat ∧ j.address.toNat + j.length.toNat < 2 ^ w ∧ j.batches j.length.toNat < j.cycles))

section
variable (j : Job w)

theorem sizes_table : ∀ sizes : BitVec 4, sizes ≠ 0 →
    (∃ i < 4, sizes.getLsbD i = true ∧ (bulkOf sizes).toNat = 2 ^ i) ∧
      (∃ i < 4, sizes.getLsbD i = true ∧ (edgeOf sizes).toNat = 2 ^ i) ∧
        (edgeOf sizes).toNat ∣ (bulkOf sizes).toNat ∧
          ∀ i < 4, sizes.getLsbD i = true → (edgeOf sizes).toNat ∣ 2 ^ i := by
  decide

theorem bulk_permitted : Permitted j j.bulk := (sizes_table j.writeSizes j.permits).1

theorem edge_permitted : Permitted j j.edge := (sizes_table j.writeSizes j.permits).2.1

theorem edge_dvd_bulk : j.edge ∣ j.bulk := (sizes_table j.writeSizes j.permits).2.2.1

variable {size : Nat}

theorem Permitted.edge_dvd {j : Job w} (permitted : Permitted j size) : j.edge ∣ size := by
  obtain ⟨i, small, bit, rfl⟩ := permitted
  exact (sizes_table j.writeSizes j.permits).2.2.2 i small bit

theorem Permitted.positive {j : Job w} (permitted : Permitted j size) : 0 < size := by
  obtain ⟨i, _, _, rfl⟩ := permitted
  exact Nat.two_pow_pos i

theorem Permitted.dvd_space {j : Job w} (permitted : Permitted j size) : size ∣ 2 ^ w := by
  obtain ⟨i, small, _, rfl⟩ := permitted
  exact Nat.pow_dvd_pow 2 (by have := j.wide; omega)

theorem Permitted.lt_space {j : Job w} (permitted : Permitted j size) : size < 2 ^ w := by
  obtain ⟨i, small, _, rfl⟩ := permitted
  exact Nat.pow_lt_pow_right (by decide) (by have := j.wide; omega)

theorem mask_toNat : j.mask.toNat = j.bulk - 1 := by
  have small := (bulk_permitted j).lt_space
  have positive := (bulk_permitted j).positive
  have one : 1 % 2 ^ w = 1 := Nat.mod_eq_of_lt (by omega)
  rw [Job.mask, BitVec.toNat_sub, BitVec.toNat_ofNat, Nat.mod_eq_of_lt small]
  show (2 ^ w - 1 % 2 ^ w + j.bulk) % 2 ^ w = j.bulk - 1
  rw [one, show 2 ^ w - 1 + j.bulk = j.bulk - 1 + 2 ^ w by omega, Nat.add_mod_right, Nat.mod_eq_of_lt (by omega)]

theorem and_mask (pos : BitVec w) : (pos &&& j.mask).toNat = pos.toNat % j.bulk := by
  rw [BitVec.toNat_and, mask_toNat]
  obtain ⟨i, _, _, power⟩ := bulk_permitted j
  rw [power, Nat.and_two_pow_sub_one_eq_mod]

theorem head_iff (pos : BitVec w) : pos &&& j.mask ≠ 0 ↔ ¬j.bulk ∣ pos.toNat := by
  rw [Ne, ← BitVec.toNat_inj, and_mask, Nat.dvd_iff_mod_eq_zero]
  exact Iff.rfl

theorem endBulk_toNat : j.endBulk.toNat = j.endAddress.toNat - j.endAddress.toNat % j.bulk := by
  have small := (bulk_permitted j).lt_space
  have positive := (bulk_permitted j).positive
  have cleared : (~~~j.mask).toNat = 2 ^ w - j.bulk := by
    rw [BitVec.toNat_not, mask_toNat]
    omega
  obtain ⟨i, inside, _, power⟩ := bulk_permitted j
  rw [Job.endBulk, BitVec.toNat_and, cleared, power, Bits.and_mask_range _ (by have := j.wide; omega),
    Nat.mod_eq_of_lt j.endAddress.isLt]

theorem edge_dvd_space : j.edge ∣ 2 ^ w := (edge_permitted j).dvd_space

theorem bulk_dvd_boundary : j.bulk ∣ j.boundary := by
  have positive := (bulk_permitted j).positive
  have rest := Nat.mod_lt j.address.toNat positive
  have whole := Nat.div_add_mod j.address.toNat j.bulk
  rw [Job.boundary]
  rcases Nat.eq_zero_or_pos (j.address.toNat % j.bulk) with aligned | ragged
  · rw [aligned, Nat.sub_zero, Nat.mod_self, Nat.add_zero]
    exact Nat.dvd_of_mod_eq_zero aligned
  · rw [Nat.mod_eq_of_lt (by omega)]
    refine ⟨j.address.toNat / j.bulk + 1, ?_⟩
    rw [Nat.mul_succ]
    omega

theorem boundary_low : j.address.toNat ≤ j.boundary := Nat.le_add_right _ _

theorem boundary_near : j.boundary < j.address.toNat + j.bulk :=
  Nat.add_lt_add_left (Nat.mod_lt _ (bulk_permitted j).positive) _

theorem boundary_first {n : Nat} (low : j.address.toNat ≤ n) (high : n < j.boundary) : ¬j.bulk ∣ n := by
  intro aligned
  have near := boundary_near j
  have apart := Nat.dvd_sub (bulk_dvd_boundary j) aligned
  exact absurd (Nat.le_of_dvd (by omega) apart) (by omega)

theorem boundary_eq_iff : j.boundary = j.address.toNat ↔ j.bulk ∣ j.address.toNat := by
  constructor
  · intro same
    rw [← same]
    exact bulk_dvd_boundary j
  · intro aligned
    rcases Nat.lt_or_ge j.address.toNat j.boundary with above | below
    · exact absurd aligned (boundary_first j le_rfl above)
    · exact le_antisymm below (boundary_low j)

theorem boundary_space : j.boundary ≤ 2 ^ w := by
  by_contra above
  exact boundary_first j j.address.isLt.le (Nat.lt_of_not_le above) (bulk_permitted j).dvd_space

end

section
variable {j : Job w}

theorem touched_append (ops more : List (Operation w)) : touched (ops ++ more) = touched ops ++ touched more :=
  List.flatMap_append

theorem touched_operations (pos : BitVec w) {size : Nat} (positive : 0 < size) (count : Nat)
    (inside : pos.toNat + count * size ≤ 2 ^ w) :
    touched (operations pos size count) = List.range' pos.toNat (count * size) := by
  induction count with
  | zero =>
    rw [Nat.zero_mul]
    rfl
  | succ count ih =>
    rw [Nat.succ_mul] at inside
    have here : (pos + BitVec.ofNat w (count * size)).toNat = pos.toNat + count * size := by
      rw [BitVec.toNat_add, BitVec.toNat_ofNat, Nat.mod_eq_of_lt (a := count * size) (by omega),
        Nat.mod_eq_of_lt (by omega)]
    have last : touched [⟨pos + BitVec.ofNat w (count * size), size⟩] =
      List.range' (pos.toNat + count * size) size := by
      rw [touched, List.flatMap_singleton, here]
    rw [operations, List.range_succ, List.map_append, touched_append, Nat.succ_mul]
    change touched (operations pos size count) ++ touched [⟨pos + BitVec.ofNat w (count * size), size⟩] = _
    rw [ih (by omega), last, ← List.range'_append_1]

theorem aligned_operations {pos : BitVec w} {size : Nat} (permitted : Permitted j size)
    (aligned : size ∣ pos.toNat) (count : Nat) :
    ∀ op ∈ operations pos size count, Permitted j op.size ∧ op.size ∣ op.address.toNat := by
  intro op listed
  obtain ⟨i, _, rfl⟩ := List.mem_map.mp listed
  refine ⟨permitted, ?_⟩
  rw [BitVec.toNat_add, BitVec.toNat_ofNat, Nat.dvd_mod_iff permitted.dvd_space]
  apply Nat.dvd_add aligned
  rw [Nat.dvd_mod_iff permitted.dvd_space]
  exact Nat.dvd_mul_left _ _

variable {ops : List (Operation w)}

theorem touched_nil (permitted : ∀ op ∈ ops, Permitted j op.size ∧ op.size ∣ op.address.toNat)
    (none : touched ops = []) : ops = [] := by
  cases ops with
  | nil => rfl
  | cons op ops =>
    have positive := (permitted op List.mem_cons_self).1.positive
    have empty := (List.append_eq_nil_iff.mp none).1
    rw [List.range'_eq_nil_iff] at empty
    omega

theorem touched_length_dvd (permitted : ∀ op ∈ ops, Permitted j op.size ∧ op.size ∣ op.address.toNat) :
    j.edge ∣ (touched ops).length := by
  induction ops with
  | nil => exact Nat.dvd_zero _
  | cons op ops ih =>
    rw [touched, List.flatMap_cons, List.length_append, List.length_range']
    exact Nat.dvd_add (permitted op List.mem_cons_self).1.edge_dvd (ih fun op listed =>
      permitted op (List.mem_cons_of_mem _ listed))

theorem touched_lt (permitted : ∀ op ∈ ops, Permitted j op.size ∧ op.size ∣ op.address.toNat) :
    ∀ byte ∈ touched ops, byte < 2 ^ w := by
  intro byte touched
  obtain ⟨op, listed, inside⟩ := List.mem_flatMap.mp touched
  obtain ⟨size, aligned⟩ := permitted op listed
  obtain ⟨k, offset, rfl⟩ := List.mem_range'.mp inside
  have room : op.address.toNat + op.size ≤ 2 ^ w := by
    have gap := Nat.dvd_sub size.dvd_space aligned
    have below := op.address.isLt
    have := Nat.le_of_dvd (by omega) gap
    omega
  omega

theorem plan_iff : (∃ ops, Plan j ops) ↔ j.length.toNat = 0 ∨
    j.edge ∣ j.address.toNat ∧ j.edge ∣ j.length.toNat ∧ j.address.toNat + j.length.toNat ≤ 2 ^ w := by
  constructor
  · rintro ⟨ops, covers, aligned⟩
    rcases Nat.eq_zero_or_pos j.length.toNat with none | some
    · exact .inl none
    right
    have whole := touched_length_dvd aligned
    rw [covers, List.length_range'] at whole
    refine ⟨?_, whole, ?_⟩
    · cases ops with
      | nil =>
        have empty := congrArg List.length covers
        rw [List.length_range'] at empty
        exact absurd empty some.ne
      | cons op ops =>
        obtain ⟨size, multiple⟩ := aligned op List.mem_cons_self
        have first := congrArg List.head? covers
        rw [touched, List.flatMap_cons, List.head?_append, List.head?_range', List.head?_range',
          if_neg size.positive.ne',
          if_neg some.ne', Option.some_or, Option.some_inj] at first
        rw [← first]
        exact size.edge_dvd.trans multiple
    · have last : j.address.toNat + (j.length.toNat - 1) ∈ touched ops := by
        rw [covers, List.mem_range'_1]
        omega
      have below := touched_lt aligned _ last
      omega
  · rintro (none | ⟨address, ⟨count, length⟩, inside⟩)
    · refine ⟨[], ?_, fun op listed => absurd listed List.not_mem_nil⟩
      rw [none]
      rfl
    · rw [Nat.mul_comm] at length
      refine ⟨operations j.address j.edge count, ?_, aligned_operations (edge_permitted j) address count⟩
      rw [touched_operations j.address (edge_permitted j).positive count (by omega), length]

end

end BelProject.Tools.FileTransfer
