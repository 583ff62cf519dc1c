import BelProject.Library.Runs
import BelProject.Tools.Flash
import Mathlib.Data.List.Perm.Basic
import Mathlib.Data.List.Range
import Mathlib.Data.Nat.Log

/-! `quick_scan`. Reads of all sectors that the range touches are in flight together, and their
callbacks, in any order, mark the sectors to erase in `erase_bitmap`. -/

namespace BelProject.Tools.FlashScan
open Flash Library.Memory

/-- The memory from `erase_bitmap` on, and in front of it, by byte and bit. -/
abbrev Bitmap := ℤ → ℕ → Bool

/-- What a scan depends on. With the k-th call `eb_socket_run` finishes some of the cycles in
flight, one at least, which the schedule picks one after the other. -/
structure Setup where
  job : Job
  sectorSize : ℕ
  cyclesPerPoll : ℕ
  flash : Mem
  schedule : ℕ → ℕ × List ℕ
  heap : Bitmap

/-- The conversion to an `int`. -/
def toInt (n : ℕ) : ℤ := Int.bmod n (2 ^ 32)

/-- `erase_bitmap_size` -/
def bitmapSize (j : Job) : ℤ := toInt (j.firmwareLength / pageSize / 8)

/-- `offset/8` and `offset&7` -/
def byteOf (offset : ℤ) : ℤ := offset.tdiv 8
def bitOf (offset : ℤ) : ℕ := (offset % 8).toNat

def bitmaskGet (bitmap : Bitmap) (offset : ℤ) : Bool := bitmap (byteOf offset) (bitOf offset)

/-- `bitmask_set` with a one. -/
def bitmaskSet (bitmap : Bitmap) (offset : ℤ) : Bitmap :=
  fun byte bit => if byte = byteOf offset ∧ bit = bitOf offset then true else bitmap byte bit

/-- A scan with the open cycle, the cycles in flight, the calls of `eb_socket_run`, and the indices
that were used so far. -/
structure Scan where
  bitmap : Bitmap
  used : List ℤ
  ops : List ℕ
  inflight : List (List ℕ)
  calls : ℕ

section
variable (c : Setup)

/-- `first_sector` and `last_sector`, which is zero again at the top of the address space. -/
def firstSector : ℕ := c.job.address / c.sectorSize * c.sectorSize
def lastSector : ℕ := (c.job.address + c.job.firmwareLength + c.sectorSize - 1) % 2 ^ 64 / c.sectorSize * c.sectorSize

def sectors : ℕ := (lastSector c + 2 ^ 64 - firstSector c) % 2 ^ 64 / c.sectorSize
def sector (k : ℕ) : ℕ := firstSector c + k * c.sectorSize

/-- `(eb_operation_address(op) - address) / sector_size` -/
def index (a : ℕ) : ℤ := toInt ((a + 2 ^ 64 - c.job.address) % 2 ^ 64 / c.sectorSize)

def dirty (a : ℕ) : Bool := readWord c.job.endian c.job.size c.flash a != ffs c.job.size

/-- The check of a read in `detect_decrement`. -/
def detect (s : Scan) (a : ℕ) : Scan :=
  if dirty c a then { s with bitmap := bitmaskSet s.bitmap (index c a), used := s.used ++ [index c a] } else s

/-- A cycle in flight is finished, and `detect_decrement` called for it. -/
def answer (s : Scan) (pick : ℕ) : Scan :=
  match s.inflight[pick % s.inflight.length]? with
  | none => s
  | some cycle => cycle.foldl (detect c) { s with inflight := s.inflight.eraseIdx (pick % s.inflight.length) }

/-- `eb_socket_run` -/
def socketRun (s : Scan) : Scan :=
  ((c.schedule s.calls).1 :: (c.schedule s.calls).2).foldl (answer c) { s with calls := s.calls + 1 }

/-- `while (inflight >= limit) eb_socket_run` -/
def wait (limit : ℕ) : ℕ → Scan → Scan
  | 0, s => s
  | fuel + 1, s => if limit ≤ s.inflight.length then wait limit fuel (socketRun c s) else s

/-- `++inflight`, `eb_cycle_close` -/
def close (s : Scan) : Scan := { s with ops := [], inflight := s.inflight ++ [s.ops] }

/-- `eb_cycle_read`, with the end of a cycle. -/
def readStep (s : Scan) (position : ℕ) : Scan :=
  let s := { s with ops := s.ops ++ [position] }
  if s.ops.length = pageSize / c.job.size then
    let s := close s
    wait c c.cyclesPerPoll s.inflight.length s
  else s

def positions (k offset len : ℕ) : List ℕ := (List.range (len / c.job.size)).map fun t =>
    sector c k + offset + t * c.job.size

def sectorStep (offset len : ℕ) (s : Scan) (k : ℕ) : Scan :=
  let skip := bitmaskGet s.bitmap (toInt k)
  let s := { s with used := s.used ++ [toInt k] }
  if skip then s else (positions c k offset len).foldl (readStep c) s

def quickScanGap (s : Scan) (offset len : ℕ) : Scan :=
  let s := (List.range (sectors c)).foldl (sectorStep c offset len) s
  let s := if s.ops.isEmpty then s else close s
  wait c 1 s.inflight.length s

/-- The offsets and gaps of `quick_scan`. -/
def gaps (sectorSize : ℕ) : ℕ → ℕ → ℕ → List (ℕ × ℕ)
  | 0, _, _ => []
  | fuel + 1, offset, gap => if offset = sectorSize then []
      else (offset, gap) :: gaps sectorSize fuel (offset + gap) (gap + gap)

/-- Behind `calloc`. -/
def start : Scan where
  bitmap := fun byte bit => if 0 ≤ byte ∧ byte < bitmapSize c.job then false else c.heap byte bit
  used := []
  ops := []
  inflight := []
  calls := 0

def quickScan : Scan := ((0, 8) :: gaps c.sectorSize 64 8 8).foldl (fun s gap => quickScanGap c s gap.1 gap.2) (start c)

def Dirty (k : ℕ) : Prop := ∃ t < c.sectorSize / c.job.size, dirty c (sector c k + t * c.job.size) = true

end

variable {c : Setup} {s s' : Scan}

def Valid (c : Setup) (a : ℕ) : Prop :=
  ∃ k < sectors c, ∃ t < c.sectorSize / c.job.size, a = sector c k + t * c.job.size

def Pending (s : Scan) (a : ℕ) : Prop := a ∈ s.ops ∨ ∃ cycle ∈ s.inflight, a ∈ cycle

/-- The word is blank, or the bit of its index is set. -/
def Served (c : Setup) (s : Scan) (a : ℕ) : Prop := dirty c a = false ∨ bitmaskGet s.bitmap (index c a) = true

def Seen (c : Setup) (s : Scan) (a : ℕ) : Prop := Pending s a ∨ Served c s a

structure Good (c : Setup) (s : Scan) : Prop where
  valid : ∀ a, Pending s a → Valid c a
  bits : ∀ byte bit, s.bitmap byte bit = true →
    (start c).bitmap byte bit = true ∨ ∃ a, Valid c a ∧ dirty c a = true ∧ byte = byteOf (index c a) ∧
      bit = bitOf (index c a)
  used : ∀ i ∈ s.used, (∃ k < sectors c, i = toInt k) ∨ ∃ a, Valid c a ∧ i = index c a

structure Goes (c : Setup) (s s' : Scan) : Prop where
  bits : ∀ byte bit, s.bitmap byte bit = true → s'.bitmap byte bit = true
  used : ∀ i ∈ s.used, i ∈ s'.used
  seen : ∀ a, Seen c s a → Seen c s' a
  good : Good c s → Good c s'

theorem Goes.refl (c : Setup) (s : Scan) : Goes c s s := ⟨fun _ _ => id, fun _ => id, fun _ => id, id⟩

theorem Goes.trans {s'' : Scan} (first : Goes c s s') (second : Goes c s' s'') : Goes c s s'' where
  bits byte bit set := second.bits byte bit (first.bits byte bit set)
  used i member := second.used i (first.used i member)
  seen a seen := second.seen a (first.seen a seen)
  good good := second.good (first.good good)

theorem Goes.marked (goes : Goes c s s') {i : ℤ} (set : bitmaskGet s.bitmap i = true) : bitmaskGet s'.bitmap i = true :=
  goes.bits (byteOf i) (bitOf i) set

theorem Good.marked (good : Good c s) {i : ℤ} (set : bitmaskGet s.bitmap i = true) :
    bitmaskGet (start c).bitmap i = true ∨
    ∃ a, Valid c a ∧ dirty c a = true ∧ byteOf i = byteOf (index c a) ∧ bitOf i = bitOf (index c a) :=
  good.bits (byteOf i) (bitOf i) set

theorem Goes.foldl {α : Type} {f : Scan → α → Scan} (steps : ∀ s x, Goes c s (f s x)) (l : List α)
    (s : Scan) : Goes c s (l.foldl f s) :=
  (Library.Runs.foldl_reaches (Goes.refl c) Goes.trans (fun _ _ => True) (fun _ => id)
    (fun x _ s => ⟨steps s x, trivial⟩) s).1

theorem Served.mono {a : ℕ} (bits : ∀ byte bit, s.bitmap byte bit = true → s'.bitmap byte bit = true)
    (served : Served c s a) : Served c s' a :=
  served.imp_right (bits _ _)

theorem bitmaskGet_set (bitmap : Bitmap) (i : ℤ) : bitmaskGet (bitmaskSet bitmap i) i = true := by
  rw [bitmaskGet, bitmaskSet, if_pos ⟨rfl, rfl⟩]

theorem detect_parts (s : Scan) (a : ℕ) :
    (detect c s a).ops = s.ops ∧ (detect c s a).inflight = s.inflight ∧ (detect c s a).calls = s.calls ∧
      (∀ byte bit, s.bitmap byte bit = true → (detect c s a).bitmap byte bit = true) ∧ Served c (detect c s a) a ∧
      (∀ i ∈ s.used, i ∈ (detect c s a).used) := by
  rw [detect]
  cases marks : dirty c a with
  | false => exact ⟨rfl, rfl, rfl, fun _ _ => id, Or.inl marks, fun _ => id⟩
  | true =>
    rw [if_pos rfl]
    refine ⟨rfl, rfl, rfl, ?_, Or.inr ?_, fun i => List.mem_append_left _⟩
    · intro byte bit set
      change bitmaskSet s.bitmap (index c a) byte bit = true
      rw [bitmaskSet]
      split_ifs
      · rfl
      · exact set
    · exact bitmaskGet_set s.bitmap (index c a)

theorem detect_good {a : ℕ} (valid : Valid c a) (good : Good c s) : Good c (detect c s a) := by
  obtain ⟨ops, inflight, _⟩ := detect_parts (c := c) s a
  refine ⟨fun b pending => ?_, ?_, ?_⟩
  · rw [Pending, ops, inflight] at pending
    exact good.valid b pending
  · rw [detect]
    cases marks : dirty c a with
    | false => exact good.bits
    | true =>
      intro byte bit set
      change bitmaskSet s.bitmap (index c a) byte bit = true at set
      rw [bitmaskSet] at set
      split_ifs at set with here
      · exact Or.inr ⟨a, valid, marks, here.1, here.2⟩
      · exact good.bits byte bit set
  · rw [detect]
    cases marks : dirty c a with
    | false => exact good.used
    | true =>
      intro i member
      rcases List.mem_append.mp member with member | member
      · exact good.used i member
      · exact Or.inr ⟨a, valid, List.mem_singleton.mp member⟩

theorem cycle_parts (cycle : List ℕ) (s : Scan) :
    (cycle.foldl (detect c) s).ops = s.ops ∧ (cycle.foldl (detect c) s).inflight = s.inflight ∧
      (∀ byte bit, s.bitmap byte bit = true → (cycle.foldl (detect c) s).bitmap byte bit = true) ∧
      (∀ a ∈ cycle, Served c (cycle.foldl (detect c) s) a) ∧ (∀ i ∈ s.used, i ∈ (cycle.foldl (detect c) s).used) := by
  induction cycle generalizing s with
  | nil => exact ⟨rfl, rfl, fun _ _ => id, fun a none => absurd none List.not_mem_nil, fun _ => id⟩
  | cons a cycle ih =>
    obtain ⟨ops, inflight, _, bits, served, used⟩ := detect_parts (c := c) s a
    obtain ⟨ops', inflight', bits', served', used'⟩ := ih (detect c s a)
    rw [List.foldl_cons]
    refine ⟨ops'.trans ops, inflight'.trans inflight, fun byte bit set =>
      bits' byte bit (bits byte bit set), ?_, fun i member => used' i (used i member)⟩
    intro b member
    rcases List.mem_cons.mp member with rfl | member
    · exact served.mono bits'
    · exact served' b member

theorem cycle_good {cycle : List ℕ} (valid : ∀ a ∈ cycle, Valid c a) (good : Good c s) :
    Good c (cycle.foldl (detect c) s) := by
  induction cycle generalizing s with
  | nil => exact good
  | cons a cycle ih =>
    exact ih (fun b later => valid b (List.mem_cons_of_mem a later)) (detect_good (valid a List.mem_cons_self) good)

theorem answer_goes (s : Scan) (pick : ℕ) : Goes c s (answer c s pick) := by
  rw [answer]
  cases found : s.inflight[pick % s.inflight.length]? with
  | none => exact Goes.refl c s
  | some cycle =>
    obtain ⟨inside, here⟩ := List.getElem?_eq_some_iff.mp found
    have perm := List.getElem_cons_eraseIdx_perm inside
    rw [here] at perm
    obtain ⟨ops, inflight, bits, served, used⟩ :=
      cycle_parts (c := c) cycle { s with inflight := s.inflight.eraseIdx (pick % s.inflight.length) }
    refine ⟨bits, used, ?_, ?_⟩
    · rintro a ((opened | ⟨other, member, inside⟩) | done)
      · left
        left
        rw [ops]
        exact opened
      · rcases List.mem_cons.mp (perm.mem_iff.mpr member) with rfl | rest
        · exact Or.inr (served a inside)
        · left
          right
          refine ⟨other, ?_, inside⟩
          rw [inflight]
          exact rest
      · exact Or.inr (done.mono bits)
    · intro good
      apply cycle_good
      · intro a member
        exact good.valid a (Or.inr ⟨cycle, perm.mem_iff.mp List.mem_cons_self, member⟩)
      · refine ⟨?_, good.bits, good.used⟩
        rintro a (opened | ⟨other, member, inside⟩)
        · exact good.valid a (Or.inl opened)
        · exact good.valid a (Or.inr ⟨other, perm.mem_iff.mp (List.mem_cons_of_mem cycle member), inside⟩)

theorem answer_ops (s : Scan) (pick : ℕ) : (answer c s pick).ops = s.ops := by
  rw [answer]
  cases s.inflight[pick % s.inflight.length]? with
  | none => rfl
  | some cycle => exact (cycle_parts cycle _).1

theorem answer_length (s : Scan) (pick : ℕ) : (answer c s pick).inflight.length = s.inflight.length - 1 := by
  rw [answer]
  cases found : s.inflight[pick % s.inflight.length]? with
  | none =>
    have outside := List.getElem?_eq_none_iff.mp found
    have empty : s.inflight.length = 0 := by
      by_contra some
      have inside := Nat.mod_lt pick (Nat.pos_of_ne_zero some)
      omega
    dsimp only
    omega
  | some cycle =>
    obtain ⟨inside, _⟩ := List.getElem?_eq_some_iff.mp found
    dsimp only
    rw [(cycle_parts cycle _).2.1]
    exact List.length_eraseIdx_of_lt inside

theorem socketRun_goes (s : Scan) : Goes c s (socketRun c s) := by
  have called : Goes c s { s with calls := s.calls + 1 } :=
    ⟨fun _ _ => id, fun _ => id, fun _ => id, fun good => ⟨good.valid, good.bits, good.used⟩⟩
  exact called.trans (Goes.foldl answer_goes _ _)

theorem socketRun_parts (s : Scan) :
    (socketRun c s).ops = s.ops ∧ (socketRun c s).inflight.length ≤ s.inflight.length - 1 := by
  have more : ∀ (picks : List ℕ) (s : Scan), (picks.foldl (answer c) s).ops = s.ops ∧
    (picks.foldl (answer c) s).inflight.length ≤ s.inflight.length := by
    intro picks
    induction picks with
    | nil => exact fun s => ⟨rfl, le_rfl⟩
    | cons pick picks ih =>
      intro s
      obtain ⟨ops, length⟩ := ih (answer c s pick)
      rw [answer_length] at length
      exact ⟨ops.trans (answer_ops s pick), length.trans (Nat.sub_le _ _)⟩
  obtain ⟨ops, length⟩ := more (c.schedule s.calls).2 (answer c { s with calls := s.calls + 1 } (c.schedule s.calls).1)
  rw [answer_length] at length
  exact ⟨ops.trans (answer_ops _ _), length⟩

theorem wait_goes (limit fuel : ℕ) (s : Scan) : Goes c s (wait c limit fuel s) := by
  induction fuel generalizing s with
  | zero => exact Goes.refl c s
  | succ fuel ih =>
    rw [wait]
    split_ifs
    · exact (socketRun_goes s).trans (ih _)
    · exact Goes.refl c s

theorem wait_ops (limit fuel : ℕ) (s : Scan) : (wait c limit fuel s).ops = s.ops := by
  induction fuel generalizing s with
  | zero => rfl
  | succ fuel ih =>
    rw [wait]
    split_ifs
    · exact (ih _).trans (socketRun_parts s).1
    · rfl

theorem wait_drains (fuel : ℕ) (s : Scan) (enough : s.inflight.length ≤ fuel) : (wait c 1 fuel s).inflight = [] := by
  induction fuel generalizing s with
  | zero => exact List.eq_nil_of_length_eq_zero (Nat.eq_zero_of_le_zero enough)
  | succ fuel ih =>
    rw [wait]
    split_ifs with more
    · apply ih
      have less := (socketRun_parts (c := c) s).2
      omega
    · exact List.eq_nil_of_length_eq_zero (by omega)

theorem close_goes (s : Scan) : Goes c s (close s) := by
  have same : ∀ a, Pending (close s) a ↔ Pending s a := by
    intro a
    constructor
    · rintro (none | ⟨cycle, member, inside⟩)
      · exact absurd none List.not_mem_nil
      · rcases List.mem_append.mp member with member | member
        · exact Or.inr ⟨cycle, member, inside⟩
        · rw [List.mem_singleton.mp member] at inside
          exact Or.inl inside
    · rintro (opened | ⟨cycle, member, inside⟩)
      · exact Or.inr ⟨s.ops, List.mem_append_right _ List.mem_cons_self, opened⟩
      · exact Or.inr ⟨cycle, List.mem_append_left _ member, inside⟩
  refine ⟨fun _ _ => id, fun _ => id, ?_, fun good =>
    ⟨fun a pending => good.valid a ((same a).mp pending), good.bits, good.used⟩⟩
  rintro a (pending | served)
  · exact Or.inl ((same a).mpr pending)
  · exact Or.inr served

theorem readStep_goes {position : ℕ} (valid : Valid c position) (s : Scan) :
    Goes c s (readStep c s position) ∧ Seen c (readStep c s position) position := by
  have adds : Goes c s { s with ops := s.ops ++ [position] } := by
    refine ⟨fun _ _ => id, fun _ => id, ?_, fun good => ⟨?_, good.bits, good.used⟩⟩
    · rintro a ((opened | other) | served)
      · exact Or.inl (Or.inl (List.mem_append_left _ opened))
      · exact Or.inl (Or.inr other)
      · exact Or.inr served
    · rintro a (opened | other)
      · rcases List.mem_append.mp opened with opened | new
        · exact good.valid a (Or.inl opened)
        · rw [List.mem_singleton.mp new]
          exact valid
      · exact good.valid a (Or.inr other)
  have here : Seen c { s with ops := s.ops ++ [position] } position :=
    Or.inl (Or.inl (List.mem_append_right _ List.mem_cons_self))
  have rest : Goes c { s with ops := s.ops ++ [position] } (readStep c s position) := by
    rw [readStep]
    dsimp only
    split_ifs
    · exact (close_goes _).trans (wait_goes _ _ _)
    · exact Goes.refl c _
  exact ⟨adds.trans rest, rest.seen position here⟩

theorem Goes.foldl_all {α : Type} {f : Scan → α → Scan} {l : List α} (reached : α → Scan → Prop)
    (keeps : ∀ {x s s'}, Goes c s s' → reached x s → reached x s')
    (steps : ∀ x ∈ l, ∀ s, Goes c s (f s x) ∧ reached x (f s x)) (s : Scan) :
    Goes c s (l.foldl f s) ∧ ∀ x ∈ l, reached x (l.foldl f s) :=
  Library.Runs.foldl_reaches (Goes.refl c) Goes.trans reached keeps steps s

def Covered (c : Setup) (offset len : ℕ) (s : Scan) (k : ℕ) : Prop :=
  bitmaskGet s.bitmap (toInt k) = true ∨ ∀ position ∈ positions c k offset len, Seen c s position

/-- A piece that the words divide. -/
structure Piece (c : Setup) (gap : ℕ × ℕ) : Prop where
  offset : c.job.size ∣ gap.1
  len : c.job.size ∣ gap.2
  inside : gap.1 + gap.2 ≤ c.sectorSize

variable {gap : ℕ × ℕ}

theorem positions_valid (piece : Piece c gap) {k : ℕ} (sector : k < sectors c) {a : ℕ}
    (member : a ∈ positions c k gap.1 gap.2) :
    Valid c a := by
  have some := size_pos c.job
  obtain ⟨t, inside, rfl⟩ := List.mem_map.mp member
  rw [List.mem_range] at inside
  obtain ⟨o, offset⟩ := piece.offset
  have place : FlashScan.sector c k + gap.1 + t * c.job.size = FlashScan.sector c k + (o + t) * c.job.size := by
    rw [offset]
    ring
  refine ⟨k, sector, o + t, ?_, place⟩
  have bound := piece.inside
  obtain ⟨l, len⟩ := piece.len
  rw [len, Nat.mul_div_cancel_left _ some] at inside
  rw [offset, len, ← Nat.mul_add] at bound
  have words : o + l ≤ c.sectorSize / c.job.size := by
    rw [Nat.le_div_iff_mul_le some, Nat.mul_comm]
    exact bound
  omega

theorem sectorStep_goes (piece : Piece c gap) {k : ℕ} (sector : k < sectors c) (s : Scan) :
    Goes c s (sectorStep c gap.1 gap.2 s k) ∧ (toInt k ∈ (sectorStep c gap.1 gap.2 s k).used ∧
      Covered c gap.1 gap.2 (sectorStep c gap.1 gap.2 s k) k) := by
  have noted : Goes c s { s with used := s.used ++ [toInt k] } := by
    refine ⟨fun _ _ => id, fun i => List.mem_append_left _, fun _ => id, fun good => ⟨good.valid, good.bits, ?_⟩⟩
    intro i member
    rcases List.mem_append.mp member with member | member
    · exact good.used i member
    · exact Or.inl ⟨k, sector, List.mem_singleton.mp member⟩
  have here : toInt k ∈ ({ s with used := s.used ++ [toInt k] } : Scan).used :=
    List.mem_append_right _ List.mem_cons_self
  rw [sectorStep]
  cases skip : bitmaskGet s.bitmap (toInt k) with
  | true =>
    rw [if_pos rfl]
    exact ⟨noted, here, Or.inl skip⟩
  | false =>
    rw [if_neg Bool.false_ne_true]
    obtain ⟨goes, seen⟩ := Goes.foldl_all (fun position s => Seen c s position) (fun goes seen => goes.seen _ seen)
      (fun position member => readStep_goes (positions_valid piece sector member))
      { s with used := s.used ++ [toInt k] }
    exact ⟨noted.trans goes, goes.used _ here, Or.inr seen⟩

/-- Each sector was asked for, and the words of its piece were read, or its bit is set. -/
def Swept (c : Setup) (gap : ℕ × ℕ) (s : Scan) : Prop :=
  ∀ k < sectors c, toInt k ∈ s.used ∧ (bitmaskGet s.bitmap (toInt k) = true ∨
    ∀ position ∈ positions c k gap.1 gap.2, Served c s position)

theorem Swept.keep {s s' : Scan} (goes : Goes c s s') (here : Swept c gap s) : Swept c gap s' := by
  intro k sector
  obtain ⟨used, seen⟩ := here k sector
  exact ⟨goes.used _ used, seen.imp goes.marked fun all position member => (all position member).mono goes.bits⟩

theorem quickScanGap_goes (piece : Piece c gap) (s : Scan) :
    Goes c s (quickScanGap c s gap.1 gap.2) ∧ Swept c gap (quickScanGap c s gap.1 gap.2) := by
  obtain ⟨first, covered⟩ := Goes.foldl_all (f := sectorStep c gap.1 gap.2) (l := List.range (sectors c))
    (fun k s => toInt k ∈ s.used ∧ Covered c gap.1 gap.2 s k)
    (fun goes here => ⟨goes.used _ here.1, here.2.imp goes.marked fun all position member =>
      goes.seen _ (all position member)⟩)
    (fun k member => sectorStep_goes piece (List.mem_range.mp member)) s
  generalize swept : (List.range (sectors c)).foldl (sectorStep c gap.1 gap.2) s = s₁ at first covered
  have closed : Goes c s₁ (if s₁.ops.isEmpty then s₁ else close s₁) ∧
    (if s₁.ops.isEmpty then s₁ else close s₁).ops = [] := by
    cases none : s₁.ops.isEmpty with
    | true => exact ⟨Goes.refl c s₁, List.isEmpty_iff.mp none⟩
    | false => exact ⟨close_goes s₁, rfl⟩
  have whole : quickScanGap c s gap.1 gap.2 =
      wait c 1 (if s₁.ops.isEmpty then s₁ else close s₁).inflight.length (if s₁.ops.isEmpty then s₁ else close s₁) := by
    rw [quickScanGap, swept]
  generalize (if s₁.ops.isEmpty then s₁ else close s₁) = s₂ at closed whole
  have last := closed.1.trans (wait_goes 1 s₂.inflight.length s₂)
  have drained := wait_drains (c := c) s₂.inflight.length s₂ le_rfl
  have opened := (wait_ops (c := c) 1 s₂.inflight.length s₂).trans closed.2
  rw [← whole] at last drained opened
  refine ⟨first.trans last, fun k sector => ?_⟩
  obtain ⟨used, here⟩ := covered k (List.mem_range.mpr sector)
  refine ⟨last.used _ used, here.imp last.marked fun all position member => ?_⟩
  rcases last.seen _ (all position member) with (inOps | ⟨cycle, inFlight, _⟩) | served
  · rw [opened] at inOps
    exact absurd inOps List.not_mem_nil
  · rw [drained] at inFlight
    exact absurd inFlight List.not_mem_nil
  · exact served

theorem gaps_eq {e : ℕ} (fuel i : ℕ) (enough : e ≤ i + fuel) (upto : i ≤ e) :
    gaps (2 ^ e) fuel (2 ^ i) (2 ^ i) = (List.range (e - i)).map fun d => (2 ^ (i + d), 2 ^ (i + d)) := by
  induction fuel generalizing i with
  | zero =>
    rw [show e - i = 0 by omega]
    rfl
  | succ fuel ih =>
    rw [gaps]
    by_cases last : i = e
    · rw [if_pos (by rw [last]), last, Nat.sub_self, List.range_zero, List.map_nil]
    · have other : 2 ^ i ≠ 2 ^ e := fun same => last (Nat.pow_right_injective le_rfl same)
      have double : 2 ^ i + 2 ^ i = 2 ^ (i + 1) := by rw [pow_succ]; ring
      rw [if_neg other, double, ih (i + 1) (by omega) (by omega),
        show e - i = e - (i + 1) + 1 by omega, List.range_succ_eq_map, List.map_cons,
        List.map_map]
      congr 1
      apply List.map_congr_left
      intro d _
      rw [Function.comp_apply, Nat.succ_eq_add_one, Nat.add_assoc, Nat.add_comm 1 d]

def passes (c : Setup) : List (ℕ × ℕ) := (0, 8) :: gaps c.sectorSize 64 8 8

structure Sized (c : Setup) : Prop where
  power : ∃ e, c.sectorSize = 2 ^ e ∧ e < 64
  least : pageSize ≤ c.sectorSize

theorem Sized.exponent (sized : Sized c) : ∃ e, c.sectorSize = 2 ^ e ∧ 8 ≤ e ∧ e < 64 := by
  obtain ⟨e, power, high⟩ := sized.power
  refine ⟨e, power, ?_, high⟩
  have least := sized.least
  rw [power, show pageSize = 2 ^ 8 from rfl] at least
  exact (Nat.pow_le_pow_iff_right (by decide)).mp least

theorem size_eight (j : Job) : j.size ∣ 8 := by
  rcases j.sized with same | same | same | same
  · exact ⟨8, by rw [same]⟩
  · exact ⟨4, by rw [same]⟩
  · exact ⟨2, by rw [same]⟩
  · exact ⟨1, by rw [same]⟩

section
variable (sized : Sized c)
include sized

theorem passes_piece (member : gap ∈ passes c) : Piece c gap := by
  obtain ⟨e, power, low, high⟩ := sized.exponent
  have eight : (8 : ℕ) = 2 ^ 3 := rfl
  rw [passes, power, eight, gaps_eq 64 3 (by omega) (by omega)] at member
  rcases List.mem_cons.mp member with rfl | member
  · refine ⟨Nat.dvd_zero _, size_eight c.job, ?_⟩
    rw [power, Nat.zero_add]
    exact Nat.pow_le_pow_right (by decide) (by omega)
  · obtain ⟨d, inside, rfl⟩ := List.mem_map.mp member
    rw [List.mem_range] at inside
    have words : c.job.size ∣ 2 ^ (3 + d) := (size_eight c.job).trans (Nat.pow_dvd_pow 2 (Nat.le_add_right 3 d))
    refine ⟨words, words, ?_⟩
    rw [power]
    calc 2 ^ (3 + d) + 2 ^ (3 + d) = 2 ^ (3 + d + 1) := by rw [pow_succ]; ring
      _ ≤ 2 ^ e := Nat.pow_le_pow_right (by decide) (by omega)

theorem passes_cover {t : ℕ} (inside : t < c.sectorSize / c.job.size) (k : ℕ) :
    ∃ gap ∈ passes c, sector c k + t * c.job.size ∈ positions c k gap.1 gap.2 := by
  obtain ⟨e, power, low, high⟩ := sized.exponent
  have some := size_pos c.job
  have eight : (8 : ℕ) = 2 ^ 3 := rfl
  rw [power, Nat.lt_div_iff_mul_lt' ((size_eight c.job).trans
    (by rw [eight]; exact Nat.pow_dvd_pow 2 (by omega)))] at inside
  rw [Nat.mul_comm] at inside
  by_cases first : t * c.job.size < 8
  · refine ⟨(0, 8), List.mem_cons_self, List.mem_map.mpr ⟨t, ?_, by rw [Nat.add_zero]⟩⟩
    rw [List.mem_range, Nat.lt_div_iff_mul_lt' (size_eight c.job), Nat.mul_comm]
    exact first
  · have positive : t * c.job.size ≠ 0 := by omega
    have below := Nat.pow_log_le_self 2 positive
    have above := Nat.lt_pow_succ_log_self (b := 2) (by decide) (t * c.job.size)
    generalize Nat.log 2 (t * c.job.size) = i at below above
    have three : 3 ≤ i := by
      by_contra early
      have bound : 2 ^ (i + 1) ≤ 2 ^ 3 := Nat.pow_le_pow_right (by decide) (by omega)
      omega
    have last : i < e := (Nat.pow_lt_pow_iff_right (by decide)).mp (below.trans_lt inside)
    have words : c.job.size ∣ 2 ^ i := (size_eight c.job).trans (by rw [eight]; exact Nat.pow_dvd_pow 2 three)
    refine ⟨(2 ^ i, 2 ^ i), ?_, ?_⟩
    · rw [passes, power, eight, gaps_eq 64 3 (by omega) (by omega)]
      refine List.mem_cons_of_mem _ (List.mem_map.mpr ⟨i - 3, List.mem_range.mpr (by omega), ?_⟩)
      rw [Nat.add_sub_cancel' three]
    · obtain ⟨o, offset⟩ := words
      have front : o ≤ t := by
        rw [offset, Nat.mul_comm] at below
        exact Nat.le_of_mul_le_mul_right below some
      refine List.mem_map.mpr ⟨t - o, ?_, ?_⟩
      · rw [List.mem_range, Nat.lt_div_iff_mul_lt' ⟨o, offset⟩, Nat.mul_sub]
        rw [pow_succ] at above
        rw [Nat.mul_comm c.job.size t, ← offset]
        omega
      · rw [offset, Nat.mul_comm c.job.size o, Nat.add_assoc, ← Nat.add_mul, Nat.add_sub_cancel' front]

theorem Sized.space : ∃ half, 2 ^ 64 = 2 * half * c.sectorSize ∧ 0 < half := by
  obtain ⟨e, power, high⟩ := sized.power
  refine ⟨2 ^ (63 - e), ?_, Nat.two_pow_pos _⟩
  rw [power]
  calc 2 ^ 64 = 2 ^ (63 - e + 1 + e) := by congr 1; omega
    _ = 2 * 2 ^ (63 - e) * 2 ^ e := by rw [pow_add, pow_succ]; ring

theorem Sized.positive : 0 < c.sectorSize := Nat.lt_of_lt_of_le (by decide) sized.least

theorem Sized.words : c.job.size ∣ c.sectorSize := by
  obtain ⟨e, power, low, _⟩ := sized.exponent
  rw [power]
  exact (size_eight c.job).trans (Nat.pow_dvd_pow 2 (show 3 ≤ e by omega))

theorem Sized.word_lt {t : ℕ} (inside : t < c.sectorSize / c.job.size) :
    t * c.job.size + c.job.size ≤ c.sectorSize := by
  obtain ⟨words, same⟩ := sized.words
  rw [same, Nat.mul_div_cancel_left _ (size_pos c.job)] at inside
  rw [same, ← Nat.succ_mul, Nat.mul_comm]
  exact Nat.mul_le_mul_left c.job.size inside

end

def bottom (c : Setup) : ℕ := c.job.address / c.sectorSize
def top (c : Setup) : ℕ := (c.job.address + c.job.firmwareLength + c.sectorSize - 1) / c.sectorSize

theorem Sized.ends (sized : Sized c) {half : ℕ} (space : 2 ^ 64 = 2 * half * c.sectorSize) :
    bottom c ≤ top c ∧ top c ≤ 2 * half := by
  have some := sized.positive
  have inside := c.job.inside
  constructor
  · apply Nat.div_le_div_right
    omega
  · rw [top, Nat.div_le_iff_le_mul some, ← space]
    omega

theorem Sized.sectors_eq (sized : Sized c) {half : ℕ} (space : 2 ^ 64 = 2 * half * c.sectorSize) :
    sectors c = (top c - bottom c) % (2 * half) := by
  have some := sized.positive
  obtain ⟨order, high⟩ := sized.ends space
  have last : lastSector c = top c % (2 * half) *
    c.sectorSize := by rw [lastSector, space, Nat.mod_mul_left_div_self, top]
  have turns : sectors c = (top c % (2 * half) + 2 * half - bottom c) % (2 * half) := by
    rw [sectors, last, firstSector, ← bottom, space, ← Nat.add_mul, ← Nat.sub_mul,
      Nat.mul_mod_mul_right, Nat.mul_div_cancel _ some]
  rw [turns]
  rcases Nat.lt_or_ge (top c) (2 * half) with below | above
  · rw [Nat.mod_eq_of_lt below, show top c + 2 * half - bottom c =
      top c - bottom c + 2 * half by omega, Nat.add_mod_right]
  · rw [Nat.le_antisymm high above, Nat.mod_self, Nat.zero_add]

theorem bmod_small {m n : ℕ} (small : 2 * n < m) : Int.bmod n m = n := by
  have whole : (n : ℤ) % (m : ℤ) = n := Int.emod_eq_of_lt (by omega) (by omega)
  rw [Int.bmod_eq_emod_of_lt, whole]
  rw [whole]
  omega

theorem toInt_eq {n : ℕ} (small : n < 2 ^ 31) : toInt n = n := by
  unfold toInt
  apply bmod_small
  omega

theorem toInt_emod_two (n : ℕ) : toInt n % 2 = n % 2 := by
  obtain ⟨turns, same⟩ : ((2 ^ 32 : ℕ) : ℤ) ∣ toInt n - n := Int.dvd_bmod_sub_self
  omega

theorem place_inj {i k : ℤ} (positive : 0 ≤ i) (positive' : 0 ≤ k) (byte : byteOf i = byteOf k)
    (bit : bitOf i = bitOf k) : i = k := by
  rw [byteOf, byteOf, Int.tdiv_eq_ediv_of_nonneg positive, Int.tdiv_eq_ediv_of_nonneg positive'] at byte
  rw [bitOf, bitOf] at bit
  omega

theorem start_inside {i : ℤ} (positive : 0 ≤ i) (inside : i < 8 * bitmapSize c.job) :
    bitmaskGet (start c).bitmap i = false := by
  rw [bitmaskGet, start]
  apply if_pos
  rw [byteOf, Int.tdiv_eq_ediv_of_nonneg positive]
  omega

theorem start_good (c : Setup) : Good c (start c) where
  valid a := by
    rintro (none | ⟨cycle, none, _⟩)
    · exact absurd none List.not_mem_nil
    · exact absurd none List.not_mem_nil
  bits _ _ set := Or.inl set
  used _ none := absurd none List.not_mem_nil

theorem quickScan_covers (sized : Sized c) : Good c (quickScan c) ∧ ∀ k < sectors c, toInt k ∈ (quickScan c).used ∧
    (bitmaskGet (quickScan c).bitmap (toInt k) = true ∨ ∀ t < c.sectorSize / c.job.size,
      Served c (quickScan c) (sector c k + t * c.job.size)) := by
  obtain ⟨goes, all⟩ := Goes.foldl_all (f := fun s (gap : ℕ × ℕ) => quickScanGap c s gap.1 gap.2) (Swept c) Swept.keep
    (fun gap member s => quickScanGap_goes (passes_piece sized member) s) (start c)
  refine ⟨goes.good (start_good c), fun k inside => ⟨(all (0, 8) List.mem_cons_self k inside).1, ?_⟩⟩
  by_cases set : bitmaskGet (quickScan c).bitmap (toInt k) = true
  · exact Or.inl set
  · right
    intro t word
    obtain ⟨gap, pass, member⟩ := passes_cover sized word k
    exact (all gap pass k inside).2.resolve_left set _ member

end BelProject.Tools.FlashScan
