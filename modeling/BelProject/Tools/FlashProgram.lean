import BelProject.Tools.Flash
import Mathlib.Data.List.Perm.Basic
import Mathlib.Data.List.Range

/-! `program_flash` and `verify_flash`. A cycle of the first writes what is left of a page from its
first word that is not blank, and the second reads all pages back. -/

namespace BelProject.Tools.FlashProgram
open Flash Library.Memory

section
variable (j : Job) (image : Mem)

def offset (k : ℕ) : ℕ := j.address + k * j.size

def word (k : ℕ) : BitVec 64 := assemble j.endian (slice image (k * j.size) j.size)

structure Programming where
  cycle : List Write
  maySkipFfs : Bool
  closed : List (List Write)

/-- One turn of the loop of `program_flash`. -/
def programStep (p : Programming) (k : ℕ) : Programming :=
  if p.maySkipFfs && word j image k == ffs j.size then p
  else if offset j k = j.eraseAddress then p
  else
    let cycle := p.cycle ++ [⟨offset j k, flipBits j.invert (word j image k)⟩]
    if (offset j k + j.size) % pageSize = 0 then ⟨[], true, p.closed ++ [cycle]⟩
    else ⟨cycle, false, p.closed⟩

/-- The cycles of `program_flash`. -/
def programCycles : List (List Write) :=
  let p := (List.range (j.firmwareLength / j.size)).foldl (programStep j image) ⟨[], true, []⟩
  if p.cycle.isEmpty then p.closed else p.closed ++ [p.cycle]

def execute (m : Mem) (cycles : List (List Write)) : Mem := cycles.foldl (pageWrite j.endian j.size) m

structure Reading where
  cycle : List ℕ
  closed : List (List ℕ)

/-- One turn of the loop of `verify_flash`. -/
def verifyStep (p : Reading) (k : ℕ) : Reading :=
  let cycle := p.cycle ++ [offset j k]
  if (offset j k + j.size) % pageSize = 0 then ⟨[], p.closed ++ [cycle]⟩ else ⟨cycle, p.closed⟩

/-- The cycles of `verify_flash`. -/
def verifyCycles : List (List ℕ) :=
  let p := (List.range (j.firmwareLength / j.size)).foldl (verifyStep j) ⟨[], []⟩
  if p.cycle.isEmpty then p.closed else p.closed ++ [p.cycle]

/-- What the callbacks keep: the static `last_offset`, and the position in the file. -/
structure Verifying where
  lastOffset : ℕ
  position : ℕ

/-- The check of one read in `verify_decrement`, which ends the program when it fails. -/
def verifyOperation (m : Mem) (v : Verifying) (a : ℕ) : Option Verifying :=
  let position := if v.lastOffset = a then v.position else a - j.address
  if j.firmwareLength < position + j.size then none
  else if readWord j.endian j.size m a = flipBits j.invert (assemble j.endian (slice image position j.size)) then
    some ⟨(a + j.size) % 2 ^ 64, position + j.size⟩
  else none

/-- `verify_decrement`, with a finished cycle. -/
def verifyDecrement (m : Mem) (v : Verifying) (cycle : List ℕ) : Option Verifying :=
  cycle.foldlM (verifyOperation j image m) v

def verifies (m : Mem) (position : ℕ) (order : List (List ℕ)) : Prop :=
  (order.foldlM (verifyDecrement j image m) ⟨2 ^ 64 - 1, position⟩).isSome = true

/-- The range holds the image, with the bits of each byte reversed when inversion is selected. -/
def Holds (m : Mem) : Prop := ∀ i < j.firmwareLength, m (j.address + i) = flipByte j.invert (image i)

end

variable {j : Job} {image : Mem}

/-! ### Pages -/

def perPage (j : Job) : ℕ := pageSize / j.size

def pages (j : Job) : ℕ := j.firmwareLength / pageSize

theorem perPage_mul (j : Job) : perPage j * j.size = pageSize := by
  rw [perPage]
  rcases j.sized with same | same | same | same
  all_goals rw [same]; decide

theorem pages_mul (j : Job) : pages j * pageSize = j.firmwareLength := Nat.div_mul_cancel j.pages

theorem words_eq (j : Job) : j.firmwareLength / j.size = pages j * perPage j := by
  have some := size_pos j
  rw [← pages_mul, ← perPage_mul, ← Nat.mul_assoc, Nat.mul_div_cancel _ some]

theorem offset_page (p i : ℕ) : offset j (p * perPage j + i) = j.address + p * pageSize + i * j.size := by
  rw [offset, ← perPage_mul j]
  ring

theorem page_full {p i : ℕ} (inside : i < perPage j) :
    (offset j (p * perPage j + i) + j.size) % pageSize = 0 ↔ i + 1 = perPage j := by
  obtain ⟨a, start⟩ := j.aligned
  have some := size_pos j
  have place : offset j (p * perPage j + i) + j.size = pageSize * (a + p) + (i + 1) * j.size := by
    rw [offset_page, start]
    ring
  rw [place, Nat.mul_add_mod]
  constructor
  · intro full
    have upper : (i + 1) * j.size ≤ pageSize := by
      rw [← perPage_mul j]
      exact Nat.mul_le_mul_right _ inside
    have lower : 0 < (i + 1) * j.size := Nat.mul_pos (Nat.succ_pos i) some
    rcases Nat.lt_or_eq_of_le upper with less | same
    · rw [Nat.mod_eq_of_lt less] at full
      omega
    · rw [← perPage_mul j] at same
      exact Nat.eq_of_mul_eq_mul_right some same
  · intro last
    rw [last, perPage_mul, Nat.mod_self]

theorem range_pages (n m : ℕ) : List.range ((n + 1) * m) = List.range (n * m) ++ List.range' (n * m) m := by
  rw [Nat.succ_mul, List.range_add, List.range'_eq_map_range]

/-! ### The cycles of the program -/

def write (j : Job) (image : Mem) (k : ℕ) : Write := ⟨offset j k, flipBits j.invert (word j image k)⟩

def blank (j : Job) (image : Mem) (k : ℕ) : Bool := word j image k == ffs j.size

def pageWrites (j : Job) (image : Mem) (p : ℕ) : List Write :=
  ((List.range' (p * perPage j) (perPage j)).dropWhile (blank j image)).map (write j image)

/-- A page without a write has no cycle. -/
def cycleOf (writes : List Write) : List (List Write) := if writes.isEmpty then [] else [writes]

/-- The erase register is not in the range. -/
def Clear (j : Job) : Prop := ¬ (j.address ≤ j.eraseAddress ∧ j.eraseAddress < j.address + j.firmwareLength)

theorem offset_clear (clear : Clear j) {p i : ℕ} (inside : i < perPage j) (page : p < pages j) :
    offset j (p * perPage j + i) ≠ j.eraseAddress := by
  have below : p * pageSize + pageSize ≤ j.firmwareLength := by
    rw [← pages_mul, ← Nat.succ_mul]
    exact Nat.mul_le_mul_right _ page
  have place : i * j.size < pageSize := by
    rw [← perPage_mul j]
    exact Nat.mul_lt_mul_of_pos_right inside (size_pos j)
  intro same
  rw [offset_page] at same
  exact clear ⟨by omega, by omega⟩

variable {k : ℕ}

theorem programStep_write {p : Programming} (takes : (p.maySkipFfs && blank j image k) = false)
    (free : offset j k ≠ j.eraseAddress) :
    programStep j image p k =
      if (offset j k + j.size) % pageSize = 0 then ⟨[], true, p.closed ++ [p.cycle ++ [write j image k]]⟩
      else ⟨p.cycle ++ [write j image k], false, p.closed⟩ := by
  have go : ¬ (p.maySkipFfs && word j image k == ffs j.size) = true := Bool.eq_false_iff.mp takes
  rw [programStep, if_neg go, if_neg free]
  rfl

theorem fold_rest (clear : Clear j) {p : ℕ} (page : p < pages j) (n i : ℕ)
    (place : i + n + 1 = perPage j) (cycle : List Write)
    (closed : List (List Write)) :
    (List.range' (p * perPage j + i) (n + 1)).foldl (programStep j image) ⟨cycle, false, closed⟩ =
      ⟨[], true, closed ++ [cycle ++ (List.range' (p * perPage j + i) (n + 1)).map (write j image)]⟩ := by
  have inside : i < perPage j := by omega
  have free := offset_clear clear inside page
  induction n generalizing i cycle with
  | zero =>
    have full := (page_full (p := p) inside).mpr place
    change programStep j image ⟨cycle, false, closed⟩ (p * perPage j + i) = _
    rw [programStep_write rfl free, if_pos full]
    rfl
  | succ n ih =>
    have more : ¬ (offset j (p * perPage j + i) + j.size) % pageSize = 0 := by
      rw [page_full inside]
      omega
    have next : i + 1 < perPage j := by omega
    rw [List.range'_succ, List.foldl_cons, programStep_write rfl free, if_neg more, Nat.add_assoc,
      ih (i + 1) (by omega) _ next (offset_clear clear next page), List.map_cons, List.append_assoc]
    rfl

variable (image) in
theorem fold_page (clear : Clear j) {p : ℕ} (page : p < pages j) (n i : ℕ) (place : i + n = perPage j)
    (closed : List (List Write)) :
    (List.range' (p * perPage j + i) n).foldl (programStep j image) ⟨[], true, closed⟩ =
      ⟨[], true, closed ++ cycleOf (((List.range' (p * perPage j + i) n).dropWhile (blank j image)).map
        (write j image))⟩ := by
  induction n generalizing i with
  | zero => exact congrArg _ (List.append_nil closed).symm
  | succ n ih =>
    have inside : i < perPage j := by omega
    rw [List.range'_succ, List.foldl_cons]
    cases skip : blank j image (p * perPage j + i) with
    | true =>
      have turn : programStep j image ⟨[], true, closed⟩ (p * perPage j + i) = ⟨[], true, closed⟩ := if_pos skip
      rw [turn, List.dropWhile_cons_of_pos skip, Nat.add_assoc]
      exact ih (i + 1) (by omega)
    | false =>
      have takes : (true && blank j image (p * perPage j + i)) = false := skip
      rw [List.dropWhile_cons_of_neg (Bool.eq_false_iff.mp skip), List.map_cons,
        programStep_write takes (offset_clear clear inside page)]
      cases n with
      | zero =>
        rw [if_pos ((page_full inside).mpr place)]
        rfl
      | succ m =>
        have more : ¬ (offset j (p * perPage j + i) + j.size) % pageSize = 0 := by
          rw [page_full inside]
          omega
        rw [if_neg more, Nat.add_assoc, fold_rest clear page m (i + 1) (by omega)]
        rfl

theorem programCycles_eq (clear : Clear j) :
    programCycles j image = (List.range (pages j)).flatMap fun p => cycleOf (pageWrites j image p) := by
  have pageful : ∀ n ≤ pages j, (List.range (n * perPage j)).foldl (programStep j image) ⟨[], true, []⟩ =
      ⟨[], true, (List.range n).flatMap fun p => cycleOf (pageWrites j image p)⟩ := by
    intro n few
    induction n with
    | zero =>
      rw [Nat.zero_mul]
      rfl
    | succ n ih =>
      have page := fold_page image clear (Nat.lt_of_succ_le few) (perPage j) 0 (Nat.zero_add _)
        ((List.range n).flatMap fun p => cycleOf (pageWrites j image p))
      rw [Nat.add_zero] at page
      rw [range_pages, List.foldl_append, ih (Nat.le_of_succ_le few), page, List.range_succ,
        List.flatMap_append, List.flatMap_singleton]
      rfl
  rw [programCycles, words_eq, pageful (pages j) le_rfl]
  rfl

/-! ### What a page write does -/

variable (j image) in
theorem bytes_write (k c : ℕ) :
    ((List.range' k c).map (write j image)).flatMap (fun op => bytesOf j.endian j.size op.data) =
      (slice image (k * j.size) (c * j.size)).map (flipByte j.invert) := by
  have short : j.size ≤ 8 := by
    have sized := j.sized
    omega
  induction c generalizing k with
  | zero =>
    rw [Nat.zero_mul]
    rfl
  | succ c ih =>
    have length : ((slice image (k * j.size) j.size).map (flipByte j.invert)).length = j.size := by
      rw [List.length_map, length_slice]
    have first : bytesOf j.endian j.size (write j image k).data = (slice image (k * j.size) j.size).map
      (flipByte j.invert) := by
      have whole := bytesOf_assemble j.endian
        ((slice image (k * j.size) j.size).map (flipByte j.invert)) (by rw [length]; exact short)
      rw [length] at whole
      rw [write, word, flipBits_assemble, whole]
    rw [List.range'_succ, List.map_cons, List.flatMap_cons, first, ih, Nat.succ_mul k, Nat.succ_mul c,
      Nat.add_comm (c * j.size),
      slice_add, List.map_append]

theorem pageWrite_rest {p d : ℕ} (inside : d ≤ perPage j) (m : Mem) (x : ℕ) :
    pageWrite j.endian j.size m ((List.range' (p * perPage j + d) (perPage j - d)).map (write j image)) x =
      if offset j (p * perPage j + d) ≤ x ∧ x < j.address + p * pageSize + pageSize
      then m x &&& flipByte j.invert (image (x - j.address)) else m x := by
  have place := offset_page (j := j) p d
  have whole := perPage_mul j
  have length : (perPage j - d) * j.size + d * j.size = pageSize := by
    rw [← Nat.add_mul, Nat.sub_add_cancel inside, whole]
  rcases Nat.lt_or_eq_of_le inside with some | none
  · obtain ⟨n, count⟩ : ∃ n, perPage j - d = n + 1 := ⟨perPage j - d - 1, by omega⟩
    have start : (offset j (p * perPage j + d)) % pageSize = d * j.size := by
      obtain ⟨a, aligned⟩ := j.aligned
      have less : d * j.size < pageSize := by
        rw [← whole]
        exact Nat.mul_lt_mul_of_pos_right some (size_pos j)
      rw [place, aligned, Nat.mul_comm p, ← Nat.mul_add, Nat.mul_add_mod, Nat.mod_eq_of_lt less]
    have bytes := bytes_write j image (p * perPage j + d) (n + 1)
    rw [List.range'_succ, List.map_cons] at bytes
    rw [count] at length
    rw [count, List.range'_succ, List.map_cons]
    change stream m (offset j (p * perPage j + d)) _ x = _
    rw [bytes, stream_apply m (by rw [List.length_map, length_slice, start]; omega), List.length_map, length_slice]
    have stop : offset j (p * perPage j + d) + (n + 1) * j.size = j.address + p * pageSize + pageSize := by omega
    rw [stop]
    by_cases within : offset j (p * perPage j + d) ≤ x ∧ x < j.address + p * pageSize + pageSize
    · rw [if_pos within, if_pos within]
      have byte : x - offset j (p * perPage j + d) <
        ((slice image ((p * perPage j + d) * j.size) ((n + 1) * j.size)).map (flipByte j.invert)).length := by
        rw [List.length_map, length_slice]
        omega
      rw [List.getD_eq_getElem _ _ byte, List.getElem_map]
      have there : (p * perPage j + d) * j.size + (x - offset j (p * perPage j + d)) = x - j.address := by
        rw [offset] at within ⊢
        omega
      simp only [slice_eq_map, List.getElem_map, List.getElem_range, there]
    · rw [if_neg within, if_neg within]
  · subst none
    rw [Nat.sub_self, if_neg (by rw [place, whole]; omega)]
    rfl

theorem dropWhile_range (f : ℕ → Bool) (s n : ℕ) :
    ∃ d ≤ n, (List.range' s n).dropWhile f = List.range' (s + d) (n - d) ∧ ∀ i < d, f (s + i) = true := by
  induction n generalizing s with
  | zero => exact ⟨0, le_rfl, rfl, fun i none => absurd none (Nat.not_lt_zero i)⟩
  | succ n ih =>
    cases skip : f s with
    | true =>
      obtain ⟨d, less, rest, front⟩ := ih (s + 1)
      refine ⟨d + 1, Nat.succ_le_succ less, ?_, ?_⟩
      · rw [List.range'_succ, List.dropWhile_cons_of_pos skip, rest, Nat.add_right_comm,
          Nat.add_sub_add_right, Nat.add_assoc]
      · intro i before
        cases i with
        | zero => exact skip
        | succ i =>
          have here := front i (Nat.lt_of_succ_lt_succ before)
          rw [Nat.add_right_comm, Nat.add_assoc] at here
          exact here
    | false =>
      refine ⟨0, Nat.zero_le _, ?_, fun i none => absurd none (Nat.not_lt_zero i)⟩
      rw [List.range'_succ, List.dropWhile_cons_of_neg (Bool.eq_false_iff.mp skip)]
      rfl

theorem blank_bytes {k b : ℕ} (skip : blank j image k = true) (inside : b < j.size) :
    image (k * j.size + b) = 0xFF := by
  have ones : assemble j.endian (slice image (k * j.size) j.size) = ffs j.size := beq_iff_eq.mp skip
  rw [assemble_slice_ffs j.sized] at ones
  exact ones _ (Nat.le_add_right _ b) (Nat.add_lt_add_left inside _)

theorem flipByte_ff (invert : Bool) : flipByte invert 0xFF = 0xFF := by
  cases invert with
  | false => rfl
  | true => decide

theorem pageWrites_apply (j : Job) (image : Mem) (p : ℕ) :
    ∃ d ≤ perPage j, (∀ i < d, blank j image (p * perPage j + i) = true) ∧
    ∀ m x, pageWrite j.endian j.size m (pageWrites j image p) x =
      if offset j (p * perPage j + d) ≤ x ∧ x < j.address + p * pageSize + pageSize
      then m x &&& flipByte j.invert (image (x - j.address)) else m x := by
  obtain ⟨d, less, rest, front⟩ := dropWhile_range (blank j image) (p * perPage j) (perPage j)
  refine ⟨d, less, front, fun m x => ?_⟩
  rw [pageWrites, rest, pageWrite_rest less]

theorem pageWrites_erased {p : ℕ} {m : Mem} (erased : ∀ x, j.address + p * pageSize ≤ x →
    x < j.address + p * pageSize + pageSize → m x = 0xFF)
    (x : ℕ) : pageWrite j.endian j.size m (pageWrites j image p) x =
      if j.address + p * pageSize ≤ x ∧ x < j.address + p * pageSize + pageSize then flipByte j.invert
        (image (x - j.address)) else m x := by
  obtain ⟨d, less, front, effect⟩ := pageWrites_apply j image p
  have place := offset_page (j := j) p d
  have some := size_pos j
  rw [effect]
  by_cases inside : j.address + p * pageSize ≤ x ∧ x < j.address + p * pageSize + pageSize
  · rw [if_pos inside, erased x inside.1 inside.2]
    by_cases written : offset j (p * perPage j + d) ≤ x
    · rw [if_pos ⟨written, inside.2⟩]
      exact UInt8.neg_one_and
    · rw [if_neg fun both => written both.1]
      obtain ⟨n, rfl⟩ : ∃ n, x = j.address + p * pageSize + n := ⟨x - (j.address + p * pageSize), by omega⟩
      have before : n / j.size < d := by
        rw [Nat.div_lt_iff_lt_mul some]
        omega
      have byte := blank_bytes (front _ before) (Nat.mod_lt n some)
      have there : (p * perPage j + n / j.size) * j.size + n % j.size = j.address + p * pageSize + n - j.address := by
        have split := Nat.div_add_mod n j.size
        have whole := perPage_mul j
        rw [Nat.add_mul, Nat.mul_assoc, whole, Nat.mul_comm (n / j.size)]
        omega
      rw [there] at byte
      rw [byte, flipByte_ff]
  · rw [if_neg inside, if_neg fun both => inside ⟨by omega, both.2⟩]

/-! ### The program -/

theorem pageWrites_comm (m : Mem) (p q : ℕ) :
    pageWrite j.endian j.size (pageWrite j.endian j.size m (pageWrites j image p)) (pageWrites j image q) =
      pageWrite j.endian j.size (pageWrite j.endian j.size m (pageWrites j image q)) (pageWrites j image p) := by
  obtain ⟨_, _, _, first⟩ := pageWrites_apply j image p
  obtain ⟨_, _, _, second⟩ := pageWrites_apply j image q
  funext x
  rw [second, first, first, second]
  split_ifs
  · rw [UInt8.and_assoc, UInt8.and_comm (flipByte _ _), ← UInt8.and_assoc]
  all_goals rfl

theorem mem_programCycles (clear : Clear j) {cycle : List Write} (member : cycle ∈ programCycles j image) :
    ∃ p < pages j, cycle = pageWrites j image p := by
  rw [programCycles_eq clear, List.mem_flatMap] at member
  obtain ⟨p, inside, here⟩ := member
  refine ⟨p, List.mem_range.mp inside, ?_⟩
  rw [cycleOf] at here
  split_ifs at here with none
  · exact absurd here List.not_mem_nil
  · exact List.mem_singleton.mp here

theorem execute_perm (clear : Clear j) {order : List (List Write)}
    (perm : order.Perm (programCycles j image)) (m : Mem) :
    execute j m order = execute j m (programCycles j image) := by
  apply perm.foldl_eq'
  intro one first other second z
  obtain ⟨p, _, rfl⟩ := mem_programCycles clear (perm.mem_iff.mp first)
  obtain ⟨q, _, rfl⟩ := mem_programCycles clear (perm.mem_iff.mp second)
  exact pageWrites_comm z p q

theorem execute_cycleOf (m : Mem) (writes : List Write) :
    execute j m (cycleOf writes) = pageWrite j.endian j.size m writes := by
  cases writes with
  | nil => rfl
  | cons first rest => rfl

theorem execute_pages {m : Mem} (erased : ∀ i < j.firmwareLength, m (j.address + i) = 0xFF) (n : ℕ)
    (few : n ≤ pages j) (x : ℕ) :
    execute j m ((List.range n).flatMap fun p => cycleOf (pageWrites j image p)) x =
      if j.address ≤ x ∧ x < j.address + n * pageSize then flipByte j.invert (image (x - j.address)) else m x := by
  induction n generalizing x with
  | zero =>
    rw [Nat.zero_mul, if_neg (by omega)]
    rfl
  | succ n ih =>
    have before := ih (Nat.le_of_succ_le few)
    have inside : n * pageSize + pageSize ≤ j.firmwareLength := by
      rw [← pages_mul, ← Nat.succ_mul]
      exact Nat.mul_le_mul_right _ few
    rw [List.range_succ, List.flatMap_append, List.flatMap_singleton, execute, List.foldl_append]
    change execute j (execute j m _) (cycleOf _) x = _
    rw [execute_cycleOf, pageWrites_erased]
    · rw [before, Nat.succ_mul]
      by_cases old : j.address ≤ x ∧ x < j.address + n * pageSize
      · rw [if_neg (by omega), if_pos old, if_pos (by omega)]
      · rw [if_neg old]
        exact if_congr (by omega) rfl rfl
    · intro y after less
      rw [before, if_neg (by omega)]
      have blank := erased (y - j.address) (by omega)
      rw [Nat.add_sub_cancel' (by omega)] at blank
      exact blank

def InPage (j : Job) (cycle : List Write) : Prop :=
  ∃ base, pageSize ∣ base ∧ ∀ op ∈ cycle, base ≤ op.address ∧ op.address + j.size ≤ base + pageSize

theorem pageWrites_inPage (j : Job) (image : Mem) (p : ℕ) : InPage j (pageWrites j image p) := by
  refine ⟨j.address + p * pageSize, Nat.dvd_add j.aligned (Nat.dvd_mul_left _ _), fun op member => ?_⟩
  obtain ⟨d, less, rest, _⟩ := dropWhile_range (blank j image) (p * perPage j) (perPage j)
  rw [pageWrites, rest, List.mem_map] at member
  obtain ⟨k, inside, rfl⟩ := member
  rw [List.mem_range'_1] at inside
  obtain ⟨i, rfl⟩ : ∃ i, k = p * perPage j + i := ⟨k - p * perPage j, by omega⟩
  change j.address + p * pageSize ≤ offset j (p * perPage j + i) ∧ offset j (p * perPage j + i) + j.size ≤ _
  have last : i * j.size + j.size ≤ pageSize := by
    rw [← perPage_mul j, ← Nat.succ_mul]
    exact Nat.mul_le_mul_right _ (by omega)
  rw [offset_page]
  omega

theorem blank_of_skipped (clear : Clear j) (inside : k < j.firmwareLength / j.size)
    (skipped : ∀ cycle ∈ programCycles j image, ∀ op ∈ cycle, op.address ≠ offset j k) : blank j image k = true := by
  rw [words_eq] at inside
  have some : 0 < perPage j := Nat.pos_of_mul_pos_left (Nat.zero_lt_of_lt inside)
  have page : k / perPage j < pages j := (Nat.div_lt_iff_lt_mul some).mpr inside
  have place : k / perPage j * perPage j + k % perPage j = k := Nat.div_add_mod' k (perPage j)
  have low := Nat.mod_lt k some
  obtain ⟨d, less, rest, front⟩ := dropWhile_range (blank j image) (k / perPage j * perPage j) (perPage j)
  by_cases before : k % perPage j < d
  · have here := front _ before
    rw [place] at here
    exact here
  · have written : write j image k ∈ pageWrites j image (k / perPage j) := by
      rw [pageWrites, rest, List.mem_map]
      exact ⟨k, List.mem_range'_1.mpr (by omega), rfl⟩
    have cycle : pageWrites j image (k / perPage j) ∈ programCycles j image := by
      rw [programCycles_eq clear, List.mem_flatMap]
      refine ⟨k / perPage j, List.mem_range.mpr page, ?_⟩
      rw [cycleOf, if_neg]
      · exact List.mem_singleton_self _
      · intro none
        rw [List.isEmpty_iff.mp none] at written
        exact absurd written List.not_mem_nil
    exact absurd rfl (skipped _ cycle _ written)

theorem pageWrite_blank (skip : blank j image k = true) (m : Mem) :
    pageWrite j.endian j.size m [write j image k] = m := by
  have bytes := bytes_write j image k 1
  rw [Nat.one_mul] at bytes
  have all : ∀ x, ((slice image (k * j.size) j.size).map (flipByte j.invert)).getD x 0 = 0xFF ∨ j.size ≤ x := by
    intro x
    rcases Nat.lt_or_ge x j.size with inside | outside
    · left
      rw [List.getD_eq_getElem _ _ (by rw [List.length_map, length_slice]; exact inside)]
      simp only [List.getElem_map, slice_eq_map, List.getElem_range]
      rw [blank_bytes skip inside, flipByte_ff]
    · exact Or.inr outside
  have fits : offset j k % pageSize + j.size ≤ pageSize := by
    have place : offset j k % pageSize = k % perPage j * j.size := by
      obtain ⟨a, aligned⟩ := j.aligned
      rw [offset, aligned, Nat.mul_add_mod, ← perPage_mul j, Nat.mul_mod_mul_right]
    have some : 0 < perPage j := by
      rcases j.sized with same | same | same | same
      all_goals rw [perPage, same]; decide
    rw [place, ← Nat.succ_mul]
    calc (k % perPage j + 1) * j.size ≤ perPage j * j.size := Nat.mul_le_mul_right _ (Nat.mod_lt k some)
      _ = pageSize := perPage_mul j
  funext x
  change stream m (offset j k) (([write j image k]).flatMap fun op => bytesOf j.endian j.size op.data) x = m x
  rw [show [write j image k] = (List.range' k 1).map (write j image) from rfl, bytes,
    stream_apply m (by rw [List.length_map, length_slice]; exact fits), List.length_map, length_slice]
  by_cases inside : offset j k ≤ x ∧ x < offset j k + j.size
  · rcases all (x - offset j k) with ones | outside
    · rw [if_pos inside, ones]
      exact UInt8.and_neg_one
    · omega
  · rw [if_neg inside]

/-! ### The verification -/

theorem verify_page {p : ℕ} (n i : ℕ) (place : i + n + 1 = perPage j) (cycle : List ℕ) (closed : List (List ℕ)) :
    (List.range' (p * perPage j + i) (n + 1)).foldl (verifyStep j) ⟨cycle, closed⟩ =
      ⟨[], closed ++ [cycle ++ (List.range' (p * perPage j + i) (n + 1)).map (offset j)]⟩ := by
  have inside : i < perPage j := by omega
  induction n generalizing i cycle with
  | zero =>
    have full := (page_full (p := p) inside).mpr place
    change verifyStep j ⟨cycle, closed⟩ (p * perPage j + i) = _
    rw [verifyStep, if_pos full]
    rfl
  | succ n ih =>
    have more : ¬ (offset j (p * perPage j + i) + j.size) % pageSize = 0 := by
      rw [page_full inside]
      omega
    rw [List.range'_succ, List.foldl_cons, verifyStep, if_neg more, Nat.add_assoc,
      ih (i + 1) (by omega) _ (by omega), List.map_cons,
      List.append_assoc]
    rfl

theorem verifyCycles_eq (j : Job) :
    verifyCycles j = (List.range (pages j)).map fun p => (List.range' (p * perPage j) (perPage j)).map (offset j) := by
  have pageful : ∀ n, (List.range (n * perPage j)).foldl (verifyStep j) ⟨[], []⟩ =
      ⟨[], (List.range n).map fun p => (List.range' (p * perPage j) (perPage j)).map (offset j)⟩ := by
    intro n
    induction n with
    | zero =>
      rw [Nat.zero_mul]
      rfl
    | succ n ih =>
      obtain ⟨m, count⟩ : ∃ m, perPage j = m + 1 := by
        refine ⟨perPage j - 1, ?_⟩
        rcases j.sized with same | same | same | same
        all_goals rw [perPage, same]; decide
      have page := verify_page (j := j) (p := n) m 0 (by omega) [] ((List.range n).map fun p =>
        (List.range' (p * perPage j) (perPage j)).map (offset j))
      rw [Nat.add_zero, ← count] at page
      rw [range_pages, List.foldl_append, ih, page, List.range_succ, List.map_append]
      rfl
  rw [verifyCycles, words_eq, pageful]
  rfl

section
variable {m : Mem}

def Matches (j : Job) (image m : Mem) (k : ℕ) :
    Prop := readWord j.endian j.size m (offset j k) = flipBits j.invert (word j image k)

/-- The position in the file is that of the next word, if it is the next one. -/
def Sync (j : Job) (v : Verifying) (k : ℕ) : Prop := v.lastOffset = offset j k → v.position = k * j.size

variable (image m) in
theorem verifyOperation_eq {v : Verifying} (sync : Sync j v k) (inside : k * j.size + j.size ≤ j.firmwareLength) :
    (Matches j image m k → verifyOperation j image m v (offset j k) =
      some ⟨offset j (k + 1) % 2 ^ 64, (k + 1) * j.size⟩) ∧
      (¬ Matches j image m k → verifyOperation j image m v (offset j k) = none) := by
  have position : (if v.lastOffset = offset j k then v.position else offset j k - j.address) = k * j.size := by
    by_cases here : v.lastOffset = offset j k
    · rw [if_pos here, sync here]
    · rw [if_neg here, offset, Nat.add_sub_cancel_left]
  have next : offset j k + j.size = offset j (k + 1) := by
    rw [offset, offset, Nat.succ_mul, Nat.add_assoc]
  rw [verifyOperation, position, if_neg (Nat.not_lt.mpr inside), next, Nat.succ_mul]
  exact ⟨fun same => if_pos same, fun other => if_neg other⟩

variable (image m) in
theorem verifyDecrement_iff (n : ℕ) {v : Verifying} (sync : Sync j v k) (inside : (k + n) * j.size ≤ j.firmwareLength) :
    ((verifyDecrement j image m v ((List.range' k n).map (offset j))).isSome = true ↔
      ∀ i < n, Matches j image m (k + i)) ∧
      ∀ v', 0 < n → verifyDecrement j image m v ((List.range' k n).map (offset j)) = some v' →
        v' = ⟨offset j (k + n) % 2 ^ 64, (k + n) * j.size⟩ := by
  induction n generalizing k v with
  | zero => exact ⟨⟨fun _ i none => absurd none (Nat.not_lt_zero i), fun _ => rfl⟩, fun _ none =>
      absurd none (Nat.lt_irrefl 0)⟩
  | succ n ih =>
    have here : k * j.size + j.size ≤ j.firmwareLength := by
      rw [← Nat.succ_mul]
      exact (Nat.mul_le_mul_right _ (by omega)).trans inside
    obtain ⟨same, other⟩ := verifyOperation_eq image m sync here
    rw [verifyDecrement, List.range'_succ, List.map_cons, List.foldlM_cons]
    by_cases matches_ : Matches j image m k
    · rw [same matches_]
      change ((verifyDecrement j image m _ ((List.range' (k + 1) n).map (offset j))).isSome = true ↔ _) ∧
        ∀ v', 0 < n + 1 → verifyDecrement j image m _ ((List.range' (k + 1) n).map (offset j)) = some v' → _
      have later : Sync j ⟨offset j (k + 1) % 2 ^ 64, (k + 1) * j.size⟩ (k + 1) := fun _ => rfl
      obtain ⟨rest, final⟩ := ih later (by rw [Nat.add_right_comm]; exact inside)
      refine ⟨?_, ?_⟩
      · rw [rest]
        constructor
        · intro all i less
          cases i with
          | zero => exact matches_
          | succ i =>
            have next := all i (Nat.lt_of_succ_lt_succ less)
            rw [Nat.add_right_comm, Nat.add_assoc] at next
            exact next
        · intro all i less
          have next := all (i + 1) (Nat.succ_lt_succ less)
          rw [← Nat.add_assoc, Nat.add_right_comm] at next
          exact next
      · intro v' _ result
        cases n with
        | zero => exact (Option.some.inj result).symm
        | succ n =>
          have last := final v' (Nat.succ_pos n) result
          rw [Nat.add_right_comm, Nat.add_assoc] at last
          exact last
    · rw [other matches_]
      refine ⟨⟨fun none => absurd none Bool.false_ne_true, fun all => absurd (all 0 (Nat.succ_pos n)) matches_⟩, ?_⟩
      intro v' _ none
      exact absurd none.symm (Option.some_ne_none v')

def Ready (j : Job) (v : Verifying) : Prop := ∀ p < pages j, Sync j v (p * perPage j)

theorem perPage_pos (j : Job) : 0 < perPage j := by
  rcases j.sized with same | same | same | same
  all_goals rw [perPage, same]; decide

theorem page_inside {p : ℕ} (page : p < pages j) : (p * perPage j + perPage j) * j.size ≤ j.firmwareLength := by
  rw [← pages_mul, ← Nat.succ_mul, Nat.mul_assoc, perPage_mul]
  exact Nat.mul_le_mul_right _ page

theorem offset_first (j : Job) (p : ℕ) : offset j (p * perPage j) = j.address + p * pageSize := by
  have place := offset_page (j := j) p 0
  rw [Nat.zero_mul, Nat.add_zero, Nat.add_zero] at place
  exact place

theorem ready_first (j : Job) (position : ℕ) : Ready j ⟨2 ^ 64 - 1, position⟩ := by
  intro p _ same
  obtain ⟨a, aligned⟩ := j.aligned
  change 2 ^ 64 - 1 = _ at same
  rw [offset_first, aligned, pageSize] at same
  omega

theorem ready_page {p : ℕ} (page : p < pages j) :
    Ready j ⟨offset j (p * perPage j + perPage j) % 2 ^ 64, (p * perPage j + perPage j) * j.size⟩ := by
  intro q other same
  have inside := j.inside
  have short := j.short
  have length : (p + 1) * pageSize ≤ j.firmwareLength := by
    rw [← pages_mul]
    exact Nat.mul_le_mul_right _ page
  change offset j (p * perPage j + perPage j) % 2 ^ 64 = offset j (q * perPage j) at same
  rw [← Nat.succ_mul, offset_first, offset_first] at same
  have next : p + 1 = q := by
    rw [pageSize] at same length
    omega
  change (p * perPage j + perPage j) * j.size = q * perPage j * j.size
  rw [← Nat.succ_mul, ← next]

theorem verifies_pages {order : List (List ℕ)}
    (of : ∀ cycle ∈ order, ∃ p < pages j, cycle = (List.range' (p * perPage j) (perPage j)).map (offset j))
    {v : Verifying} (ready : Ready j v) :
    (order.foldlM (verifyDecrement j image m) v).isSome = true ↔
      ∀ p < pages j, (List.range' (p * perPage j) (perPage j)).map (offset j) ∈ order →
        ∀ i < perPage j, Matches j image m (p * perPage j + i) := by
  induction order generalizing v with
  | nil => exact ⟨fun _ p _ none => absurd none List.not_mem_nil, fun _ => rfl⟩
  | cons cycle order ih =>
    obtain ⟨p, page, rfl⟩ := of cycle List.mem_cons_self
    obtain ⟨all, final⟩ := verifyDecrement_iff image m (perPage j) (ready p page) (page_inside page)
    have rest := fun {v} => ih (v := v) fun other later => of other (List.mem_cons_of_mem _ later)
    rw [List.foldlM_cons]
    cases result : verifyDecrement j image m v ((List.range' (p * perPage j) (perPage j)).map (offset j)) with
    | none =>
      rw [result] at all
      constructor
      · exact fun none => absurd none Bool.false_ne_true
      · intro every
        exact absurd (all.mpr (every p page List.mem_cons_self)) Bool.false_ne_true
    | some v' =>
      rw [result] at all final
      have here := all.mp rfl
      obtain rfl := final v' (perPage_pos j) rfl
      change (order.foldlM (verifyDecrement j image m) _).isSome = true ↔ _
      rw [rest (ready_page page)]
      constructor
      · intro later q other member
        rcases List.mem_cons.mp member with same | member
        · have start : offset j (q * perPage j) = offset j (p * perPage j) := by
            obtain ⟨n, count⟩ : ∃ n, perPage j = n + 1 := ⟨perPage j - 1, by have := perPage_pos j; omega⟩
            rw [count, List.range'_succ, List.range'_succ, List.map_cons, List.map_cons] at same
            rw [count]
            exact (List.cons.inj same).1
          rw [offset_first, offset_first, pageSize] at start
          obtain rfl : q = p := by omega
          exact here
        · exact later q other member
      · intro every q other member
        exact every q other (List.mem_cons_of_mem _ member)

theorem matches_iff : Matches j image m k ↔ ∀ b < j.size, m (offset j k + b) = flipByte j.invert
    (image (k * j.size + b)) := by
  have short : j.size ≤ 8 := by
    have sized := j.sized
    omega
  rw [Matches, readWord, word, flipBits_assemble,
    assemble_inj (by rw [List.length_map, length_slice, length_slice]) (by rw [length_slice]; exact short),
    slice_eq_map, slice_eq_map, List.map_map, List.map_inj_left]
  constructor
  · intro all b inside
    exact all b (List.mem_range.mpr inside)
  · intro all b member
    exact all b (List.mem_range.mp member)

theorem holds_iff : Holds j image m ↔ ∀ p < pages j, ∀ i < perPage j, Matches j image m (p * perPage j + i) := by
  have some := size_pos j
  have positive := perPage_pos j
  constructor
  · intro holds p page i inside
    rw [matches_iff]
    intro b low
    have within : (p * perPage j + i) * j.size + b < j.firmwareLength := by
      have bound : (p * perPage j + (i + 1)) * j.size ≤ (p * perPage j + perPage j) * j.size :=
        Nat.mul_le_mul_right _ (by omega)
      have last := page_inside page
      rw [← Nat.add_assoc, Nat.succ_mul] at bound
      omega
    have byte := holds _ within
    rw [← Nat.add_assoc] at byte
    exact byte
  · intro all i inside
    have word : i / j.size < pages j * perPage j := by
      rw [← words_eq]
      exact Nat.div_lt_div_of_lt_of_dvd ((Dvd.intro_left _ (perPage_mul j)).trans j.pages) inside
    have page : i / j.size / perPage j < pages j := (Nat.div_lt_iff_lt_mul positive).mpr word
    have matching := all _ page _ (Nat.mod_lt (i / j.size) positive)
    rw [Nat.div_add_mod', matches_iff] at matching
    have byte := matching _ (Nat.mod_lt i some)
    rw [offset, Nat.add_assoc, Nat.div_add_mod'] at byte
    exact byte

end

/-- With the range erased and the erase register outside of it: in whatever order the cycles are
carried out, the range holds the image and nothing else has changed, each cycle stays in a page, a
word that is left out would not change the flash, and a verification in any order succeeds exactly
when the range holds the image. -/
theorem programs (j : Job) (image m : Mem) (clear : Clear j)
    (erased : ∀ i < j.firmwareLength, m (j.address + i) = 0xFF) :
    (∀ order : List (List Write), order.Perm (programCycles j image) → Holds j image (execute j m order) ∧
      ∀ x, ¬ (j.address ≤ x ∧ x < j.address + j.firmwareLength) → execute j m order x = m x) ∧
    (∀ cycle ∈ programCycles j image, InPage j cycle) ∧
    (∀ k < j.firmwareLength / j.size, (∀ cycle ∈ programCycles j image, ∀ op ∈ cycle, op.address ≠ offset j k) →
      blank j image k = true ∧ ∀ m', pageWrite j.endian j.size m' [write j image k] = m') ∧
    ∀ (m' : Mem) (position : ℕ) (order : List (List ℕ)), order.Perm (verifyCycles j) →
      (verifies j image m' position order ↔ Holds j image m') := by
  refine ⟨fun order perm => ?_, ?_, ?_, ?_⟩
  · have result : ∀ x, execute j m order x =
        if j.address ≤ x ∧ x < j.address + j.firmwareLength then flipByte j.invert
          (image (x - j.address)) else m x := by
      intro x
      rw [execute_perm clear perm, programCycles_eq clear, execute_pages erased (pages j) le_rfl, pages_mul]
    constructor
    · intro i inside
      rw [result, if_pos (by omega), Nat.add_sub_cancel_left]
    · intro x outside
      rw [result, if_neg outside]
  · intro cycle member
    obtain ⟨p, _, rfl⟩ := mem_programCycles clear member
    exact pageWrites_inPage j image p
  · intro k inside skipped
    have skip := blank_of_skipped clear inside skipped
    exact ⟨skip, pageWrite_blank skip⟩
  · intro m' position order perm
    have all : ∀ p < pages j, (List.range' (p * perPage j) (perPage j)).map (offset j) ∈ order := by
      intro p page
      rw [perm.mem_iff, verifyCycles_eq]
      exact List.mem_map.mpr ⟨p, List.mem_range.mpr page, rfl⟩
    have of : ∀ cycle ∈ order, ∃ p < pages j, cycle = (List.range' (p * perPage j) (perPage j)).map (offset j) := by
      intro cycle member
      rw [perm.mem_iff, verifyCycles_eq] at member
      obtain ⟨p, page, same⟩ := List.mem_map.mp member
      exact ⟨p, List.mem_range.mp page, same.symm⟩
    rw [verifies, verifies_pages of (ready_first j position), holds_iff]
    constructor
    · exact fun every p page => every p page (all p page)
    · exact fun every p page _ => every p page

/-- A count in an erased flash. -/
theorem programs_quarter : Holds quarter UInt8.ofNat
    (execute quarter (fun _ => 0xFF) (programCycles quarter UInt8.ofNat)) ∧
    verifies quarter UInt8.ofNat (execute quarter (fun _ => 0xFF) (programCycles quarter UInt8.ofNat)) 0
      (verifyCycles quarter) := by
  obtain ⟨written, _, _, verified⟩ :=
    programs quarter UInt8.ofNat (fun _ => 0xFF) (fun both => absurd both.2 (by decide)) (fun _ _ => rfl)
  have holds := (written _ (List.Perm.refl _)).1
  exact ⟨holds, (verified _ 0 _ (List.Perm.refl _)).mpr holds⟩

end BelProject.Tools.FlashProgram
