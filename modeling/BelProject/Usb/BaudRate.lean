import BelProject.Library.Runs
import Mathlib.Data.BitVec
import Mathlib.Data.Rat.Floor
import Mathlib.Algebra.Order.Round

/-! The line speed of the USB console. The firmware divides it by hand, in two steps of seven bits,
and shifts the quotient out over two pins; `ez_usb` samples the pins and shifts the bits into the
register of the baud rate. The synchroniser of the cycle line is left out. -/

namespace BelProject.Usb.BaudRate

section
variable {α : Type} [Add α] [Div α] [Mod α] [HOr α α α] [HShiftLeft α ℕ α]

/-- All that `BangBaudRate` computes, in order. -/
structure Values (α : Type) where
  speed0 : α
  speed1 : α
  speed2 : α
  speed3 : α
  speed4 : α
  speed5 : α
  speed : α
  divHi0 : α
  divLo0 : α
  divHi1 : α
  divLo1 : α
  divHi2 : α
  divLo2 : α
  divHi3 : α
  divLo3 : α
  divLo4 : α
  shift : α

/-- In any numbers. Half of the divisor is a constant of the compiler. -/
def values (divisor half : α) (lineCode : ℕ → α) : Values α :=
  let speed0 := lineCode 3
  let speed1 := speed0 <<< 8
  let speed2 := speed1 ||| lineCode 2
  let speed3 := speed2 <<< 8
  let speed4 := speed3 ||| lineCode 1
  let speed5 := speed4 <<< 8
  let speed := speed5 ||| lineCode 0
  let divHi0 := speed / divisor
  let divLo0 := speed % divisor
  let divHi1 := divHi0 <<< 7
  let divLo1 := divLo0 <<< 7
  let divHi2 := divHi1 + divLo1 / divisor
  let divLo2 := divLo1 % divisor
  let divHi3 := divHi2 <<< 7
  let divLo3 := divLo2 <<< 7
  let divLo4 := divLo3 + half
  let shift := divHi3 + divLo4 / divisor
  { speed0, speed1, speed2, speed3, speed4, speed5, speed, divHi0, divLo0, divHi1, divLo1, divHi2,
    divLo2, divHi3, divLo3, divLo4,
    shift }

def Values.map {β : Type} (f : α → β) (v : Values α) : Values β :=
  ⟨f v.speed0, f v.speed1, f v.speed2, f v.speed3, f v.speed4, f v.speed5, f v.speed, f v.divHi0,
    f v.divLo0, f v.divHi1,
    f v.divLo1, f v.divHi2, f v.divLo2, f v.divHi3, f v.divLo3, f v.divLo4, f v.shift⟩

end

/-- As `unsigned long`. -/
def values32 (lineCode : ℕ → BitVec 8) : Values (BitVec 32) :=
  values 1953125 (1953125 / 2) fun k => (lineCode k).setWidth 32

/-- The loop over the bits: the values of port A one after the other. -/
def bangLoop : ℕ → BitVec 8 → BitVec 32 → List (BitVec 8)
  | 0, _, _ => []
  | left + 1, ioa, shift =>
    let data := (ioa &&& 0xFE) ||| (shift &&& 1).setWidth 8
    let high := data ||| 2
    let low := high &&& ~~~2
    data :: high :: low :: bangLoop left low (shift >>> 1)

def bangBaudRate (ioa : BitVec 8) (lineCode : ℕ → BitVec 8) : List (BitVec 8) :=
  bangLoop 17 ioa (values32 lineCode).shift

/-- What the firmware does to port A behind `Initialize`. -/
inductive Event where
  | cycleLine (value : BitVec 8)
  | linkLoss
  | ready
  | lineCoding (lineCode : ℕ → BitVec 8)

def Event.port (ioa : BitVec 8) : Event → BitVec 8
  | .cycleLine value => (ioa &&& 0xF7) ||| ((value &&& 1) <<< 3)
  | .linkLoss => ioa &&& 0xF7
  | .ready => ioa &&& 0x7F
  | .lineCoding lineCode => (bangBaudRate ioa lineCode).getLastD ioa

def port (events : List Event) : BitVec 8 := events.foldl Event.port 0x80

structure Pins where
  speedI : Bool
  shiftI : Bool

def pins (ioa : BitVec 8) : Pins := ⟨ioa.getLsbD 0, ioa.getLsbD 1⟩

structure Sync where
  shift : BitVec 4
  speed : BitVec 3
  deriving DecidableEq

structure Registers where
  sync : Sync
  baudrate : BitVec 17

/-- A rising edge of the shift line, with the speed line at the same sample. -/
def Sync.edge (s : Sync) : Option Bool := if s.shift.getLsbD 1 && !s.shift.getLsbD 0 then some
    (s.speed.getLsbD 0) else none

def Sync.clock (s : Sync) (p : Pins) : Sync :=
  ⟨BitVec.cons p.shiftI (s.shift.extractLsb' 1 3), BitVec.cons p.speedI (s.speed.extractLsb' 1 2)⟩

def shiftIn (baudrate : BitVec 17) (bit : Bool) : BitVec 17 := BitVec.cons bit (baudrate.extractLsb' 1 16)

/-- One rising edge of the process `main`, out of reset. -/
def clock (r : Registers) (p : Pins) : Registers := ⟨r.sync.clock p, r.sync.edge.elim r.baudrate (shiftIn r.baudrate)⟩

/-- Each value of the port lasts two clocks and some more. -/
def samples : (ℕ → ℕ) → List (BitVec 8) → List Pins
  | _, [] => []
  | extra, ioa :: more => List.replicate (2 + extra 0) (pins ioa) ++ samples (fun k => extra (k + 1)) more

def edges : Sync → List Pins → List Bool
  | _, [] => []
  | s, p :: more => s.edge.toList ++ edges (s.clock p) more

def Sync.behind (s : Sync) (samples : List Pins) : Sync := samples.foldl Sync.clock s

theorem edges_append (s : Sync) (some more : List Pins) :
    edges s (some ++ more) = edges s some ++ edges (s.behind some) more := by
  induction some generalizing s with
  | nil => rfl
  | cons p some ih =>
    rw [List.cons_append, edges, edges, ih, List.append_assoc]
    rfl

theorem behind_append (s : Sync) (some more : List Pins) : s.behind (some ++ more) = (s.behind some).behind more :=
  List.foldl_append

theorem run_eq (r : Registers) (inputs : List Pins) :
    inputs.foldl clock r = ⟨r.sync.behind inputs, (edges r.sync inputs).foldl shiftIn r.baudrate⟩ := by
  induction inputs generalizing r with
  | nil => rfl
  | cons p inputs ih =>
    rw [List.foldl_cons, ih, edges, List.foldl_append]
    cases edge : r.sync.edge with
    | none =>
      rw [clock, edge]
      rfl
    | some bit =>
      rw [clock, edge]
      rfl

def Sync.steady (p : Pins) : Sync := ⟨if p.shiftI then 0xF else 0, if p.speedI then 7 else 0⟩

theorem steady_clock (p : Pins) : (Sync.steady p).clock p = Sync.steady p ∧ (Sync.steady p).edge = none := by
  obtain ⟨speedI, shiftI⟩ := p
  revert speedI shiftI
  decide

theorem steady_edges (p : Pins) (n : ℕ) :
    edges (Sync.steady p) (List.replicate n p) = [] ∧ (Sync.steady p).behind (List.replicate n p) = Sync.steady p := by
  obtain ⟨same, none⟩ := steady_clock p
  induction n with
  | zero => exact ⟨rfl, rfl⟩
  | succ n ih =>
    rw [List.replicate_succ, edges, Sync.behind, List.foldl_cons, same, none]
    exact ih

theorem four_steady (s : Sync) (p : Pins) : s.behind (List.replicate 4 p) = Sync.steady p := by
  obtain ⟨shift, speed⟩ := s
  obtain ⟨speedI, shiftI⟩ := p
  revert shift speed speedI shiftI
  decide +kernel

theorem long_same (s : Sync) (p : Pins) (n : ℕ) :
    edges s (List.replicate (2 + n) p) = edges s (List.replicate (2 + min n 2) p) ∧
      s.behind (List.replicate (2 + n) p) = s.behind (List.replicate (2 + min n 2) p) := by
  rcases Nat.le_total n 2 with few | many
  · rw [Nat.min_eq_left few]
    exact ⟨rfl, rfl⟩
  · obtain ⟨n, rfl⟩ := Nat.exists_eq_add_of_le many
    obtain ⟨none, same⟩ := steady_edges p n
    rw [Nat.min_eq_right many, ← Nat.add_assoc, List.replicate_add, edges_append, behind_append,
      four_steady, none, same,
      List.append_nil]
    exact ⟨rfl, rfl⟩

/-- No edge of the shift line is under way. -/
def Settled (s : Sync) : Prop := s.shift = 0 ∨ s.shift = 1 ∨ s.shift = 3

instance (s : Sync) : Decidable (Settled s) := inferInstanceAs (Decidable (_ ∨ _ ∨ _))

def turn (bit : Bool) (a b c : ℕ) : List Pins :=
  List.replicate (2 + a) ⟨bit, false⟩ ++ (List.replicate (2 + b) ⟨bit, true⟩ ++ List.replicate (2 + c) ⟨bit, false⟩)

/-- The two newest samples are a bit that waits for its edge. -/
def Placed (s : Sync) (bit : Bool) : Prop :=
  s.shift.extractLsb' 2 2 = 0 ∧ s.speed.extractLsb' 1 2 = if bit then 3 else 0

instance (s : Sync) (bit : Bool) : Decidable (Placed s bit) := inferInstanceAs (Decidable (_ ∧ _))

theorem placed_cases : ∀ (shift : BitVec 4) (speed : BitVec 3) (bit : Bool), ∀ a < 3,
    Placed ((Sync.mk shift speed).behind (List.replicate (2 + a) ⟨bit, false⟩)) bit ∧
      (Settled ⟨shift, speed⟩ → edges ⟨shift, speed⟩ (List.replicate (2 + a) ⟨bit, false⟩) = [] ∧
        Settled ((Sync.mk shift speed).behind (List.replicate (2 + a) ⟨bit, false⟩))) := by
  decide +kernel

theorem shift_cases : ∀ (shift : BitVec 4) (speed : BitVec 3) (bit : Bool), Placed ⟨shift, speed⟩ bit →
    ∀ b < 3, ∀ c < 3,
    (edges ⟨shift, speed⟩ (List.replicate (2 + b) ⟨bit, true⟩ ++ List.replicate (2 + c)
      ⟨bit, false⟩)).getLast? = some bit ∧
      Settled ((Sync.mk shift speed).behind (List.replicate (2 + b) ⟨bit, true⟩ ++ List.replicate
        (2 + c) ⟨bit, false⟩)) ∧
      (Settled ⟨shift, speed⟩ →
        edges ⟨shift, speed⟩ (List.replicate (2 + b) ⟨bit, true⟩ ++ List.replicate (2 + c) ⟨bit, false⟩) = [bit]) := by
  decide +kernel

theorem turn_edges (s : Sync) (bit : Bool) (a b c : ℕ) :
    ∃ before, edges s (turn bit a b c) = before ++ [bit] ∧ Settled (s.behind (turn bit a b c)) ∧
      (Settled s → before = []) := by
  obtain ⟨first, reached⟩ := long_same s ⟨bit, false⟩ a
  let t := s.behind (List.replicate (2 + a) ⟨bit, false⟩)
  obtain ⟨set, quiet⟩ := placed_cases s.shift s.speed bit (min a 2) (by omega)
  rw [← reached] at set quiet
  rw [← first] at quiet
  have same : edges t (List.replicate (2 + b) ⟨bit, true⟩ ++ List.replicate (2 + c) ⟨bit, false⟩) =
        edges t (List.replicate (2 + min b 2) ⟨bit, true⟩ ++ List.replicate (2 + min c 2) ⟨bit, false⟩) ∧
      t.behind (List.replicate (2 + b) ⟨bit, true⟩ ++ List.replicate (2 + c) ⟨bit, false⟩) =
        t.behind (List.replicate (2 + min b 2) ⟨bit, true⟩ ++ List.replicate (2 + min c 2) ⟨bit, false⟩) := by
    simp only [edges_append, behind_append, (long_same _ _ b).1, (long_same _ _ b).2,
      (long_same _ _ c).1, (long_same _ _ c).2, and_self]
  obtain ⟨last, settled, alone⟩ := shift_cases t.shift t.speed bit set (min b 2) (by omega) (min c 2) (by omega)
  rw [← same.1] at last alone
  rw [← same.2] at settled
  obtain ⟨before, split⟩ := List.getLast?_eq_some_iff.mp last
  rw [turn, edges_append, behind_append]
  refine ⟨edges s (List.replicate (2 + a) ⟨bit, false⟩) ++
    before, by rw [List.append_assoc, ← split], settled, fun start => ?_⟩
  obtain ⟨none, still⟩ := quiet start
  have single := split.symm.trans (alone still)
  rw [none, List.nil_append]
  exact List.append_cancel_right (single.trans (List.nil_append [bit]).symm)

theorem pins_turn (ioa : BitVec 8) (shift : BitVec 32) (low : ioa.getLsbD 1 = false) :
    pins ((ioa &&& 0xFE) ||| (shift &&& 1).setWidth 8) = ⟨shift.getLsbD 0, false⟩ ∧
      pins ((ioa &&& 0xFE) ||| (shift &&& 1).setWidth 8 ||| 2) = ⟨shift.getLsbD 0, true⟩ ∧
      pins (((ioa &&& 0xFE) ||| (shift &&& 1).setWidth 8 ||| 2) &&& ~~~2) = ⟨shift.getLsbD 0, false⟩ := by
  refine ⟨?_, ?_, ?_⟩
  · simpa [pins] using low
  · simp [pins]
  · simp [pins]

theorem samples_turn (extra : ℕ → ℕ) (data high low : BitVec 8) (more : List (BitVec 8)) :
    samples extra (data :: high :: low :: more) =
      List.replicate (2 + extra 0) (pins data) ++
        (List.replicate (2 + extra 1) (pins high) ++ List.replicate (2 + extra 2) (pins low)) ++
        samples (fun k => extra (k + 3)) more := by
  rw [samples, samples, samples, List.append_assoc, List.append_assoc]

theorem loop_edges (n : ℕ) (extra : ℕ → ℕ) (s : Sync) (ioa : BitVec 8) (shift : BitVec 32)
    (low : ioa.getLsbD 1 = false) :
    ∃ before, edges s (samples extra (bangLoop n ioa shift)) = before ++ (List.range n).map shift.getLsbD ∧
      (Settled s → before = []) := by
  induction n generalizing extra s ioa shift with
  | zero => exact ⟨[], rfl, fun _ => rfl⟩
  | succ n ih =>
    obtain ⟨data, high, last⟩ := pins_turn ioa shift low
    obtain ⟨before, first, settled, alone⟩ := turn_edges s (shift.getLsbD 0) (extra 0) (extra 1) (extra 2)
    have back : (((ioa &&& 0xFE) ||| (shift &&& 1).setWidth 8 ||| 2) &&& ~~~2).getLsbD 1 = false :=
      congrArg Pins.shiftI last
    obtain ⟨none, rest, quiet⟩ :=
      ih (fun k => extra (k + 3)) (s.behind (turn (shift.getLsbD 0) (extra 0) (extra 1) (extra 2))) _
      (shift >>> 1) back
    refine ⟨before, ?_, alone⟩
    rw [bangLoop, samples_turn, data, high, last]
    change edges s (turn (shift.getLsbD 0) (extra 0) (extra 1) (extra 2) ++ _) = _
    rw [edges_append, first, rest, quiet settled, List.nil_append, List.range_succ_eq_map, List.map_cons, List.map_map,
      List.append_assoc, List.singleton_append]
    congr 2
    apply List.map_congr_left
    intro k _
    rw [BitVec.getLsbD_ushiftRight, Nat.add_comm]
    rfl

theorem loop_low (n : ℕ) (ioa : BitVec 8) (shift : BitVec 32) (low : ioa.getLsbD 1 = false) :
    ((bangLoop n ioa shift).getLastD ioa).getLsbD 1 = false := by
  induction n generalizing ioa shift with
  | zero => exact low
  | succ n ih =>
    have back := congrArg Pins.shiftI (pins_turn ioa shift low).2.2
    have rest := ih _ (shift >>> 1) back
    rw [bangLoop, List.getLastD_cons, List.getLastD_cons, List.getLastD_cons]
    exact rest

theorem port_low (events : List Event) : (port events).getLsbD 1 = false := by
  induction events using List.reverseRecOn with
  | nil => rfl
  | append_singleton events event ih =>
    rw [port, List.foldl_append]
    change (event.port (port events)).getLsbD 1 = false
    cases event with
    | cycleLine value => simpa [Event.port] using ih
    | linkLoss => simpa [Event.port] using ih
    | ready => simpa [Event.port] using ih
    | lineCoding lineCode => exact loop_low _ _ _ ih

theorem getLsbD_shiftIn (baudrate : BitVec 17) (bit : Bool) (j : ℕ) :
    (shiftIn baudrate bit).getLsbD j = if j = 16 then bit else decide (j < 16) && baudrate.getLsbD (j + 1) := by
  rw [shiftIn, BitVec.getLsbD_cons, BitVec.getLsbD_extractLsb', Nat.add_comm 1 j]

theorem getLsbD_bits (bits : List Bool) (baudrate : BitVec 17) (few : bits.length ≤ 17) {j : ℕ}
    (inside : j < bits.length) :
    (bits.foldl shiftIn baudrate).getLsbD (17 - bits.length + j) = bits[j] := by
  induction bits using List.reverseRecOn generalizing j with
  | nil => exact absurd inside (Nat.not_lt_zero j)
  | append_singleton bits bit ih =>
    rw [List.length_append, List.length_singleton] at few inside
    rw [List.foldl_append, List.foldl_cons, List.foldl_nil, getLsbD_shiftIn, List.length_append, List.length_singleton]
    rcases Nat.lt_succ_iff_lt_or_eq.mp inside with before | rfl
    · have place : 17 - (bits.length + 1) + j + 1 = 17 - bits.length + j := by omega
      rw [if_neg (by omega), decide_eq_true (by omega), Bool.true_and, place, ih (by omega) before,
        List.getElem_append_left before]
    · rw [if_pos (by omega), List.getElem_concat_length rfl]

theorem shiftIn_word (before : List Bool) (shift : BitVec 32) (baudrate : BitVec 17) :
    (before ++ (List.range 17).map shift.getLsbD).foldl shiftIn baudrate = shift.setWidth 17 := by
  apply BitVec.eq_of_getLsbD_eq
  intro j inside
  have bit := getLsbD_bits ((List.range 17).map shift.getLsbD) (before.foldl shiftIn baudrate)
    (by rw [List.length_map, List.length_range]) (j := j) (by rw [List.length_map, List.length_range]; exact inside)
  simp only [List.length_map, List.length_range, Nat.sub_self, Nat.zero_add, List.getElem_map,
    List.getElem_range] at bit
  rw [List.foldl_append, bit, BitVec.getLsbD_setWidth, decide_eq_true inside, Bool.true_and]

def lineCodeOf (s : BitVec 32) (k : ℕ) : BitVec 8 := s.extractLsb' (8 * k) 8

variable {word : BitVec 32}

theorem toNat_shiftLeft_of_lt {n k : ℕ} (small : word.toNat < 2 ^ k) (fits : k + n ≤ 32) :
    (word <<< n).toNat = word.toNat <<< n ∧ word.toNat <<< n < 2 ^ (k + n) := by
  have below : word.toNat <<< n < 2 ^ (k + n) := by
    rw [Nat.shiftLeft_eq, Nat.pow_add]
    exact Nat.mul_lt_mul_of_pos_right small (Nat.two_pow_pos n)
  refine ⟨?_, below⟩
  rw [BitVec.toNat_shiftLeft, Nat.mod_eq_of_lt (below.trans_le (Nat.pow_le_pow_right Nat.two_pos fits))]

theorem toNat_div_divisor {n : ℕ} (same : word.toNat = n) : (word / 1953125).toNat = n / 1953125 := by
  rw [BitVec.toNat_udiv, same]
  rfl

theorem toNat_mod_divisor {n : ℕ} (same : word.toNat = n) : (word % 1953125).toNat = n % 1953125 := by
  rw [BitVec.toNat_umod, same]
  rfl

theorem toNat_add_carry {high low : BitVec 32} {n k : ℕ} (same : high.toNat = n) (same' : low.toNat = k)
    (fits : n + k / 1953125 < 2 ^ 32) : (high + low / 1953125).toNat = n + k / 1953125 := by
  rw [BitVec.toNat_add, toNat_div_divisor same', same, Nat.mod_eq_of_lt fits]

theorem toNat_byte (byte : BitVec 8) : (byte.setWidth 32).toNat = byte.toNat :=
  BitVec.toNat_setWidth_of_le (by decide)

theorem toNat_or_byte {n k : ℕ} (same : word.toNat = n) (small : n < 2 ^ k) (fits : 8 ≤ k) (byte : BitVec 8) :
    (word ||| byte.setWidth 32).toNat = n ||| byte.toNat ∧ n ||| byte.toNat < 2 ^ k := by
  rw [BitVec.toNat_or, same, toNat_byte]
  exact ⟨rfl, Nat.or_lt_two_pow small (byte.isLt.trans_le (Nat.pow_le_pow_right Nat.two_pos fits))⟩

theorem values_exact (lineCode : ℕ → BitVec 8) :
    (values32 lineCode).map BitVec.toNat = values 1953125 (1953125 / 2) fun k => (lineCode k).toNat := by
  let v := values32 lineCode
  let n := values 1953125 (1953125 / 2) fun k => (lineCode k).toNat
  have speed0 : v.speed0.toNat = n.speed0 := toNat_byte (lineCode 3)
  have small0 : v.speed0.toNat < 2 ^ 8 := speed0 ▸ (lineCode 3).isLt
  obtain ⟨speed1, small1⟩ : v.speed1.toNat = n.speed1 ∧ n.speed1 < 2 ^ 16 :=
    speed0 ▸ toNat_shiftLeft_of_lt small0 (by decide)
  obtain ⟨speed2, small2⟩ : v.speed2.toNat = n.speed2 ∧ n.speed2 < 2 ^ 16 :=
    toNat_or_byte speed1 small1 (by decide) (lineCode 2)
  obtain ⟨speed3, small3⟩ : v.speed3.toNat = n.speed3 ∧ n.speed3 < 2 ^ 24 :=
    speed2 ▸ toNat_shiftLeft_of_lt (speed2 ▸ small2) (by decide)
  obtain ⟨speed4, small4⟩ : v.speed4.toNat = n.speed4 ∧ n.speed4 < 2 ^ 24 :=
    toNat_or_byte speed3 small3 (by decide) (lineCode 1)
  obtain ⟨speed5, small5⟩ : v.speed5.toNat = n.speed5 ∧ n.speed5 < 2 ^ 32 :=
    speed4 ▸ toNat_shiftLeft_of_lt (speed4 ▸ small4) (by decide)
  obtain ⟨speed, small⟩ : v.speed.toNat = n.speed ∧ n.speed < 2 ^ 32 :=
    toNat_or_byte speed5 small5 (by decide) (lineCode 0)
  have divHi0 : v.divHi0.toNat = n.divHi0 := toNat_div_divisor speed
  have divLo0 : v.divLo0.toNat = n.divLo0 := toNat_mod_divisor speed
  -- The quotient has twelve bits, a rest has twenty-one.
  have quotient : n.divHi0 < 2 ^ 12 := Nat.div_lt_of_lt_mul (small.trans (by decide))
  have rest : n.divLo0 < 2 ^ 21 := (Nat.mod_lt _ (by decide)).trans (by decide)
  obtain ⟨divHi1, high1⟩ : v.divHi1.toNat = n.divHi1 ∧ n.divHi1 < 2 ^ 19 :=
    divHi0 ▸ toNat_shiftLeft_of_lt (divHi0 ▸ quotient) (by decide)
  obtain ⟨divLo1, low1⟩ : v.divLo1.toNat = n.divLo1 ∧ n.divLo1 < 2 ^ 28 :=
    divLo0 ▸ toNat_shiftLeft_of_lt (divLo0 ▸ rest) (by decide)
  have carry1 : n.divLo1 / 1953125 < 2 ^ 8 := Nat.div_lt_of_lt_mul (low1.trans (by decide))
  have high2 : n.divHi2 = n.divHi1 + n.divLo1 / 1953125 := rfl
  have divHi2 : v.divHi2.toNat = n.divHi2 :=
    toNat_add_carry divHi1 divLo1 (show n.divHi1 + n.divLo1 / 1953125 < 2 ^ 32 by omega)
  have divLo2 : v.divLo2.toNat = n.divLo2 := toNat_mod_divisor divLo1
  have rest2 : n.divLo2 < 2 ^ 21 := (Nat.mod_lt _ (by decide)).trans (by decide)
  obtain ⟨divHi3, high3⟩ : v.divHi3.toNat = n.divHi3 ∧ n.divHi3 < 2 ^ 27 :=
    divHi2 ▸ toNat_shiftLeft_of_lt (k := 20) (by omega) (by decide)
  obtain ⟨divLo3, low3⟩ : v.divLo3.toNat = n.divLo3 ∧ n.divLo3 < 2 ^ 28 :=
    divLo2 ▸ toNat_shiftLeft_of_lt (divLo2 ▸ rest2) (by decide)
  have low4 : n.divLo4 = n.divLo3 + 976562 := rfl
  have divLo4 : v.divLo4.toNat = n.divLo4 := by
    have sum : (v.divLo3 + 976562).toNat = v.divLo3.toNat + 976562 :=
      BitVec.toNat_add_of_lt (show v.divLo3.toNat + 976562 < 2 ^ 32 by omega)
    exact sum.trans (congrArg (· + 976562) divLo3)
  have carry4 : n.divLo4 / 1953125 < 2 ^ 9 := Nat.div_lt_of_lt_mul (by omega)
  have shift : v.shift.toNat = n.shift :=
    toNat_add_carry divHi3 divLo4 (show n.divHi3 + n.divLo4 / 1953125 < 2 ^ 32 by omega)
  change Values.map BitVec.toNat v = n
  rw [Values.map, speed0, speed1, speed2, speed3, speed4, speed5, speed, divHi0, divLo0, divHi1, divLo1,
    divHi2, divLo2, divHi3,
    divLo3, divLo4, shift]

theorem shift_nat (s : BitVec 32) : (values32 (lineCodeOf s)).shift.toNat = (s.toNat * 2 ^ 14 + 976562) / 1953125 := by
  have exact := congrArg Values.shift (values_exact (lineCodeOf s))
  have speed : (values 1953125 (1953125 / 2) fun k => (lineCodeOf s k).toNat).speed = s.toNat := by
    simp only [values, lineCodeOf, BitVec.extractLsb'_toNat]
    rw [← Nat.shiftLeft_add_eq_or_of_lt (by omega), ← Nat.shiftLeft_add_eq_or_of_lt (by omega),
      ← Nat.shiftLeft_add_eq_or_of_lt (by omega)]
    have bound := s.isLt
    omega
  refine exact.trans ?_
  simp only [values] at speed ⊢
  rw [speed]
  simp only [Nat.shiftLeft_eq]
  have bound := s.isLt
  omega

theorem round_quotient (n : ℕ) : (((n * 2 ^ 14 + 976562) / 1953125 : ℕ) : ℤ) = round ((n : ℚ) * 2 ^ 14 / 1953125) := by
  have twice : (n : ℚ) * 2 ^ 14 / 1953125 + 1 / 2 = ((n * 2 ^ 15 + 1953125 : ℕ) : ℚ) / ((2 * 1953125 : ℕ) : ℚ) := by
    push_cast
    ring
  rw [round_eq, twice, Rat.floor_natCast_div_natCast]
  omega

/-- Whatever the firmware did before, and whatever the registers of the FPGA hold: behind
`BangBaudRate` the register has the
nearest integer, and no computation on the way overflows. -/
theorem bangBaudRate_nearest (events : List Event) (s : BitVec 32) (extra : ℕ → ℕ) (r : Registers) :
    (values32 (lineCodeOf s)).map BitVec.toNat = values 1953125 (1953125 / 2) (fun k => (lineCodeOf s k).toNat) ∧
      ((((samples extra (bangBaudRate (port events) (lineCodeOf s))).foldl clock r).baudrate.toNat : ℕ) : ℤ) =
        round ((s.toNat : ℚ) * 2 ^ 14 / 1953125) % 2 ^ 17 := by
  refine ⟨values_exact _, ?_⟩
  obtain ⟨before, bits, _⟩ := loop_edges 17 extra r.sync (port events) (values32 (lineCodeOf s)).shift (port_low events)
  rw [run_eq, bangBaudRate, bits, shiftIn_word, BitVec.toNat_setWidth, shift_nat, Int.natCast_mod, round_quotient]
  rfl

end BelProject.Usb.BaudRate
