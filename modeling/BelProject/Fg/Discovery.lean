import BelProject.Library.Overlay
import Mathlib.Data.BitVec
import Mathlib.Data.List.Pairwise

/-! The slave cards on the SCU bus and the function generators on them. The first pass records the
cards that answer, the second one makes a list of their generators and stops at the first record
without a unique id. An access outside of an array is `none`. -/

namespace BelProject.Fg.Discovery
open BelProject.Library.Overlay

def maxScuSlaves : ℕ := 12

def maxFgDevices : ℕ := 2 * maxScuSlaves

/-- `struct fg_dev`, with the number of the record its slave has. -/
structure FgDev where
  devNumber : BitVec 32
  version : BitVec 32
  offset : BitVec 32
  slave : Option ℕ

/-- `struct scu_slave` -/
structure ScuSlave where
  uniqueId : BitVec 64
  version : BitVec 32
  cidGroup : BitVec 32
  cidSys : BitVec 32
  slot : BitVec 32
  devs : ℕ → FgDev

/-- What `memset` leaves. -/
def zeros : ℕ → ScuSlave := fun _ => ⟨0, 0, 0, 0, 0, fun _ => ⟨0, 0, 0, none⟩⟩

/-- `struct scu_bus` -/
structure ScuBus where
  uniqueId : BitVec 64
  slaves : ℕ → ScuSlave

/-- `&(bus->slaves[slave].devs[dev])` -/
structure DevPtr where
  slave : ℕ
  dev : ℕ
  deriving DecidableEq

/-- `struct fg_list` -/
abbrev FgList := ℕ → Option DevPtr

def ScuBus.put (bus : ScuBus) (j : ℕ) (slave : ScuSlave) : Option ScuBus :=
  if j < maxScuSlaves + 1 then some { bus with slaves := Function.update bus.slaves j slave } else none

def put (list : FgList) (j : ℕ) (entry : Option DevPtr) : Option FgList :=
  if j < maxFgDevices + 1 then some (Function.update list j entry) else none

section
variable (baseAdr : ℕ → BitVec 16) (i : ℕ)

def register (adr : ℕ) : BitVec 16 := baseAdr (i * 2 ^ 16 + adr)

def answers : Bool := register baseAdr i 0x10 != 0xdead

def uniqueId : BitVec 64 :=
  (register baseAdr i 0x40).setWidth 64 <<< 48 ||| (register baseAdr i 0x41).setWidth 64 <<< 32 |||
    (register baseAdr i 0x42).setWidth 64 <<< 16 ||| (register baseAdr i 0x43).setWidth 64

def fill (slave : ScuSlave) : ScuSlave :=
  { slave with
    uniqueId := uniqueId baseAdr i
    slot := BitVec.ofNat 32 i
    cidGroup := (register baseAdr i 0x5).setWidth 32
    cidSys := (register baseAdr i 0x4).setWidth 32
    version := (register baseAdr i 0x6).setWidth 32 }

def scanSlot (found : ScuBus × ℕ) : Option (ScuBus × ℕ) :=
  if answers baseAdr i then
    (found.1.put found.2 (fill baseAdr i (found.1.slaves found.2))).map fun bus => (bus, found.2 + 1)
  else some found

end

def scanEnd (found : ScuBus × ℕ) : Option (ScuBus × ℕ) :=
  (found.1.put found.2 { found.1.slaves found.2 with uniqueId := 0 }).map fun bus => (bus, found.2)

def scanScuBus (baseAdr : ℕ → BitVec 16) (id : BitVec 64) : Option (ScuBus × ℕ) :=
  (List.range' 1 maxScuSlaves).foldlM (fun found i => scanSlot baseAdr i found) (⟨id, zeros⟩, 0) >>= scanEnd

/-- What `scan_for_fgs` has. -/
structure Pass where
  bus : ScuBus
  list : FgList
  j : ℕ

def fit (i d : ℕ) (offset : BitVec 32) (slave : ScuSlave) : ScuSlave :=
  { slave with devs := Function.update slave.devs d ⟨BitVec.ofNat 32 d, 1, offset, some i⟩ }

def enter (list : FgList) (j : ℕ) (entry : DevPtr) : Option FgList :=
  if j < maxFgDevices then put list j (some entry) else some list

def Pass.add (i d : ℕ) (offset : BitVec 32) (p : Pass) : Option Pass := do
  let bus ← p.bus.put i (fit i d offset (p.bus.slaves i))
  let list ← enter p.list p.j ⟨i, d⟩
  some ⟨bus, list, p.j + 1⟩

/-- The generators of one slave: two on an ADDAC, one on a DIOB. -/
def Pass.visit (i : ℕ) (p : Pass) : Option Pass :=
  if (p.bus.slaves i).cidSys = 55 then
    if (p.bus.slaves i).cidGroup = 3 ∨ (p.bus.slaves i).cidGroup = 38 then p.add i 0 0x300 >>= Pass.add i 1 0x320
    else if (p.bus.slaves i).cidGroup = 26 then p.add i 0 0x300
    else some p
  else some p

def Pass.loop : ℕ → ℕ → Pass → Option Pass
  | 0, _, _ => none
  | left + 1, i, p => if (p.bus.slaves i).uniqueId ≠ 0 then p.visit i >>= Pass.loop left (i + 1) else some p

def scanForFgs (bus : ScuBus) (list : FgList) : Option (ScuBus × FgList) := do
  let p ← Pass.loop (maxScuSlaves + 1) 0 ⟨bus, list, 0⟩
  let list ← put p.list p.j none
  some (p.bus, list)

def discover (baseAdr : ℕ → BitVec 16) (id : BitVec 64) (list : FgList) : Option (ScuBus × FgList) := do
  let (bus, _) ← scanScuBus baseAdr id
  scanForFgs bus list

section
variable (baseAdr : ℕ → BitVec 16)

def answering : List ℕ := (List.range' 1 maxScuSlaves).filter (answers baseAdr)

def generators (slot : ℕ) : List (ℕ × BitVec 32) :=
  if register baseAdr slot 0x4 = 55 then
    if register baseAdr slot 0x5 = 3 ∨ register baseAdr slot 0x5 = 38 then [(0, 0x300), (1, 0x320)]
    else if register baseAdr slot 0x5 = 26 then [(0, 0x300)]
    else []
  else []

def entries : ℕ → List ℕ → List DevPtr
  | _, [] => []
  | i, slot :: slots => (generators baseAdr slot).map (fun g => ⟨i, g.1⟩) ++ entries (i + 1) slots

/-- The list has all generators in the order of the slots and a null entry behind them, and each one
has the record of its own slave. -/
structure Complete (bus : ScuBus) (list : FgList) : Prop where
  listed : ∀ k ≤ (entries baseAdr 0 (answering baseAdr)).length, list k = (entries baseAdr 0 (answering baseAdr))[k]?
  slots : ∀ i (inside : i < (answering baseAdr).length), (bus.slaves i).slot = BitVec.ofNat 32 (answering baseAdr)[i]
  own : ∀ i (inside : i < (answering baseAdr).length), ∀ g ∈ generators baseAdr (answering baseAdr)[i],
    (bus.slaves i).devs g.1 = ⟨BitVec.ofNat 32 g.1, 1, g.2, some i⟩

end

section
variable {baseAdr : ℕ → BitVec 16} {id : BitVec 64}

def record (baseAdr : ℕ → BitVec 16) (slot : ℕ) : ScuSlave := fill baseAdr slot (zeros 0)

variable (baseAdr id) in
theorem foldlM_scanSlot (slots seen : List ℕ) (fits : seen.length + slots.length ≤ maxScuSlaves) :
    slots.foldlM (fun found i => scanSlot baseAdr i found)
      (⟨id, overlay zeros (seen.map (record baseAdr))⟩, seen.length) =
      some (⟨id, overlay zeros ((seen ++ slots.filter (answers baseAdr)).map (record baseAdr))⟩,
        (seen ++ slots.filter (answers baseAdr)).length) := by
  induction slots generalizing seen with
  | nil =>
    rw [List.filter_nil, List.append_nil]
    rfl
  | cons slot slots ih =>
    rw [List.length_cons] at fits
    rw [List.foldlM_cons, scanSlot]
    cases there : answers baseAdr slot with
    | false =>
      rw [if_neg Bool.false_ne_true, List.filter_cons_of_neg (Bool.eq_false_iff.mp there)]
      exact ih seen (by omega)
    | true =>
      have inside : seen.length < maxScuSlaves + 1 := by omega
      have stored : Function.update (overlay zeros (seen.map (record baseAdr))) seen.length (record baseAdr slot) =
          overlay zeros ((seen ++ [slot]).map (record baseAdr)) := by
        rw [List.map_append, List.map_singleton, ← update_length, List.length_map]
      have behind : overlay zeros (seen.map (record baseAdr)) seen.length = zeros 0 :=
        overlay_behind (Nat.le_of_eq (List.length_map _))
      have rest := ih (seen ++ [slot]) (by rw [List.length_append, List.length_singleton]; omega)
      rw [List.append_assoc, List.singleton_append, List.length_append, List.length_singleton] at rest
      rw [if_pos rfl, List.filter_cons_of_pos there, ← rest, ScuBus.put, if_pos inside]
      dsimp only
      rw [behind, ← stored]
      rfl

theorem length_answering (baseAdr : ℕ → BitVec 16) : (answering baseAdr).length ≤ maxScuSlaves := by
  have fewer := List.length_filter_le (answers baseAdr) (List.range' 1 maxScuSlaves)
  rwa [List.length_range'] at fewer

theorem scanEnd_eq (id : BitVec 64) (slaves : List ScuSlave) (inside : slaves.length < maxScuSlaves + 1) :
    scanEnd (⟨id, overlay zeros slaves⟩, slaves.length) = some (⟨id, overlay zeros slaves⟩, slaves.length) := by
  have behind : overlay zeros slaves slaves.length = zeros 0 := overlay_behind (Nat.le_refl _)
  have same := Function.update_eq_self slaves.length (overlay zeros slaves)
  rw [behind] at same
  rw [scanEnd, ScuBus.put, if_pos inside]
  dsimp only
  rw [behind, Option.map_some]
  change some (ScuBus.mk id (Function.update _ slaves.length (zeros 0)), _) = _
  rw [same]

theorem scanScuBus_eq : scanScuBus baseAdr id =
    some (⟨id, overlay zeros ((answering baseAdr).map (record baseAdr))⟩, (answering baseAdr).length) := by
  have fold := foldlM_scanSlot baseAdr id (List.range' 1 maxScuSlaves) []
    (by rw [List.length_nil, List.length_range', Nat.zero_add])
  have ends := scanEnd_eq id ((answering baseAdr).map (record baseAdr))
    (by rw [List.length_map]; exact Nat.lt_succ_of_le (length_answering baseAdr))
  rw [List.length_map] at ends
  rw [scanScuBus, ← ends]
  exact congrArg (fun found => found >>= scanEnd) fold

variable {done more : List ScuSlave} {slave : ScuSlave} {list : FgList} {es : List DevPtr} {i d : ℕ}

def pass (id : BitVec 64) (slaves : List ScuSlave) (list : FgList) (es : List DevPtr) : Pass :=
  ⟨⟨id, overlay zeros slaves⟩, overlay list (es.map some), es.length⟩

theorem pass_add (offset : BitVec 32) (inside : done.length < maxScuSlaves) (room : es.length < maxFgDevices) :
    (pass id (done ++ slave :: more) list es).add done.length d offset =
      some (pass id (done ++ fit done.length d offset slave :: more) list (es ++ [⟨done.length, d⟩])) := by
  have stored : Function.update (overlay list (es.map some)) es.length (some ⟨done.length, d⟩) =
      overlay list ((es ++ [(⟨done.length, d⟩ : DevPtr)]).map some) := by
    rw [List.map_append, List.map_singleton, ← update_length, List.length_map]
  rw [pass, Pass.add, ScuBus.put, if_pos (Nat.lt_succ_of_lt inside)]
  dsimp only
  rw [overlay_append, update_append, enter, if_pos room, put, if_pos (Nat.lt_succ_of_lt room), stored,
    pass, List.length_append]
  rfl

def equip (baseAdr : ℕ → BitVec 16) (i slot : ℕ) : ScuSlave :=
  (generators baseAdr slot).foldl (fun slave g => fit i g.1 g.2 slave) (record baseAdr slot)

theorem setWidth_eq (value : BitVec 16) (number : ℕ) (small : number < 2 ^ 16) :
    value.setWidth 32 = BitVec.ofNat 32 number ↔ value = BitVec.ofNat 16 number := by
  have inside := value.isLt
  rw [← BitVec.toNat_inj, ← BitVec.toNat_inj, BitVec.toNat_setWidth, BitVec.toNat_ofNat, BitVec.toNat_ofNat]
  omega

theorem pass_visit (slot : ℕ) (inside : done.length < maxScuSlaves) (few : es.length ≤ 2 * done.length) :
    (pass id (done ++ record baseAdr slot :: more) list es).visit done.length =
      some (pass id (done ++ equip baseAdr done.length slot :: more) list
        (es ++ (generators baseAdr slot).map (fun g => ⟨done.length, g.1⟩))) := by
  have one : es.length < maxFgDevices := by
    rw [maxFgDevices]
    omega
  have two : (es ++ [(⟨done.length, 0⟩ : DevPtr)]).length < maxFgDevices := by
    rw [List.length_append, List.length_singleton, maxFgDevices]
    omega
  have sys : (record baseAdr slot).cidSys = 55 ↔ register baseAdr slot 0x4 = 55 := setWidth_eq _ 55 (by decide)
  have addac1 : (record baseAdr slot).cidGroup = 3 ↔ register baseAdr slot 0x5 = 3 := setWidth_eq _ 3 (by decide)
  have addac2 : (record baseAdr slot).cidGroup = 38 ↔ register baseAdr slot 0x5 = 38 := setWidth_eq _ 38 (by decide)
  have diob : (record baseAdr slot).cidGroup = 26 ↔ register baseAdr slot 0x5 = 26 := setWidth_eq _ 26 (by decide)
  have here : (pass id (done ++ record baseAdr slot :: more) list es).bus.slaves done.length = record baseAdr slot :=
    @overlay_append _ zeros done more _
  rw [Pass.visit, here, equip, generators]
  simp only [sys, addac1, addac2, diob]
  split_ifs
  · rw [pass_add _ inside one, Option.bind_eq_bind, Option.bind_some, pass_add _ inside two, List.append_assoc]
    rfl
  · rw [pass_add _ inside one]
    rfl
  · rw [List.map_nil, List.append_nil]
    rfl
  · rw [List.map_nil, List.append_nil]
    rfl

def named (baseAdr : ℕ → BitVec 16) (slot : ℕ) : Bool := uniqueId baseAdr slot != 0

def equipped (baseAdr : ℕ → BitVec 16) : ℕ → List ℕ → List ScuSlave
  | _, [] => []
  | i, slot :: slots =>
    if named baseAdr slot then equip baseAdr i slot :: equipped baseAdr (i + 1) slots
      else (slot :: slots).map (record baseAdr)

theorem length_generators (baseAdr : ℕ → BitVec 16) (slot : ℕ) : (generators baseAdr slot).length ≤ 2 := by
  rw [generators]
  split_ifs
  all_goals decide

theorem length_entries (baseAdr : ℕ → BitVec 16) (i : ℕ) (slots : List ℕ) :
    (entries baseAdr i slots).length ≤ 2 * slots.length := by
  induction slots generalizing i with
  | nil => exact Nat.le_refl 0
  | cons slot slots ih =>
    have most := length_generators baseAdr slot
    have rest := ih (i + 1)
    rw [entries, List.length_append, List.length_map, List.length_cons]
    omega

theorem pass_loop (done : List ScuSlave) (es : List DevPtr) (slots : List ℕ) {left : ℕ}
    (fuel : left + done.length = maxScuSlaves + 1)
    (inside : done.length + slots.length ≤ maxScuSlaves) (few : es.length ≤ 2 * done.length) :
    Pass.loop left done.length (pass id (done ++ slots.map (record baseAdr)) list es) =
      some (pass id (done ++ equipped baseAdr done.length slots) list
        (es ++ entries baseAdr done.length (slots.takeWhile (named baseAdr)))) := by
  induction slots generalizing done es left with
  | nil =>
    obtain ⟨left, rfl⟩ : ∃ n, left = n + 1 := ⟨left - 1, by rw [List.length_nil] at inside; omega⟩
    have ends : ((pass id (done ++ []) list es).bus.slaves done.length).uniqueId = 0 := by
      rw [List.append_nil]
      exact congrArg ScuSlave.uniqueId (overlay_behind (Nat.le_refl _))
    rw [List.map_nil, Pass.loop, if_neg (not_not_intro ends), equipped, List.takeWhile_nil, entries,
      List.append_nil, List.append_nil]
  | cons slot slots ih =>
    rw [List.length_cons] at inside
    obtain ⟨left, rfl⟩ : ∃ n, left = n + 1 := ⟨left - 1, by omega⟩
    have here : ((pass id (done ++ record baseAdr slot :: slots.map (record baseAdr)) list
      es).bus.slaves done.length).uniqueId =
        uniqueId baseAdr slot := congrArg ScuSlave.uniqueId overlay_append
    rw [List.map_cons, Pass.loop, here, equipped]
    cases goes : named baseAdr slot with
    | false =>
      have zero : uniqueId baseAdr slot = 0 := by
        rw [named, bne_eq_false_iff_eq] at goes
        exact goes
      rw [if_neg (not_not_intro zero), if_neg Bool.false_ne_true,
        List.takeWhile_cons_of_neg (Bool.eq_false_iff.mp goes), entries,
        List.append_nil, List.map_cons]
    | true =>
      have some : uniqueId baseAdr slot ≠ 0 := by
        rw [named, bne_iff_ne] at goes
        exact goes
      have length : (done ++ [equip baseAdr done.length slot]).length = done.length + 1 := by
        rw [List.length_append, List.length_singleton]
      have most := length_generators baseAdr slot
      have fuel' : left + (done ++ [equip baseAdr done.length slot]).length = maxScuSlaves + 1 := by omega
      have rest := ih (done ++ [equip baseAdr done.length slot])
        (es ++ (generators baseAdr slot).map (fun g => ⟨done.length, g.1⟩)) fuel'
        (by omega) (by rw [List.length_append, List.length_map]; omega)
      rw [length, List.append_assoc, List.append_assoc, List.append_assoc, List.singleton_append,
        List.singleton_append] at rest
      rw [if_pos some, if_pos rfl, pass_visit slot (by omega) few, Option.bind_eq_bind, Option.bind_some, rest,
        List.takeWhile_cons_of_pos goes, entries]

theorem discover_eq : discover baseAdr id list =
    some (⟨id, overlay zeros (equipped baseAdr 0 (answering baseAdr))⟩,
      Function.update (overlay list ((entries baseAdr 0 ((answering baseAdr).takeWhile (named baseAdr))).map some))
        (entries baseAdr 0 ((answering baseAdr).takeWhile (named baseAdr))).length none) := by
  have looped := @pass_loop baseAdr id list [] [] (answering baseAdr) (maxScuSlaves + 1) rfl
    (by rw [List.length_nil, Nat.zero_add]; exact length_answering baseAdr) (Nat.le_refl 0)
  have few := length_entries baseAdr 0 ((answering baseAdr).takeWhile (named baseAdr))
  have fewer := (List.takeWhile_prefix (named baseAdr) (l := answering baseAdr)).length_le
  have most := length_answering baseAdr
  rw [List.nil_append, List.nil_append, List.nil_append, List.length_nil] at looped
  rw [discover, scanScuBus_eq, Option.bind_eq_bind, Option.bind_some]
  change scanForFgs ⟨id, overlay zeros ((answering baseAdr).map (record baseAdr))⟩ list = _
  rw [scanForFgs]
  change (Pass.loop (maxScuSlaves + 1) 0 (pass id ((answering baseAdr).map (record baseAdr)) list [])).bind _ = _
  rw [show Pass.loop (maxScuSlaves + 1) 0 _ = _ from looped, Option.bind_some, pass]
  dsimp only
  rw [put, if_pos (by rw [maxFgDevices]; omega)]
  rfl

theorem answering_sorted (baseAdr : ℕ → BitVec 16) : (answering baseAdr).Pairwise (· < ·) :=
  List.Pairwise.filter _ List.pairwise_lt_range'

theorem equip_slot (i slot : ℕ) : (equip baseAdr i slot).slot = BitVec.ofNat 32 slot := by
  rw [equip, generators]
  split_ifs
  all_goals rfl

theorem equip_devs (i slot : ℕ) : ∀ g ∈ generators baseAdr slot,
    (equip baseAdr i slot).devs g.1 = ⟨BitVec.ofNat 32 g.1, 1, g.2, some i⟩ := by
  rw [equip, generators]
  split_ifs
  · intro g member
    rcases List.mem_cons.mp member with rfl | member
    · rfl
    · obtain rfl := List.mem_singleton.mp member
      rfl
  · intro g member
    obtain rfl := List.mem_singleton.mp member
    rfl
  · exact fun g member => absurd member List.not_mem_nil
  · exact fun g member => absurd member List.not_mem_nil

theorem length_equipped (i : ℕ) (slots : List ℕ) : (equipped baseAdr i slots).length = slots.length := by
  induction slots generalizing i with
  | nil => rfl
  | cons slot slots ih =>
    rw [equipped]
    split_ifs
    · rw [List.length_cons, List.length_cons, ih]
    · exact List.length_map _

theorem equipped_slot (baseAdr : ℕ → BitVec 16) (i : ℕ) (slots : List ℕ) :
    (equipped baseAdr i slots).map ScuSlave.slot = slots.map (BitVec.ofNat 32) := by
  induction slots generalizing i with
  | nil => rfl
  | cons slot slots ih =>
    rw [equipped]
    split_ifs
    · rw [List.map_cons, List.map_cons, ih, equip_slot]
    · rw [List.map_map]
      rfl

theorem equipped_getElem (baseAdr : ℕ → BitVec 16) (i : ℕ) {k : ℕ} {slots : List ℕ} (inside : k < slots.length)
    (all : ∀ j (before : j ≤ k), named baseAdr (slots.get ⟨j, Nat.lt_of_le_of_lt before inside⟩) = true) :
    (equipped baseAdr i slots)[k]? = some (equip baseAdr (i + k) slots[k]) := by
  induction slots generalizing i k with
  | nil => exact absurd inside (Nat.not_lt_zero k)
  | cons slot slots ih =>
    rw [equipped, if_pos (show named baseAdr slot = true from all 0 (Nat.zero_le k))]
    cases k with
    | zero => rfl
    | succ k =>
      have rest := ih (i := i + 1) (Nat.lt_of_succ_lt_succ inside) fun j before => all (j + 1) (Nat.succ_le_succ before)
      rw [Nat.add_right_comm] at rest
      exact rest

theorem entries_append (baseAdr : ℕ → BitVec 16) (i : ℕ) (slots more : List ℕ) :
    entries baseAdr i (slots ++ more) = entries baseAdr i slots ++ entries baseAdr (i + slots.length) more := by
  induction slots generalizing i with
  | nil => rfl
  | cons slot slots ih => rw [List.cons_append, entries, entries, ih, List.append_assoc,
      List.length_cons, Nat.add_right_comm, Nat.add_assoc]

theorem entries_eq_nil {i : ℕ} {slots : List ℕ} :
    entries baseAdr i slots = [] ↔ ∀ slot ∈ slots, generators baseAdr slot = [] := by
  induction slots generalizing i with
  | nil => exact ⟨fun _ slot none => absurd none List.not_mem_nil, fun _ => rfl⟩
  | cons slot slots ih => rw [entries, List.append_eq_nil_iff, List.map_eq_nil_iff, ih, List.forall_mem_cons]

variable {slots : List ℕ} {slot before : ℕ} {p : ℕ → Bool}

theorem mem_dropWhile (sorted : slots.Pairwise (· < ·)) (left : slot ∈ slots.dropWhile p) :
    ∃ before ∈ slots, before ≤ slot ∧ p before = false := by
  induction slots with
  | nil => exact absurd left List.not_mem_nil
  | cons first slots ih =>
    rw [List.pairwise_cons] at sorted
    cases passes : p first with
    | true =>
      rw [List.dropWhile_cons_of_pos passes] at left
      obtain ⟨before, member, le, fails⟩ := ih sorted.2 left
      exact ⟨before, List.mem_cons_of_mem _ member, le, fails⟩
    | false =>
      refine ⟨first, List.mem_cons_self, ?_, passes⟩
      rcases List.mem_cons.mp ((List.dropWhile_sublist p).subset left) with rfl | later
      · exact Nat.le_refl slot
      · exact Nat.le_of_lt (sorted.1 slot later)

theorem takeWhile_before (sorted : slots.Pairwise (· < ·)) (kept : slot ∈ slots.takeWhile p) (member : before ∈ slots)
    (le : before ≤ slot) : p before = true := by
  induction slots with
  | nil => exact absurd member List.not_mem_nil
  | cons first slots ih =>
    rw [List.pairwise_cons] at sorted
    cases passes : p first with
    | false =>
      rw [List.takeWhile_cons_of_neg (Bool.eq_false_iff.mp passes)] at kept
      exact absurd kept List.not_mem_nil
    | true =>
      rw [List.takeWhile_cons_of_pos passes] at kept
      rcases List.mem_cons.mp member with rfl | later
      · exact passes
      · have above := sorted.1 before later
        rcases List.mem_cons.mp kept with rfl | rest
        · exact absurd le (Nat.not_le_of_lt above)
        · exact ih sorted.2 rest later

/-- No card without a unique id is at or in front of one with generators. -/
def Named (baseAdr : ℕ → BitVec 16) : Prop :=
  ∀ slot ∈ answering baseAdr, generators baseAdr slot ≠ [] → ∀ before ∈ answering baseAdr, before ≤
    slot → uniqueId baseAdr before ≠ 0

theorem named_iff : Named baseAdr ↔ ∀ slot ∈ (answering baseAdr).dropWhile (named baseAdr),
    generators baseAdr slot = [] := by
  have sorted := answering_sorted baseAdr
  constructor
  · intro all slot left
    obtain ⟨before, member, le, fails⟩ := mem_dropWhile sorted left
    by_contra some
    have nonzero := all slot ((List.dropWhile_sublist _).subset left) some before member le
    exact Bool.false_ne_true (fails.symm.trans (bne_iff_ne.mpr nonzero))
  · intro none slot member some before earlier le
    rw [← List.takeWhile_append_dropWhile (p := named baseAdr) (l := answering baseAdr)] at member
    rcases List.mem_append.mp member with kept | left
    · exact bne_iff_ne.mp (takeWhile_before sorted kept earlier le)
    · exact absurd (none slot left) some

/-- The list is complete exactly if every card in front of a generator has a unique id. -/
theorem complete_iff (baseAdr : ℕ → BitVec 16) (id : BitVec 64) (list : FgList) :
    (∃ bus list', discover baseAdr id list = some (bus, list') ∧ Complete baseAdr bus list') ↔ Named baseAdr := by
  have split := entries_append baseAdr 0 ((answering baseAdr).takeWhile (named baseAdr))
    ((answering baseAdr).dropWhile (named baseAdr))
  rw [List.takeWhile_append_dropWhile] at split
  rw [discover_eq]
  constructor
  · rintro ⟨bus, list', result, complete⟩
    obtain ⟨rfl, rfl⟩ := Prod.mk.inj (Option.some.inj result)
    have ends := complete.listed (entries baseAdr 0 ((answering baseAdr).takeWhile (named baseAdr))).length
      (by rw [split, List.length_append]; exact Nat.le_add_right _ _)
    rw [Function.update_self, split, List.getElem?_append_right (Nat.le_refl _), Nat.sub_self] at ends
    rw [named_iff, ← entries_eq_nil]
    exact List.head?_eq_none_iff.mp (List.head?_eq_getElem?.trans ends.symm)
  · intro all
    have none := named_iff.mp all
    rw [← entries_eq_nil (i := 0 + ((answering baseAdr).takeWhile (named baseAdr)).length)] at none
    rw [none, List.append_nil] at split
    refine ⟨_, _, rfl, ?_, ?_, ?_⟩
    · intro k most
      rw [split] at most ⊢
      rcases Nat.lt_or_eq_of_le most with before | rfl
      · rw [Function.update_of_ne (Nat.ne_of_lt before), overlay, List.getElem?_map, List.getElem?_eq_getElem before]
        rfl
      · rw [Function.update_self, List.getElem?_eq_none (Nat.le_refl _)]
    · intro i inside
      have slots := congrArg (fun l => l[i]?) (equipped_slot baseAdr 0 (answering baseAdr))
      rw [List.getElem?_map, List.getElem?_map, List.getElem?_eq_getElem inside,
        List.getElem?_eq_getElem (by rw [length_equipped]; exact inside)] at slots
      change (overlay zeros (equipped baseAdr 0 (answering baseAdr)) i).slot = _
      rw [overlay_inside (by rw [length_equipped]; exact inside)]
      exact Option.some.inj slots
    · intro i inside g member
      have fitted := equipped_getElem baseAdr 0 inside fun j before => by
        have sorted := (answering_sorted baseAdr).imp Nat.le_of_lt
        have le := sorted.rel_get_of_le (a := ⟨j, Nat.lt_of_le_of_lt before inside⟩) (b := ⟨i, inside⟩) before
        exact bne_iff_ne.mpr (all _ (List.getElem_mem inside) (List.ne_nil_of_mem member) _ (List.getElem_mem _) le)
      rw [Nat.zero_add] at fitted
      change (overlay zeros (equipped baseAdr 0 (answering baseAdr)) i).devs g.1 = _
      rw [overlay, fitted]
      exact equip_devs i _ g member

end

/-- One ADDAC in the first slot, which has no unique id. -/
def anonymous (a : ℕ) : BitVec 16 :=
  if a = 1 * 2 ^ 16 + 0x4 then 55 else if a = 1 * 2 ^ 16 + 0x5 then 3 else if a < 2 * 2 ^ 16 then 0 else 0xdead

theorem anonymous_missed :
    ¬ ∃ bus list, discover anonymous 0 (fun _ => none) = some (bus, list) ∧ Complete anonymous bus list := by
  have expected : entries anonymous 0 (answering anonymous) = [⟨0, 0⟩, ⟨0, 1⟩] := by decide +kernel
  have nothing : entries anonymous 0 ((answering anonymous).takeWhile (named anonymous)) = [] := by decide +kernel
  rintro ⟨bus, list, result, complete⟩
  rw [discover_eq, nothing] at result
  obtain ⟨rfl, rfl⟩ := Prod.mk.inj (Option.some.inj result)
  have first := complete.listed 0 (Nat.zero_le _)
  rw [expected] at first
  exact Option.some_ne_none _ first.symm

end BelProject.Fg.Discovery
