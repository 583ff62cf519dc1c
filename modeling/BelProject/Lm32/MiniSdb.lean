import Mathlib.Data.List.Basic
import Mathlib.Data.BitVec
import Mathlib.Logic.Function.Basic
import Mathlib.Tactic.SplitIfs

/-! The search of the embedded CPU through the SDB tables of its buses. All levels of the recursion
share one index and one capacity; a level stops as soon as the index has reached it. -/

namespace BelProject.Lm32.MiniSdb

def sdbInterconnet : BitVec 8 := 0x00
def sdbDevice : BitVec 8 := 0x01
def sdbBridge : BitVec 8 := 0x02

/-- The views of `sdb_record_t` that are read. A device and a bridge have their component at one
offset. -/
structure SdbRecord where
  recordType : BitVec 8
  /-- of an interconnect -/
  sdbRecords : BitVec 16
  /-- of a bridge, the low word -/
  sdbChild : BitVec 32
  /-- the low word -/
  addrFirst : BitVec 32
  /-- the low word -/
  vendorId : BitVec 32
  deviceId : BitVec 32

abbrev Memory := BitVec 32 → SdbRecord

structure SdbLocation where
  sdb : BitVec 32
  adr : BitVec 32
  deriving DecidableEq

structure Query where
  qty : BitVec 32
  venId : BitVec 32
  devId : BitVec 32

structure Search where
  idx : BitVec 32
  found : ℕ → SdbLocation

/-- `sizeof(sdb_record_t)` -/
def recordSize : BitVec 32 := 64

section
variable (mem : Memory) (q : Query)

def SdbRecord.identified (r : SdbRecord) : Bool := r.vendorId == q.venId && r.deviceId == q.devId

def Search.store (s : Search) (l : SdbLocation) :
    Search := { idx := s.idx + 1, found := Function.update s.found s.idx.toNat l }

/-- The loop of `find_sdb_deep` from a record on; `deep` searches a child table. -/
def loop (deep : BitVec 32 → BitVec 32 → Search → Option Search) (base : BitVec 32) :
    ℕ → BitVec 32 → Search → Option Search
  | 0, _, s => some s
  | left + 1, record, s => do
    let r := mem record
    let s ←
      if r.recordType = sdbBridge then
        deep (base + r.sdbChild) (base + r.addrFirst) (if r.identified q then s.store ⟨record, base⟩ else s)
      else some s
    let s := if r.recordType = sdbDevice ∧ r.identified q = true then s.store ⟨record, base⟩ else s
    if s.idx ≥ q.qty then some s else loop deep base left (record + recordSize) s

/-- `find_sdb_deep`; the fuel bounds the depth of the recursion. -/
def findSdbDeep : ℕ → BitVec 32 → BitVec 32 → Search → Option Search
  | 0, _, _, _ => none
  | fuel + 1, parentSdb, base, s =>
    loop mem q (findSdbDeep fuel) base (mem parentSdb).sdbRecords.toNat parentSdb s

def getSdbAdr (loc : SdbLocation) : BitVec 32 :=
  if (mem loc.sdb).recordType = sdbDevice then loc.adr + (mem loc.sdb).addrFirst else loc.adr + (mem loc.sdb).addrFirst

def sbdBase : BitVec 32 := 0x3FFFE000

def findDeviceMulti (fuel : ℕ) (s : Search) : Option Search := findSdbDeep mem q fuel sbdBase 0 s

end

/-- `find_device_adr`: the address of the first one, or NULL. The location is on the stack. -/
def findDeviceAdr (mem : Memory) (venId devId : BitVec 32) (stack : SdbLocation) (fuel : ℕ) : Option (BitVec 32) := do
  let s ← findDeviceMulti mem ⟨1, venId, devId⟩ fuel ⟨0, fun _ => stack⟩
  some (if s.idx > 0 then getSdbAdr mem (s.found 0) else 0)

inductive Tree where
  | nil
  | leaf (r : SdbRecord) (rest : Tree)
  | bridge (r : SdbRecord) (child rest : Tree)

namespace Tree

def length : Tree → ℕ
  | nil => 0
  | leaf _ rest => rest.length + 1
  | bridge _ _ rest => rest.length + 1

def depth : Tree → ℕ
  | nil => 0
  | leaf _ rest => rest.depth
  | bridge _ child rest => max (child.depth + 1) rest.depth

/-- The first record is an interconnect that tells the number of records. -/
def Headed : Tree → Prop
  | leaf r rest => r.recordType = sdbInterconnet ∧ r.sdbRecords.toNat = rest.length + 1
  | _ => False

/-- The tree is in the memory, from the address of its first record on; the addresses on the bus
begin at base. -/
def Laid (mem : Memory) : Tree → BitVec 32 → BitVec 32 → Prop
  | nil, _, _ => True
  | leaf r rest, record, base => mem record = r ∧ r.recordType ≠ sdbBridge ∧ rest.Laid mem (record + recordSize) base
  | bridge r child rest, record, base =>
    mem record = r ∧ r.recordType = sdbBridge ∧
      (child.Headed ∧ child.Laid mem (base + r.sdbChild) (base + r.addrFirst)) ∧
      rest.Laid mem (record + recordSize) base

/-- The records that are searched for, in pre-order, each below the bridges that lead to it. -/
def hits (q : Query) : List SdbRecord → Tree → List (List SdbRecord × SdbRecord)
  | _, nil => []
  | above, leaf r rest => (if r.recordType = sdbDevice ∧ r.identified q = true then [(above, r)]
      else []) ++ rest.hits q above
  | above, bridge r child rest =>
    (if r.identified q then [(above, r)] else []) ++ child.hits q (above ++ [r]) ++ rest.hits q above

def locations (q : Query) : Tree → BitVec 32 → BitVec 32 → List SdbLocation
  | nil, _, _ => []
  | leaf r rest, record, base =>
    (if r.recordType = sdbDevice ∧ r.identified q = true then [⟨record, base⟩] else []) ++
      rest.locations q (record + recordSize) base
  | bridge r child rest, record, base =>
    (if r.identified q then [⟨record, base⟩] else []) ++ child.locations q (base + r.sdbChild) (base + r.addrFirst) ++
      rest.locations q (record + recordSize) base

end Tree

variable {mem : Memory} {q : Query} {t : Tree} {record base : BitVec 32} {s : Search}

/-- Store one result after the other while there is room. -/
def Search.fill (q : Query) (s : Search) (locs : List SdbLocation) : Search :=
  locs.foldl (fun s l => if s.idx < q.qty then s.store l else s) s

theorem Search.fill_append (s : Search) (first second : List SdbLocation) :
    s.fill q (first ++ second) = (s.fill q first).fill q second := List.foldl_append

theorem Search.fill_full (full : s.idx ≥ q.qty) (locs : List SdbLocation) : s.fill q locs = s := by
  induction locs with
  | nil => rfl
  | cons l locs ih =>
    rw [fill, List.foldl_cons, if_neg (BitVec.not_lt.mpr full)]
    exact ih

theorem Search.fill_one (room : s.idx < q.qty) (p : Prop) [Decidable p] (l : SdbLocation) :
    s.fill q (if p then [l] else []) = if p then s.store l else s := by
  split_ifs
  · exact if_pos room
  · rfl

theorem Search.store_idx (room : s.idx < q.qty) (l : SdbLocation) : (s.store l).idx.toNat = s.idx.toNat + 1 := by
  have less : s.idx.toNat < q.qty.toNat := room
  have small := q.qty.isLt
  change (s.idx + 1).toNat = _
  rw [BitVec.toNat_add]
  exact Nat.mod_eq_of_lt (by change s.idx.toNat + 1 < _; omega)

theorem Search.fill_spec (within : s.idx ≤ q.qty) (locs : List SdbLocation) :
    (s.fill q locs).idx.toNat = min q.qty.toNat (s.idx.toNat + locs.length) ∧
      (∀ k l, locs[k]? = some l → s.idx.toNat + k < q.qty.toNat → (s.fill q locs).found (s.idx.toNat + k) = l) ∧
      ∀ n, (n < s.idx.toNat ∨ (s.fill q locs).idx.toNat ≤ n) → (s.fill q locs).found n = s.found n := by
  induction locs generalizing s with
  | nil =>
    have small : s.idx.toNat ≤ q.qty.toNat := within
    refine ⟨?_, ?_, fun _ _ => rfl⟩
    · change s.idx.toNat = min q.qty.toNat (s.idx.toNat + 0)
      omega
    · intro k l at_k
      cases at_k
  | cons l locs ih =>
    by_cases room : s.idx < q.qty
    · have less : s.idx.toNat < q.qty.toNat := room
      have stored := store_idx room l
      have first : s.fill q (l :: locs) = (s.store l).fill q locs := by
        rw [fill, List.foldl_cons, if_pos room]
        rfl
      have again : (s.store l).idx ≤ q.qty := by
        rw [BitVec.le_def, stored]
        exact less
      obtain ⟨idx, entries, others⟩ := ih again
      rw [first]
      rw [stored] at idx entries others
      refine ⟨?_, ?_, ?_⟩
      · rw [idx, List.length_cons]
        congr 1
        omega
      · intro k l' at_k inside
        cases k with
        | zero =>
          cases at_k
          rw [Nat.add_zero, others s.idx.toNat (Or.inl (Nat.lt_succ_self _))]
          exact Function.update_self _ _ _
        | succ k =>
          have later : s.idx.toNat + (k + 1) = s.idx.toNat + 1 + k := by omega
          rw [later]
          exact entries k l' at_k (by omega)
      · intro n outside
        have apart : n ≠ s.idx.toNat := by
          rcases outside with below | beyond
          · omega
          · omega
        rw [others n (by omega)]
        exact Function.update_of_ne apart _ _
    · have full : s.idx ≥ q.qty := BitVec.not_lt.mp room
      have same : q.qty.toNat ≤ s.idx.toNat := full
      have most : s.idx.toNat ≤ q.qty.toNat := within
      rw [fill_full full]
      refine ⟨?_, ?_, fun _ _ => rfl⟩
      · rw [List.length_cons]
        omega
      · intro k l' _ inside
        omega

theorem loop_full {deep : BitVec 32 → BitVec 32 → Search → Option Search} {left : ℕ} (full : s.idx ≥ q.qty)
    (interconnect : (mem record).recordType = sdbInterconnet) : loop mem q deep base (left + 1) record s = some s := by
  have notBridge : (mem record).recordType ≠ sdbBridge := by
    rw [interconnect]
    decide
  have notDevice : (mem record).recordType ≠ sdbDevice := by
    rw [interconnect]
    decide
  simp only [loop, if_neg notBridge, Option.bind_eq_bind, Option.bind_some,
    if_neg (fun both : _ ∧ _ => notDevice both.1), if_pos full]

theorem loop_fill (laid : t.Laid mem record base) {fuel : ℕ} (enough : t.depth ≤ fuel) (room : s.idx < q.qty) :
    loop mem q (findSdbDeep mem q fuel) base t.length record s = some (s.fill q (t.locations q record base)) := by
  induction t generalizing record base s fuel with
  | nil => rfl
  | leaf r rest ih =>
    obtain ⟨here, other, laid⟩ := laid
    have step : loop mem q (findSdbDeep mem q fuel) base (rest.length + 1) record s =
        (let s' := if r.recordType = sdbDevice ∧ r.identified q = true then s.store ⟨record, base⟩ else s
          if s'.idx ≥ q.qty then some s' else loop mem q (findSdbDeep mem q fuel) base rest.length
            (record + recordSize) s') := by
      simp only [loop, here, if_neg other, Option.bind_eq_bind, Option.bind_some]
    rw [Tree.length, step, Tree.locations, Search.fill_append, Search.fill_one room]
    generalize (if r.recordType = sdbDevice ∧ r.identified q = true then s.store ⟨record, base⟩ else s) = s'
    by_cases full : s'.idx ≥ q.qty
    · rw [Search.fill_full full]
      exact if_pos full
    · refine (if_neg full).trans (ih laid enough ?_)
      exact BitVec.not_le.mp full
  | bridge r child rest ihChild ihRest =>
    obtain ⟨here, type, ⟨headed, laidChild⟩, laid⟩ := laid
    have notDevice : ¬(r.recordType = sdbDevice ∧ r.identified q = true) := by
      rintro ⟨device, _⟩
      rw [type] at device
      exact absurd device (by decide)
    have step : loop mem q (findSdbDeep mem q fuel) base (rest.length + 1) record s =
        (findSdbDeep mem q fuel (base + r.sdbChild) (base + r.addrFirst)
          (if r.identified q then s.store ⟨record, base⟩ else s)).bind
          fun s' => if s'.idx ≥ q.qty then some s'
            else loop mem q (findSdbDeep mem q fuel) base rest.length (record + recordSize) s' := by
      simp only [loop, here, if_pos type, if_neg notDevice, Option.bind_eq_bind]
    rw [Tree.length, step, Tree.locations, Search.fill_append, Search.fill_append, Search.fill_one room]
    generalize (if r.identified q = true then s.store ⟨record, base⟩ else s) = s'
    rw [Tree.depth] at enough
    have goes : findSdbDeep mem q fuel (base + r.sdbChild) (base + r.addrFirst) s' =
        some (s'.fill q (child.locations q (base + r.sdbChild) (base + r.addrFirst))) := by
      obtain ⟨fuel, rfl⟩ : ∃ less, fuel = less + 1 := ⟨fuel - 1, by omega⟩
      -- the interconnect record of the child is where a full array is noticed
      cases child with
      | nil => exact headed.elim
      | bridge _ _ _ => exact headed.elim
      | leaf head tail =>
        obtain ⟨interconnect, records⟩ := headed
        have first := laidChild.1
        rw [findSdbDeep, first, records]
        by_cases full : s'.idx ≥ q.qty
        · rw [Search.fill_full full]
          exact loop_full full (by rw [first]; exact interconnect)
        · exact ihChild laidChild (by omega) (BitVec.not_le.mp full)
    rw [goes, Option.bind_some]
    generalize s'.fill q (child.locations q (base + r.sdbChild) (base + r.addrFirst)) = s''
    by_cases full : s''.idx ≥ q.qty
    · rw [if_pos full, Search.fill_full full]
    · rw [if_neg full]
      exact ihRest laid (by omega) (BitVec.not_le.mp full)

theorem find_fill (headed : t.Headed) (laid : t.Laid mem record base) {fuel : ℕ}
    (enough : t.depth < fuel) (room : s.idx < q.qty) :
    findSdbDeep mem q fuel record base s = some (s.fill q (t.locations q record base)) := by
  obtain ⟨fuel, rfl⟩ : ∃ less, fuel = less + 1 := ⟨fuel - 1, by omega⟩
  cases t with
  | nil => exact headed.elim
  | bridge _ _ _ => exact headed.elim
  | leaf head tail =>
    rw [findSdbDeep, laid.1, headed.2]
    exact loop_fill laid (by omega) room

/-- The base of the bus below some bridges: their bases add up. -/
def baseBelow (base : BitVec 32) (above : List SdbRecord) : BitVec 32 :=
  above.foldl (fun base r => base + r.addrFirst) base

theorem baseBelow_concat (base : BitVec 32) (above : List SdbRecord) (r : SdbRecord) :
    baseBelow base (above ++ [r]) = baseBelow base above + r.addrFirst := by
  rw [baseBelow, List.foldl_append]
  rfl

theorem getSdbAdr_eq (mem : Memory) (loc : SdbLocation) :
    getSdbAdr mem loc = loc.adr + (mem loc.sdb).addrFirst := ite_self _

/-- A location of the record, on the bus below the bridges. -/
def Locates (mem : Memory) (base : BitVec 32) (l : SdbLocation) (hit : List SdbRecord × SdbRecord) : Prop :=
  mem l.sdb = hit.2 ∧ l.adr = baseBelow base hit.1

variable {above : List SdbRecord}

theorem locates_one (here : mem record = r) (p : Prop) [Decidable p] :
    List.Forall₂ (Locates mem base) (if p then [⟨record, baseBelow base above⟩] else [])
      (if p then [(above, r)] else []) := by
  split_ifs
  · exact List.Forall₂.cons ⟨here, rfl⟩ List.Forall₂.nil
  · exact List.Forall₂.nil

theorem locates_hits (laid : t.Laid mem record (baseBelow base above)) :
    List.Forall₂ (Locates mem base) (t.locations q record (baseBelow base above)) (t.hits q above) := by
  induction t generalizing record above with
  | nil => exact List.Forall₂.nil
  | leaf r rest ih =>
    obtain ⟨here, _, laid⟩ := laid
    exact List.rel_append (locates_one here _) (ih laid)
  | bridge r child rest ihChild ihRest =>
    obtain ⟨here, _, ⟨_, laidChild⟩, laid⟩ := laid
    rw [← baseBelow_concat] at laidChild
    rw [Tree.locations, ← baseBelow_concat]
    exact List.rel_append (List.rel_append (locates_one here _) (ihChild laidChild)) (ihRest laid)

theorem fill_preorder (laid : t.Laid mem record base) (found : ℕ → SdbLocation) :
    ((⟨0, found⟩ : Search).fill q (t.locations q record base)).idx.toNat = min q.qty.toNat (t.hits q []).length ∧
      (∀ k hit, (t.hits q [])[k]? = some hit → k < q.qty.toNat →
        mem (((⟨0, found⟩ : Search).fill q (t.locations q record base)).found k).sdb = hit.2 ∧
          getSdbAdr mem (((⟨0, found⟩ : Search).fill q (t.locations q record base)).found k) =
            baseBelow base hit.1 + hit.2.addrFirst) ∧
      ∀ n, ((⟨0, found⟩ : Search).fill q (t.locations q record base)).idx.toNat ≤ n →
        ((⟨0, found⟩ : Search).fill q (t.locations q record base)).found n = found n := by
  have top : t.Laid mem record (baseBelow base []) := laid
  have located : List.Forall₂ (Locates mem base) (t.locations q record (baseBelow base []))
    (t.hits q []) := locates_hits top
  have same : baseBelow base [] = base := rfl
  rw [same] at located
  have within : (⟨0, found⟩ : Search).idx ≤ q.qty := Nat.zero_le _
  obtain ⟨idx, entries, others⟩ := Search.fill_spec within (t.locations q record base)
  have zero : (⟨0, found⟩ : Search).idx.toNat = 0 := rfl
  simp only [zero, Nat.zero_add] at idx entries others
  refine ⟨?_, ?_, fun n behind => others n (Or.inr behind)⟩
  · rw [idx, located.length_eq]
  · intro k hit at_k inside
    obtain ⟨bound, rfl⟩ := List.getElem?_eq_some_iff.mp at_k
    have shorter : k < (t.locations q record base).length := by
      rw [located.length_eq]
      exact bound
    obtain ⟨here, adr⟩ := located.get shorter bound
    rw [List.get_eq_getElem, List.get_eq_getElem] at here adr
    rw [entries k _ (List.getElem?_eq_getElem shorter) inside, getSdbAdr_eq, adr, here]
    exact ⟨rfl, rfl⟩

/-- `find_device_adr` returns the absolute address of the first hit in pre-order. -/
theorem findDeviceAdr_first {venId devId : BitVec 32} (stack : SdbLocation) (headed : t.Headed)
    (laid : t.Laid mem sbdBase 0)
    {fuel : ℕ} (enough : t.depth < fuel) : findDeviceAdr mem venId devId stack fuel =
      some (((t.hits ⟨1, venId, devId⟩ []).head?.map fun hit => baseBelow 0 hit.1 + hit.2.addrFirst).getD 0) := by
  obtain ⟨idx, entries, _⟩ := fill_preorder (q := ⟨1, venId, devId⟩) laid fun _ => stack
  have room : (0 : BitVec 32) < 1 := by decide
  rw [findDeviceAdr, findDeviceMulti, find_fill headed laid enough room, Option.bind_eq_bind, Option.bind_some]
  generalize Search.fill _ _ _ = s at idx entries ⊢
  cases hits : t.hits ⟨1, venId, devId⟩ [] with
  | nil =>
    rw [hits, List.length_nil, Nat.min_zero] at idx
    have none : ¬ s.idx > 0 := by
      rw [gt_iff_lt, BitVec.lt_def, idx]
      exact Nat.not_lt_zero 0
    rw [if_neg none]
    rfl
  | cons hit rest =>
    rw [hits] at idx entries
    have found : s.idx > 0 := by
      rw [gt_iff_lt, BitVec.lt_def, idx, List.length_cons]
      exact lt_min Nat.one_pos (Nat.succ_pos _)
    rw [if_pos found, (entries 0 hit rfl Nat.one_pos).2]
    rfl

/-- The search ends with the first records in pre-order that fit into the array, each with its
absolute address, and writes nothing behind them. -/
theorem find_preorder (mem : Memory) (q : Query) (t : Tree) (record base : BitVec 32) (found : ℕ → SdbLocation)
    (headed : t.Headed) (laid : t.Laid mem record base) (room : 1 ≤ q.qty) :
    ∃ s, (∀ fuel, t.depth < fuel → findSdbDeep mem q fuel record base ⟨0, found⟩ = some s) ∧
      s.idx.toNat = min q.qty.toNat (t.hits q []).length ∧
      (∀ k hit, (t.hits q [])[k]? = some hit → k < q.qty.toNat →
        mem (s.found k).sdb = hit.2 ∧ getSdbAdr mem (s.found k) = baseBelow base hit.1 + hit.2.addrFirst) ∧
      ∀ n, s.idx.toNat ≤ n → s.found n = found n := by
  have open' : (0 : BitVec 32) < q.qty := by
    rw [BitVec.le_def] at room
    rw [BitVec.lt_def]
    exact room
  exact ⟨_, fun fuel enough => find_fill headed laid enough open', fill_preorder laid found⟩

def twoTables : Tree :=
  .leaf ⟨sdbInterconnet, 2, 0, 0, 0, 0⟩ (.bridge ⟨sdbBridge, 0, 0x1000, 0x80000000, 0x651, 7⟩
    (.leaf ⟨sdbInterconnet, 2, 0, 0, 0, 0⟩ (.leaf ⟨sdbDevice, 0, 0, 0x100, 0x651, 7⟩ .nil)) .nil)

def twoTablesRom : Memory := fun adr =>
  if adr = 0 ∨ adr = 0x1000 then ⟨sdbInterconnet, 2, 0, 0, 0, 0⟩
  else if adr = 0x40 then ⟨sdbBridge, 0, 0x1000, 0x80000000, 0x651, 7⟩
  else ⟨sdbDevice, 0, 0, 0x100, 0x651, 7⟩

theorem find_preorder_twoTables :
    ∃ s, (∀ fuel, 1 < fuel → findSdbDeep twoTablesRom ⟨2, 0x651, 7⟩ fuel 0 0 ⟨0, fun _ => ⟨0, 0⟩⟩ = some s) ∧
      s.idx.toNat = 2 ∧ getSdbAdr twoTablesRom (s.found 1) = 0x80000100 := by
  obtain ⟨s, ends, idx, entries, _⟩ :=
    find_preorder twoTablesRom ⟨2, 0x651, 7⟩ twoTables 0 0 (fun _ => ⟨0, 0⟩) ⟨rfl, rfl⟩
    ⟨rfl, by decide, rfl, rfl, ⟨⟨rfl, rfl⟩, rfl, by decide, rfl, by decide, trivial⟩, trivial⟩ (by decide)
  exact ⟨s, ends, idx, (entries 1 _ rfl (by decide)).2⟩

end BelProject.Lm32.MiniSdb
