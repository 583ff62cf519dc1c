import BelProject.Etherbone.RoundTrip
import BelProject.Interop.Words
import BelProject.SlaveCore.Replies

/-! The records of `eb_device_flush` in the slave core. Every operation of a cycle, and every
status word the library asks for, is one access of the core, with the value in the lanes the
library put it in. -/

namespace BelProject.Interop.Service
open BelProject.Library Etherbone Width Operations Wire Format Requests Agreement Answers Exchanges Words
open Execute (Lanes decodeSelect)
open SlaveCore Headers Fsm Requests Core History Replies

def accesses (cells : List Cell) : List (Tag × Access) :=
  cells.filterMap fun c => c.access.map fun access => (c.tag, access)

theorem accesses_append (first second : List Cell) : accesses (first ++ second) = accesses first ++ accesses second :=
  List.filterMap_append

section
variable (p : Port)

/-- The tag the core gives an item. -/
def coreTag : Item → Tag
  | .operation op =>
    if op.isWrite then (if op.cfgSpace then .cfgIgn else .wbmIgn) else if op.cfgSpace then .cfgReq else .wbmReq
  | .status => .cfgReq

def coreAccess : Item → Access
  | .operation op =>
    if op.isWrite then
      .write (BitVec.ofNat 32 op.address) (BitVec.ofNat 32 (op.unValue <<< (laneShift p (.operation op) <<< 3)))
    else .read (BitVec.ofNat 32 op.address)
  | .status => .read (BitVec.ofNat 32 (8 - p.stride))

def demand (item : Item) : Tag × Access := (coreTag item, coreAccess p item)

end

theorem hdrOf_flags (r : Record) : (hdrOf r).bcaCfg = r.has recordBca ∧ (hdrOf r).rcaCfg = r.has recordRca ∧
    (hdrOf r).rdFifo = r.has recordRff ∧ (hdrOf r).dropCyc = r.has recordCyc ∧
    (hdrOf r).wcaCfg = r.has recordWca ∧ (hdrOf r).wrFifo = r.has recordWff := by
  have bits : ∀ flags : Byte, flags.toBitVec.getLsbD 7 = (flags &&& recordBca != 0) ∧
      flags.toBitVec.getLsbD 6 = (flags &&& recordRca != 0) ∧ flags.toBitVec.getLsbD 5 = (flags &&& recordRff != 0) ∧
      flags.toBitVec.getLsbD 3 = (flags &&& recordCyc != 0) ∧ flags.toBitVec.getLsbD 2 = (flags &&& recordWca != 0) ∧
      flags.toBitVec.getLsbD 1 = (flags &&& recordWff != 0) := forall_byte (by decide)
  exact bits r.flags

section
variable {p : Port} {check : Bool} {maxops ops : Nat} {operations : List Operation} {batch : Batch}

theorem ofNat_wordMod (data : p.data = 4) (value : Nat) :
    BitVec.ofNat 32 (value % p.wordMod) = BitVec.ofNat 32 value := by
  have divides : 2 ^ 32 ∣ p.wordMod := by
    apply Nat.pow_dvd_pow
    have := p.data_le
    omega
  apply BitVec.eq_of_toNat_eq
  rw [BitVec.toNat_ofNat, BitVec.toNat_ofNat, Nat.mod_mod_of_dvd _ divides]

theorem ofNat_advance (data : p.data = 4) (fifo : Bool) (address : Nat) :
    BitVec.ofNat 32 (advance p fifo address) =
      if fifo then BitVec.ofNat 32 address else BitVec.ofNat 32 address + 4 := by
  cases fifo with
  | true => rfl
  | false =>
    show BitVec.ofNat 32 ((address + p.stride) % p.wordMod) = _
    rw [ofNat_wordMod data, Port.stride, data, BitVec.ofNat_add]
    rfl

theorem accesses_writeCells (data : p.data = 4) (hdr : RecHdr) (more : Bool) {writes : List Operation} {address : Nat}
    {format : UInt8} {shift : Nat} (chained : Writes (advance p hdr.wrFifo) hdr.wcaCfg format address writes)
    (lanes : ∀ op ∈ writes, laneShift p (.operation op) = shift) :
    accesses ((writeCells hdr more (BitVec.ofNat 32 address)
      (writes.map fun op => BitVec.ofNat 32 ((op.unValue <<< (shift <<< 3)) % p.wordMod))).map Prod.snd) =
      (writes.map Item.operation).map (demand p) := by
  induction writes generalizing address with
  | nil => rfl
  | cons op writes ih =>
    obtain ⟨isWrite, space, same, here, later⟩ := chained
    have next := ofNat_advance data hdr.wrFifo address
    have chained' : Writes (advance p hdr.wrFifo) hdr.wcaCfg format (advance p hdr.wrFifo address) writes :=
      ⟨fun other member => isWrite other (List.mem_cons_of_mem _ member),
        fun other member => space other (List.mem_cons_of_mem _ member),
        fun other member => same other (List.mem_cons_of_mem _ member), later⟩
    have rest := ih chained' (fun other member => lanes other (List.mem_cons_of_mem _ member))
    rw [next] at rest
    have first : demand p (.operation op) = (if hdr.wcaCfg then .cfgIgn else .wbmIgn,
        .write (BitVec.ofNat 32 address) (BitVec.ofNat 32 ((op.unValue <<< (shift <<< 3)) % p.wordMod))) := by
      simp only [demand, coreTag, coreAccess, isWrite op List.mem_cons_self, space op List.mem_cons_self, if_true, here,
        lanes op List.mem_cons_self, ofNat_wordMod data]
    rw [List.map_cons, List.map_cons, List.map_cons, first, ← rest]
    rfl

theorem accesses_readCells (hdr : RecHdr) (reads : List Operation)
    (plain : ∀ op ∈ reads, op.isWrite = false ∧ op.cfgSpace = hdr.rcaCfg) :
    accesses ((readCells hdr (reads.map fun op => BitVec.ofNat 32 op.address)).map Prod.snd) =
      (reads.map Item.operation).map (demand p) := by
  induction reads with
  | nil => rfl
  | cons op reads ih =>
    obtain ⟨isRead, space⟩ := plain op List.mem_cons_self
    have first : demand p (.operation op) = (if hdr.rcaCfg then .cfgReq else .wbmReq,
      .read (BitVec.ofNat 32 op.address)) := by
      simp only [demand, coreTag, coreAccess, isRead, space, Bool.false_eq_true, if_false]
    rw [List.map_cons, List.map_cons, List.map_cons, first, ← ih fun other member =>
      plain other (List.mem_cons_of_mem _ member)]
    rfl

def coreRequest (r : Record) : Request :=
  if counts : r.writes.length ≤ 255 ∧ r.reads.length ≤ 255 then requestOf r counts.1 counts.2 else padding

theorem coreRequest_eq {r : Record} (fits : r.Fits p) :
    coreRequest r = requestOf r fits.writes_length fits.reads_length :=
  dif_pos ⟨fits.writes_length, fits.reads_length⟩

theorem accesses_request (data : p.data = 4) (rba : Nat) (small : rba < 2 ^ 16)
    (accepted : ∀ op ∈ operations, Accepted p op)
    (spec : batch.Spec p check maxops ops operations) :
    accesses ((coreRequest (batch.toRecord p rba)).cells.map Prod.snd) = (items batch).map (demand p) := by
  have fits := Agreement.toRecord_fits rba small accepted spec
  obtain ⟨wca, wff, rca, _⟩ := Agreement.toRecord_flags p rba batch
  obtain ⟨_, rcaCfg, _, _, wcaCfg, wrFifo⟩ := hdrOf_flags (batch.toRecord p rba)
  rw [rca] at rcaCfg
  rw [wca] at wcaCfg
  rw [wff] at wrFifo
  have lanes := batch_lanes spec
  have written := spec.writes
  rw [← wcaCfg, ← wrFifo] at written
  have write : accesses ((writePart (hdrOf (batch.toRecord p rba)) (BitVec.ofNat 32 (batch.toRecord p rba).bwa)
      ((batch.toRecord p rba).writes.map (BitVec.ofNat 32))
      (!((batch.toRecord p rba).reads.map (BitVec.ofNat 32)).isEmpty)).map
      Prod.snd) = (batch.writes.map Item.operation).map (demand p) := by
    have cells := accesses_writeCells data (hdrOf (batch.toRecord p rba))
      (!((batch.toRecord p rba).reads.map (BitVec.ofNat 32)).isEmpty) written
      (fun op member => lanes op (List.mem_append_left _ member))
    have words : (batch.toRecord p rba).writes.map (BitVec.ofNat 32) = batch.writes.map fun op =>
        BitVec.ofNat 32 ((op.unValue <<< (opShift p batch.format batch.lowAddr <<< 3)) % p.wordMod) := by
      simp only [Batch.toRecord, List.map_map]
      rfl
    rw [writePart, words]
    split
    next none =>
      rw [List.isEmpty_iff.mp (by simpa using none : batch.writes.isEmpty = true)]
      rfl
    · exact cells
  have read : accesses ((readPart (hdrOf (batch.toRecord p rba)) (BitVec.ofNat 32 (batch.toRecord p rba).bra)
      ((batch.toRecord p rba).reads.map (BitVec.ofNat 32))).map Prod.snd) =
      (askedItems batch).map (demand p) := by
    unfold askedItems
    cases inserted : batch.inserted with
    | true =>
      obtain ⟨none, _, _, config, _⟩ := spec.inserted inserted
      have words : (batch.toRecord p rba).reads = [8 - p.stride] := by
        simp only [Batch.toRecord, inserted, if_true]
      have status : demand p .status = (if (hdrOf (batch.toRecord p rba)).rcaCfg then .cfgReq else .wbmReq,
          .read (BitVec.ofNat 32 (8 - p.stride))) := by rw [rcaCfg, config]; rfl
      rw [words, none, List.map_nil, List.nil_append, if_pos rfl, List.map_singleton, List.map_singleton, status]
      rfl
    | false =>
      have words : (batch.toRecord p rba).reads.map (BitVec.ofNat 32) =
          batch.reads.map fun op => BitVec.ofNat 32 op.address := by
        simp only [Batch.toRecord, inserted, Bool.false_eq_true, if_false, List.map_map]
        rfl
      have cells := accesses_readCells (p := p) (hdrOf (batch.toRecord p rba)) batch.reads fun op member =>
        ⟨spec.reads.isRead op member, (spec.reads.space op member).trans rcaCfg.symm⟩
      rw [words, if_neg (by decide), List.append_nil, ← cells, readPart]
      split
      next none =>
        rw [List.isEmpty_iff.mp (by simpa using none : batch.reads.isEmpty = true)]
        rfl
      · rfl
  rw [coreRequest_eq fits, items_split, List.map_append, ← read, ← write, ← accesses_append, ← List.map_append]
  rfl

end

/-- A cell of a packet has an access exactly when its tag is for one of the two address spaces. -/
def Marked (cells : List Cell) : Prop := ∀ c ∈ cells, c.access.isSome = (isCfg c.tag || isWbm c.tag)

theorem Marked.cons {c : Cell} {cells : List Cell} (here : c.access.isSome = (isCfg c.tag || isWbm c.tag))
    (later : Marked cells) : Marked (c :: cells) := List.forall_mem_cons.mpr ⟨here, later⟩

theorem marked_append {first second : List Cell} : Marked (first ++ second) ↔ Marked first ∧ Marked second :=
  List.forall_mem_append

theorem marked_writeCells (hdr : RecHdr) (more : Bool) (adr : Word) (dats : List Word) :
    Marked ((writeCells hdr more adr dats).map Prod.snd) := by
  induction dats generalizing adr with
  | nil => simp [Marked, writeCells]
  | cons dat dats ih =>
    apply Marked.cons _ (ih _)
    cases wca : hdr.wcaCfg <;> simp [isCfg, isWbm]

theorem marked_readCells (hdr : RecHdr) (adrs : List Word) : Marked ((readCells hdr adrs).map Prod.snd) := by
  induction adrs with
  | nil => simp [Marked, readCells]
  | cons adr adrs ih =>
    apply Marked.cons _ ih
    cases rca : hdr.rcaCfg <;> simp [isCfg, isWbm]

theorem marked_request (r : Request) : Marked (r.cells.map Prod.snd) := by
  rw [Request.cells, List.map_cons, List.map_append, writePart, readPart]
  apply Marked.cons rfl
  rw [marked_append]
  constructor
  · split
    · simp [Marked]
    · exact Marked.cons rfl (marked_writeCells _ _ _ _)
  · split
    · simp [Marked]
    · exact Marked.cons rfl (marked_readCells _ _)

def accessed (entries : List (Token × Word)) : List (Token × Word) :=
  entries.filter fun entry => entry.1.cell.access.isSome

theorem accessed_append (first second : List (Token × Word)) :
    accessed (first ++ second) = accessed first ++ accessed second := List.filter_append _ _

section
variable (p : Port) {check : Bool} {maxops ops : Nat} {operations : List Operation} {batch : Batch}

/-- The access of an item as the library sees it: the value is in the lanes of the word that
left, and an access of the bus has failed if it was not acknowledged. -/
def accessOf (item : Item) (entry : Token × Word) : Execute.Access :=
  { request := carriedRequest p item
    value := if isRead entry.1.cell.tag then (entry.2.toNat >>> (laneShift p item <<< 3)) % 2 ^
      (8 * itemSize p item) else 0
    failed := isWbm entry.1.cell.tag && !((entry.1.result.map Prod.snd).getD false) }

/-- A word of the core belongs to an item, and the access is what came of it. -/
structure Serves (exchange : Item × Execute.Access) (entry : Token × Word) : Prop where
  tag : entry.1.cell.tag = coreTag exchange.1
  access : entry.1.cell.access = some (coreAccess p exchange.1)
  outcome : exchange.2 = accessOf p exchange.1 entry

def served (items : List Item) (entries : List (Token × Word)) : List (Item × Execute.Access) :=
  List.zipWith (fun item entry => (item, accessOf p item entry)) items (accessed entries)

variable {p}

theorem accessed_cons (entry : Token × Word) (entries : List (Token × Word)) :
    accessed (entry :: entries) = if entry.1.cell.access.isSome then entry :: accessed entries else accessed entries :=
  List.filter_cons

theorem accesses_cons (entry : Token × Word) (entries : List (Token × Word)) :
    accesses (entryCells (entry :: entries)) =
      (entry.1.cell.access.map fun access => (entry.1.cell.tag, access)).toList ++ accesses (entryCells entries) := by
  cases one : entry.1.cell.access <;> simp [accesses, entryCells, one]

theorem served_serves {items : List Item} {entries : List (Token × Word)}
    (asked : accesses (entryCells entries) = items.map (demand p)) :
    (served p items entries).map Prod.fst = items ∧
      List.Forall₂ (Serves p) (served p items entries) (accessed entries) := by
  induction entries generalizing items with
  | nil =>
    obtain rfl := List.map_eq_nil_iff.mp asked.symm
    exact ⟨rfl, .nil⟩
  | cons entry entries ih =>
    rw [accesses_cons] at asked
    rw [served, accessed_cons]
    cases one : entry.1.cell.access with
    | none =>
      rw [one] at asked
      exact ih asked
    | some access =>
      rw [one] at asked
      obtain ⟨item, items, rfl, first, rest⟩ := List.map_eq_cons_iff.mp asked.symm
      rw [demand, Prod.mk.injEq] at first
      obtain ⟨same, serves⟩ := ih rest.symm
      exact ⟨congrArg (item :: ·) same, .cons ⟨first.1.symm, one.trans (congrArg some first.2.symm), rfl⟩ serves⟩

theorem served_replies {rba : Nat} (back : Word → ConfigWrite) {items : List Item} {entries : List (Token × Word)}
    (asked : accesses (entryCells entries) = items.map (demand p)) (marked : Marked (entryCells entries))
    (each : ∀ item ∈ items, ∀ entry : Token × Word, entry.1.cell.tag = coreTag item →
      reply p rba (item, accessOf p item entry) = if isRead entry.1.cell.tag then some (back entry.2) else none) :
    (served p items entries).filterMap (reply p rba) = (readWords entries).map back := by
  induction entries generalizing items with
  | nil =>
    obtain rfl := List.map_eq_nil_iff.mp asked.symm
    rfl
  | cons entry entries ih =>
    obtain ⟨here, later⟩ := List.forall_mem_cons.mp marked
    rw [accesses_cons] at asked
    rw [served, accessed_cons, readWords_cons]
    cases one : entry.1.cell.access with
    | none =>
      rw [one] at asked here
      have passed : isRead entry.1.cell.tag = false := by
        revert here
        cases entry.1.cell.tag <;> decide
      rw [passed, if_neg (by decide), if_neg (by decide)]
      exact ih asked later each
    | some access =>
      rw [one] at asked
      obtain ⟨item, items, rfl, first, rest⟩ := List.map_eq_cons_iff.mp asked.symm
      rw [demand, Prod.mk.injEq] at first
      have back' := each item List.mem_cons_self entry first.1.symm
      have others := ih rest.symm later fun other member => each other (List.mem_cons_of_mem _ member)
      rw [if_pos (Option.isSome_some), List.zipWith_cons_cons, List.filterMap_cons, back']
      cases isRead entry.1.cell.tag with
      | false => exact others
      | true => exact congrArg (back entry.2 :: ·) others

theorem reply_accessOf {rba : Nat} (accepted : ∀ op ∈ operations, Accepted p op)
    (spec : batch.Spec p check maxops ops operations) {item : Item} (member : item ∈ items batch) (entry : Token × Word)
    (tag : entry.1.cell.tag = coreTag item) : reply p rba (item, accessOf p item entry) =
      if isRead entry.1.cell.tag then some (wordBack p rba batch entry.2.toNat) else none := by
  rw [items_split] at member
  rw [accessOf, tag]
  rcases List.mem_append.mp member with write | asks
  · obtain ⟨op, inside, rfl⟩ := List.mem_map.mp write
    have isWrite := spec.writes.isWrite op inside
    have kept : isRead (coreTag (.operation op)) = false := by
      rw [coreTag, if_pos isWrite]
      cases op.cfgSpace <;> rfl
    rw [kept, if_neg (by decide)]
    exact if_pos isWrite
  · obtain ⟨back, shift, _, width⟩ := reply_asked rba accepted spec asks
    have result : isRead (coreTag item) = true := by
      rcases List.mem_append.mp asks with read | status
      · obtain ⟨op, inside, rfl⟩ := List.mem_map.mp read
        rw [coreTag, spec.reads.isRead op inside]
        cases op.cfgSpace <;> rfl
      · split at status
        · rw [List.mem_singleton.mp status]
          rfl
        · cases status
    rw [back, result, if_pos rfl, wordBack, backOf, backOf, shift, width]
    simp only [if_true, Nat.mod_mod]

end

end BelProject.Interop.Service
