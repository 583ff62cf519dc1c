import BelProject.Etherbone.ReplyRun

/-! What the other end answers. Every item of a formatted cycle becomes one access, and the
records sent back, executed where the cycle came from, are the config writes of these
accesses in order. -/

namespace BelProject.Etherbone.Exchanges
open BelProject.Library Width Operations Wire Format Requests Execute Segmentation Deliver Agreement Transfer Answers
  ReplyRun

section
variable {σ τ : Type} (p : Port) {check : Bool} {maxops ops : Nat} {operations : List Operation} {batch : Batch}
  {batches : List Batch}

def fails (bus : Bus σ) (s : Session σ) : Request → Bool
  | .busWrite width addrB addrL value => (bus.write s.bus width addrB addrL value).1
  | .busRead width addrB addrL => (bus.read s.bus width addrB addrL).2.1
  | _ => false

/-- The accesses made for some items, one after the other. -/
def exchanges (bus : Bus σ) : Session σ → List Item → List (Item × Access)
  | _, [] => []
  | s, item :: items =>
    (item, ⟨carriedRequest p item, (perform bus s (carriedRequest p item)).2, fails bus s (carriedRequest p item)⟩) ::
      exchanges bus (perform bus s (carriedRequest p item)).1 items

variable (bus : Bus σ) (s : Session σ)

@[simp] theorem exchanges_items (items : List Item) :
    (exchanges p bus s items).map Prod.fst = items := by
  induction items generalizing s with
  | nil => rfl
  | cons item items ih => rw [exchanges, List.map_cons, ih]

theorem exchanges_requests (items : List Item) :
    ∀ exchange ∈ exchanges p bus s items, exchange.2.request = carriedRequest p exchange.1 := by
  induction items generalizing s with
  | nil => simp [exchanges]
  | cons item items ih => exact List.forall_mem_cons.mpr ⟨rfl, ih _⟩

theorem possible_carried (item : Item) : possible (carriedRequest p item) = true := by
  cases item with
  | operation op => exact possible_operation _
  | status => rfl

theorem perform_fails (request : Request) (good : possible request = true) :
    (perform bus s request).1.trace = s.trace ++ [⟨request, (perform bus s request).2, fails bus s request⟩] ∧
      (perform bus s request).1.error =
        register s.error ⟨request, (perform bus s request).2, fails bus s request⟩ := by
  cases request with
  | busWrite width addrB addrL value => exact ⟨rfl, rfl⟩
  | busRead width addrB addrL => exact ⟨rfl, rfl⟩
  | cfgWrite width addr value => exact ⟨rfl, rfl⟩
  | cfgRead width addr => exact ⟨rfl, rfl⟩
  | badBus => cases good
  | badCfg => cases good

theorem exchanges_trace (items : List Item) :
    (runRequests bus s (items.map (carriedRequest p))).1.trace = s.trace ++ (exchanges p bus s items).map Prod.snd := by
  induction items generalizing s with
  | nil => exact (List.append_nil _).symm
  | cons item items ih =>
    obtain ⟨trace, _⟩ := perform_fails bus s _ (possible_carried p item)
    have rest := ih (perform bus s (carriedRequest p item)).1
    rw [trace, List.append_assoc] at rest
    exact rest

theorem exchanges_values (items : List Item) :
    (exchanges p bus s items).map (fun exchange => exchange.2.value) =
      (runRequests bus s (items.map (carriedRequest p))).2 := by
  induction items generalizing s with
  | nil => rfl
  | cons item items ih => exact congrArg ((perform bus s (carriedRequest p item)).2 :: ·) (ih _)

theorem exchanges_append (first second : List Item) :
    exchanges p bus s (first ++ second) = exchanges p bus s first ++
      exchanges p bus (runRequests bus s (first.map (carriedRequest p))).1 second := by
  induction first generalizing s with
  | nil => rfl
  | cons item first ih =>
    rw [List.cons_append, exchanges, exchanges, ih, List.cons_append]
    rfl

theorem exchanges_lineless (items : List Item) : exchanges p bus (lineless s) items = exchanges p bus s items := by
  induction items generalizing s with
  | nil => rfl
  | cons item items ih =>
    have open' := perform_open bus s false (carriedRequest p item)
    have same : fails bus (lineless s) (carriedRequest p item) = fails bus s (carriedRequest p item) := by
      cases carriedRequest p item <;> rfl
    have step : perform bus (lineless s) (carriedRequest p item) =
      (lineless (perform bus s (carriedRequest p item)).1, (perform bus s (carriedRequest p item)).2) := open'
    rw [exchanges, exchanges, same, step, ih]

theorem status_value (error : Nat) :
    ebSocketReadConfig (UInt8.ofNat (p.addr * 16 + p.data)) (8 - p.data) error = error % 2 ^ (8 * p.data) := by
  have eight := p.data_le_eight
  have positive := p.data_pos
  have size : (UInt8.ofNat (p.addr * 16 + p.data) &&& 0xf).toNat = p.data := (sizes_widths p).1
  have inside : ¬8 - p.data ≥ 8 := by omega
  have window : min p.data (16 - (8 - p.data)) = p.data := by omega
  rw [ebSocketReadConfig_eq, if_neg inside, size, window,
    show 8 * (16 - (8 - p.data) - p.data) = 64 by omega, Nat.shiftLeft_shiftRight]

theorem exchanges_truthful (items : List Item) : Truthful p s.error (exchanges p bus s items) := by
  induction items generalizing s with
  | nil => trivial
  | cons item items ih =>
    obtain ⟨_, error⟩ := perform_fails bus s _ (possible_carried p item)
    refine ⟨rfl, ?_, ?_⟩
    · rintro rfl
      show ebSocketReadConfig (UInt8.ofNat (p.addr * 16 + p.data)) (8 - p.data) s.error % 2 ^ (8 * p.data) = _
      rw [status_value, Nat.mod_mod]
    · rw [← error]
      exact ih _

theorem Asks.prepend (front : List Operation) {items : List Item} (room : ops + busCount front ≤ maxops)
    (asks : Asks check maxops (ops + busCount front) operations items) :
    Asks check maxops ops (front ++ operations) (front.map .operation ++ items) := by
  induction front generalizing ops with
  | nil => exact asks
  | cons op front ih =>
    rw [busCount_cons] at room asks
    exact .operation (by omega) (ih room asks)

theorem items_asks {later : List Item} (spec : batch.Spec p check maxops ops operations)
    (positive : 0 < maxops) (room : ops ≤ maxops)
    (unchecked : check = false → ops + busCount operations < maxops)
    (rest : Asks check maxops (if batch.inserted then 0 else batch.ops) batch.rest later) :
    Asks check maxops ops operations (items batch ++ later) := by
  have counted := spec.ops_eq
  have below := spec.ops_le room
  have split : operations = (batch.writes ++ batch.reads) ++ batch.rest := by
    rw [List.append_assoc]
    exact spec.split
  have within := unchecked
  rw [split, busCount_append] at within
  rw [items, split, List.append_assoc (List.map _ _)]
  apply Asks.prepend (batch.writes ++ batch.reads) (by omega)
  rw [← counted]
  cases inserted : batch.inserted with
  | false => simpa [inserted] using rest
  | true =>
    rw [inserted, if_pos rfl] at rest
    obtain ⟨_, _, _, _, due⟩ := spec.inserted inserted
    have checked : check = true := by
      rcases due with full | ⟨_, checked, _⟩
      · by_contra plain
        have := within (Bool.eq_false_of_not_eq_true plain)
        omega
      · exact checked
    rw [if_pos rfl, List.singleton_append]
    refine .status checked ?_ ?_ rest
    · rcases due with full | ⟨_, _, some⟩ <;> omega
    · rcases due with full | ⟨ended, _, _⟩
      · exact Or.inl (by omega)
      · exact Or.inr ended

theorem formats_asks (formats : Formats p check maxops ops operations batches)
    (accepted : ∀ op ∈ operations, Accepted p op) (positive : 0 < maxops) :
    ops ≤ maxops → (check = false → ops + busCount operations < maxops) →
      Asks check maxops ops operations (batches.flatMap items) := by
  apply Formats.rule (P := fun ops operations batches =>
    ops ≤ maxops → (check = false → ops + busCount operations < maxops) →
      Asks check maxops ops operations (batches.flatMap items)) _ _ formats accepted
  · intro ops operations _ spec ended room unchecked
    obtain ⟨none, settled⟩ := spec.cycleEnd_iff.mp ended
    rw [List.flatMap_cons]
    apply items_asks p spec positive room unchecked
    rw [none]
    apply Asks.finished
    intro checked
    split
    · rfl
    next plain =>
      rcases settled with unchecked | zero | inserted
      · rw [checked] at unchecked
        cases unchecked
      · exact zero
      · exact absurd inserted plain
  · intro ops operations batches _ spec _ rest room unchecked
    rw [List.flatMap_cons]
    apply items_asks p spec positive room unchecked
    have below := spec.ops_le room
    apply rest
    · split <;> omega
    · intro plain
      have within := unchecked plain
      have counted := spec.ops_eq
      rw [spec.split, ← List.append_assoc, busCount_append] at within
      split <;> omega

theorem readRequest_mod (lanes : Lanes) (rconfig : Bool) (word : Nat) :
    readRequest p lanes rconfig (word % 2 ^ (8 * p.addr)) = readRequest p lanes rconfig word := by
  have same : word % 2 ^ (8 * p.addr) &&& p.addressFilterBits = word &&& p.addressFilterBits := by
    rw [p.and_addressFilterBits, p.and_addressFilterBits, Nat.mod_mod, Nat.mod_mod_of_dvd _ p.data_dvd_addr_space]
  simp only [readRequest, same]

theorem execReads_mod (lanes : Lanes) (rconfig : Bool) (words : List Nat) (s : Session σ) :
    execReads p bus lanes rconfig (words.map (· % 2 ^ (8 * p.addr))) s = execReads p bus lanes rconfig words s := by
  induction words generalizing s with
  | nil => rfl
  | cons word words ih => simp only [List.map_cons, execReads, readRequest_mod, ih]

/-- A batch with its reads as the other end receives them. -/
def carriedBatch (batch : Batch) : Batch := { batch with reads := batch.reads.map (carried p) }

variable {p}

theorem carried_of_read {op : Operation} (isRead : op.isWrite = false) :
    carried p op = { op with address := op.address % 2 ^ (8 * p.addr) } :=
  if_neg (by rw [isRead]; decide)

theorem carried_of_write {op : Operation} (isWrite : op.isWrite = true) : carried p op = op := if_pos isWrite

theorem carried_accepted {op : Operation} (accepted : Accepted p op) (isRead : op.isWrite = false) :
    Accepted p (carried p op) ∧ (carried p op).address % p.data = op.address % p.data ∧
      (carried p op).address < 2 ^ (8 * p.addr) := by
  rw [carried_of_read isRead]
  have small := Nat.mod_lt op.address (Nat.two_pow_pos (8 * p.addr))
  have lower := Nat.mod_le op.address (2 ^ (8 * p.addr))
  refine ⟨⟨accepted.size_isSize, accepted.size_le, accepted.format_eq, accepted.endian_full, accepted.endian_sub, ?_,
    fun _ => small, fun config => lt_of_le_of_lt lower (accepted.cfg_lt config), accepted.value_lt⟩, ?_, small⟩
  · have divides : op.size ∣ 2 ^ (8 * p.addr) := by
      obtain ⟨k, below, size⟩ := accepted.size_isSize.exists_pow
      rw [size]
      apply Nat.pow_dvd_pow
      rcases p.addr_size with h | h | h | h <;> omega
    exact (Nat.dvd_mod_iff divides).mpr accepted.aligned
  · exact Nat.mod_mod_of_dvd _ p.data_dvd_addr_space

theorem asked_carried (batch : Batch) : asked p (carriedBatch p batch) =
    if batch.inserted then [statusOp p] else batch.reads.map (carried p) := rfl

theorem carriedBatch_lined (accepted : ∀ op ∈ operations, Accepted p op)
    (spec : batch.Spec p check maxops ops operations) :
    Lined p (carriedBatch p batch) ∧ ∀ op ∈ asked p (carriedBatch p batch), op.address < 2 ^ (8 * p.addr) := by
  have lined := lined_of_spec accepted spec
  have plain := lined.reads
  rw [asked] at plain
  have fine : ∀ op ∈ asked p (carriedBatch p batch), (Accepted p op ∧ op.isWrite = false ∧
      op.cfgSpace = batch.rcfg ∧ Decoded p op (decodeSelect p (byteEnable p batch.format batch.lowAddr))
        (opShift p batch.format batch.lowAddr)) ∧ op.address < 2 ^ (8 * p.addr) := by
    intro op member
    rw [asked_carried] at member
    split at member
    next inserted =>
      rw [if_pos inserted] at plain
      refine ⟨plain op member, ?_⟩
      rw [List.mem_singleton.mp member]
      show 8 - p.data < 2 ^ (8 * p.addr)
      calc 8 - p.data < 2 ^ 8 := by omega
        _ ≤ 2 ^ (8 * p.addr) := Nat.pow_le_pow_right (by decide) (by rcases p.addr_size with h | h | h | h <;> omega)
    next kept =>
      rw [if_neg kept] at plain
      obtain ⟨read, inside, rfl⟩ := List.mem_map.mp member
      obtain ⟨ok, isRead, space, _⟩ := plain read inside
      obtain ⟨ok', lane, small⟩ := carried_accepted ok isRead
      obtain ⟨space', isWrite', format'⟩ := carried_fields p read
      have decoded := decoded_of_accepted ok'
      rw [format', lane, spec.reads.format_eq read inside, ← p.and_data_sub_one, spec.reads.lane read inside] at decoded
      exact ⟨⟨ok', isWrite'.trans isRead, space'.trans space, decoded⟩, small⟩
  exact ⟨⟨lined.writes, fun op member => (fine op member).1⟩, fun op member => (fine op member).2⟩

theorem carriedBatch_toRecord (rba : Nat) (spec : batch.Spec p check maxops ops operations) :
    (carriedBatch p batch).toRecord p rba =
      { batch.toRecord p rba with reads := (batch.toRecord p rba).reads.map (· % 2 ^ (8 * p.addr)) } := by
  have reads : (if batch.inserted then [8 - p.stride] else (batch.reads.map (carried p)).map Operation.address) =
      (if batch.inserted then [8 - p.stride] else batch.reads.map Operation.address).map (· % 2 ^ (8 * p.addr)) := by
    split
    · have small : 8 - p.stride < 2 ^ (8 * p.addr) := by
        calc 8 - p.stride < 2 ^ 8 := by omega
          _ ≤ 2 ^ (8 * p.addr) := Nat.pow_le_pow_right (by decide) (by rcases p.addr_size with h | h | h | h <;> omega)
      rw [List.map_singleton, Nat.mod_eq_of_lt small]
    · rw [List.map_map, List.map_map]
      apply List.map_congr_left
      intro op member
      show (carried p op).address = op.address % 2 ^ (8 * p.addr)
      rw [carried_of_read (spec.reads.isRead op member)]
  exact congrArg (fun reads => ({ batch.toRecord p rba with reads := reads } : Record)) reads

theorem execRecord_mod (r : Record) :
    execRecord p bus s { r with reads := r.reads.map (· % 2 ^ (8 * p.addr)) } = execRecord p bus s r := by
  have reads : ∀ s, execReadPart p bus s { r with reads := r.reads.map (· % 2 ^ (8 * p.addr)) } =
      execReadPart p bus s r := by
    intro s
    unfold execReadPart
    rw [List.isEmpty_map, execReads_mod]
    rfl
  have writes : execWritePart p bus s { r with reads := r.reads.map (· % 2 ^ (8 * p.addr)) } =
      execWritePart p bus s r := rfl
  simp only [execRecord, writes, reads]
  rfl

/-- The items of a batch that come back with a word. -/
def askedItems (batch : Batch) : List Item := batch.reads.map .operation ++ if batch.inserted then [.status] else []

theorem items_split (batch : Batch) : items batch = batch.writes.map .operation ++ askedItems batch := by
  rw [items, askedItems, List.map_append, List.append_assoc]

theorem carried_requests (operations : List Operation) :
    (operations.map Item.operation).map (carriedRequest p) = (operations.map (carried p)).map (operationRequest p) := by
  rw [List.map_map, List.map_map]
  rfl

section
variable (spec : batch.Spec p check maxops ops operations)
include spec

theorem writes_carried :
    (batch.writes.map Item.operation).map (carriedRequest p) = batch.writes.map (operationRequest p) := by
  rw [carried_requests, List.map_congr_left fun op member =>
    carried_of_write (spec.writes.isWrite op member), List.map_id']

theorem askedItems_carried :
    (askedItems batch).map (carriedRequest p) = (asked p (carriedBatch p batch)).map (operationRequest p) := by
  rw [askedItems, List.map_append, carried_requests, asked_carried]
  cases inserted : batch.inserted with
  | true =>
    have status : carriedRequest p .status = operationRequest p (statusOp p) := (statusOp_request p).symm
    rw [(spec.inserted inserted).1, if_pos rfl, if_pos rfl, List.map_singleton, List.map_singleton, status]
    rfl
  | false => simp

theorem items_carried : (items batch).map (carriedRequest p) =
    (batch.writes ++ asked p (carriedBatch p batch)).map (operationRequest p) := by
  rw [items_split, List.map_append, writes_carried spec, askedItems_carried spec, List.map_append]

end

theorem execRecord_items (rba : Nat) (accepted : ∀ op ∈ operations, Accepted p op)
    (spec : batch.Spec p check maxops ops operations) :
    lineless (execRecord p bus s (batch.toRecord p rba)).1 =
        (runRequests bus (lineless s) ((items batch).map (carriedRequest p))).1 ∧
      (execRecord p bus s (batch.toRecord p rba)).2 = (if (asked p (carriedBatch p batch)).isEmpty then [] else
          [replyRecord (batch.toRecord p rba) ((readValues p bus s (carriedBatch p batch)).map
            (replyWord p (decodeSelect p (byteEnable p batch.format batch.lowAddr))))]) ++
          if stillOpen s.cycleOpen (batch.toRecord p rba) && batch.cycleEnd then [cycleEndRecord] else [] := by
  obtain ⟨lined, reach⟩ := carriedBatch_lined accepted spec
  have executed := execRecord_batch bus s rba lined spec.writes.chained reach
  have same := execRecord_mod (p := p) bus s (batch.toRecord p rba)
  have reads : stillOpen s.cycleOpen ({ batch.toRecord p rba with
      reads := (batch.toRecord p rba).reads.map (· % 2 ^ (8 * p.addr)) } : Record) =
      stillOpen s.cycleOpen (batch.toRecord p rba) := by
    unfold stillOpen
    rw [List.isEmpty_map]
    rfl
  rw [carriedBatch_toRecord rba spec, same, reads] at executed
  rw [items_carried spec]
  exact executed

theorem exchanges_writes (rba : Nat) (writes : List Operation) (isWrite : ∀ op ∈ writes, op.isWrite = true) :
    (exchanges p bus s (writes.map .operation)).filterMap (reply p rba) = [] := by
  rw [List.filterMap_eq_nil_iff]
  intro exchange member
  rw [reply_none_iff]
  have inside := List.mem_map_of_mem (f := Prod.fst) member
  rw [exchanges_items] at inside
  obtain ⟨op, found, same⟩ := List.mem_map.mp inside
  exact ⟨op, same.symm, isWrite op found⟩

theorem exchanges_replies {rba : Nat} {back : Nat → ConfigWrite} {asks : List Item}
    (each : ∀ item ∈ asks, ∀ access, reply p rba (item, access) = some (back access.value)) :
    (exchanges p bus s asks).filterMap (reply p rba) =
    (runRequests bus s (asks.map (carriedRequest p))).2.map back := by
  rw [← exchanges_values, List.map_map, ← List.filterMap_eq_map]
  apply List.filterMap_congr
  rintro ⟨item, access⟩ member
  have inside := List.mem_map_of_mem (f := Prod.fst) member
  rw [exchanges_items] at inside
  exact each item inside access

def laneShift (p : Port) : Item → Nat
  | .operation op => opShift p op.format (op.address % p.data)
  | .status => 0

def itemSize (p : Port) : Item → Nat
  | .operation op => op.size
  | .status => p.data

def backOf (p : Port) (rba : Nat) (batch : Batch) (value : Nat) : ConfigWrite :=
  ⟨(decodeSelect p (batch.toRecord p rba).select).accessWidth p, (batch.toRecord p rba).bra,
    value % 2 ^ (8 * (decodeSelect p (batch.toRecord p rba).select).opWidth)⟩

theorem batch_lanes (spec : batch.Spec p check maxops ops operations) :
    ∀ op ∈ batch.writes ++ batch.reads, laneShift p (.operation op) = opShift p batch.format batch.lowAddr := by
  intro op member
  rcases List.mem_append.mp member with write | read
  · rw [laneShift, spec.writes.format_eq op write, spec.writes_lane op write]
  · rw [laneShift, spec.reads.format_eq op read, ← p.and_data_sub_one, spec.reads.lane op read]

theorem reply_asked (rba : Nat) (accepted : ∀ op ∈ operations, Accepted p op)
    (spec : batch.Spec p check maxops ops operations) {item : Item} (member : item ∈ askedItems batch) :
    (∀ access, reply p rba (item, access) = some (backOf p rba batch access.value)) ∧
      (decodeSelect p (batch.toRecord p rba).select).opShift = laneShift p item ∧
      (decodeSelect p (batch.toRecord p rba).select).dataMask = 2 ^ (8 * itemSize p item) - 1 ∧
      (decodeSelect p (batch.toRecord p rba).select).opWidth = itemSize p item := by
  have lined := (lined_of_spec accepted spec).reads
  rw [asked] at lined
  have select : (batch.toRecord p rba).select = byteEnable p batch.format batch.lowAddr := rfl
  have bra : (batch.toRecord p rba).bra = if batch.inserted then rba ||| 1 else rba := rfl
  simp only [backOf, select, bra]
  rcases List.mem_append.mp member with operation | status
  · obtain ⟨op, reads, rfl⟩ := List.mem_map.mp operation
    have plain : batch.inserted = false := by
      by_contra set
      rw [(spec.inserted (Bool.eq_true_of_not_eq_false set)).1] at reads
      cases reads
    obtain ⟨_, isRead, _, decoded⟩ := lined op (by rw [plain]; exact reads)
    refine ⟨fun access => ?_, decoded.shift_eq.trans (batch_lanes spec op (List.mem_append_right _ reads)).symm,
      decoded.mask, decoded.width⟩
    rw [reply, if_neg (by rw [isRead]; decide), plain, if_neg (by decide), Lanes.accessWidth, decoded.width]
  · have inserted : batch.inserted = true := by
      by_contra plain
      rw [if_neg plain] at status
      cases status
    rw [inserted, if_pos rfl] at status
    obtain rfl := List.mem_singleton.mp status
    obtain ⟨_, _, _, decoded⟩ := lined (statusOp p) (by rw [inserted]; exact List.mem_singleton_self _)
    have size : (statusOp p).size = p.data := by
      have finite : ∀ data ∈ [1, 2, 4, 8], (UInt8.ofNat data &&& ebDataX).toNat = data := by decide
      exact finite p.data (by simpa [IsSize] using p.data_size)
    have aligned : opShift p batch.format batch.lowAddr = 0 := by
      have room := decoded.shift_le
      omega
    refine ⟨fun access => ?_, decoded.shift_eq.trans aligned, decoded.mask.trans (by rw [size]; rfl),
      decoded.width.trans size⟩
    rw [reply, inserted, if_pos rfl, Lanes.accessWidth, decoded.width, size]

theorem batch_replies (rba : Nat) (accepted : ∀ op ∈ operations, Accepted p op)
    (spec : batch.Spec p check maxops ops operations) : (exchanges p bus s (items batch)).filterMap (reply p rba) =
      (readValues p bus s (carriedBatch p batch)).map (backOf p rba batch) := by
  rw [items_split, exchanges_append, List.filterMap_append, exchanges_writes bus s rba _ spec.writes.isWrite,
    List.nil_append, exchanges_replies _ _ fun item member => (reply_asked rba accepted spec member).1,
    writes_carried spec, askedItems_carried spec, readValues]
  rfl

def writeBack (write : ConfigWrite) : Request := .cfgWrite write.widths write.addr write.value

theorem execWrites_fifo (lanes : Lanes) (wconfig : Bool) (bwa bwaB bwaL : Nat) (words : List Nat)
    (s : Session σ) : execWrites p bus lanes wconfig true bwa bwaB bwaL words s =
      (runRequests bus s (words.map (writeRequest p lanes wconfig bwa bwaB bwaL))).1 := by
  induction words generalizing s with
  | nil => rfl
  | cons word words ih => exact ih _

theorem replyRecord_flags (r : Record) (replies : List Nat) :
    (replyRecord r replies).has recordWca = r.has recordBca ∧ (replyRecord r replies).has recordWff = r.has recordRff ∧
      (replyRecord r replies).has recordCyc = r.has recordCyc := by
  have bits : ∀ flags : Byte, ∀ bca rff : Bool,
      let answered := (flags &&& recordCyc) ||| (if bca then recordWca else 0) ||| (if rff then recordWff else 0)
      (answered &&& recordWca != 0) = bca ∧ (answered &&& recordWff != 0) = rff ∧
        (answered &&& recordCyc != 0) = (flags &&& recordCyc != 0) := forall_byte (by decide)
  exact bits r.flags (r.has recordBca) (r.has recordRff)

def wordBack (p : Port) (rba : Nat) (batch : Batch) (word : Nat) : ConfigWrite :=
  backOf p rba batch (word >>> ((decodeSelect p (batch.toRecord p rba).select).opShift <<< 3))

theorem execRecord_words (home : Bus τ) (m : Session τ) (closed : m.cycleOpen = false) (rba : Nat)
    (accepted : ∀ op ∈ operations, Accepted p op) (spec : batch.Spec p check maxops ops operations)
    (some : askedItems batch ≠ []) (words : List Nat) :
    execRecord p home m (replyRecord (batch.toRecord p rba) words) =
      ((runRequests home m ((words.map (wordBack p rba batch)).map writeBack)).1, []) := by
  obtain ⟨item, member⟩ := List.exists_mem_of_ne_nil _ some
  obtain ⟨_, _, mask, width⟩ := reply_asked rba accepted spec member
  have selOk : (decodeSelect p (batch.toRecord p rba).select).selOk = true := by
    have lined := (lined_of_spec accepted spec).reads
    obtain ⟨op, read⟩ : ∃ op, op ∈ asked p batch := by
      apply List.exists_mem_of_ne_nil
      unfold askedItems at some
      rw [asked]
      cases inserted : batch.inserted <;> simp_all
    exact (lined op read).2.2.2.selOk
  obtain ⟨_, _, _, bca, rff⟩ := toRecord_flags p rba batch
  obtain ⟨wca, wff, _⟩ := replyRecord_flags (batch.toRecord p rba) words
  rw [bca] at wca
  rw [rff] at wff
  have requests : words.map (writeRequest p (decodeSelect p (batch.toRecord p rba).select) true
      (batch.toRecord p rba).bra 0 0) = (words.map (wordBack p rba batch)).map writeBack := by
    rw [List.map_map]
    apply List.map_congr_left
    intro word _
    simp only [writeRequest, if_true, selOk, Function.comp_apply, wordBack, backOf, writeBack, mask, width,
      Nat.and_two_pow_sub_one_eq_mod]
  have written : execWritePart p home m (replyRecord (batch.toRecord p rba) words) =
      (runRequests home m ((words.map (wordBack p rba batch)).map writeBack)).1 := by
    rw [← requests, ← execWrites_fifo]
    simp only [execWritePart, wca, wff, baseAddresses, if_true]
    rfl
  have still : (execWritePart p home m (replyRecord (batch.toRecord p rba) words)).cycleOpen = false := by
    rw [execWritePart, execWrites_cycleOpen, closed]
  rw [written] at still
  have noReads : (replyRecord (batch.toRecord p rba) words).reads.isEmpty = true := rfl
  simp only [execRecord, execReadPart, noReads, if_true, still, Bool.false_and, Bool.false_eq_true, if_false, written,
    List.append_nil]

theorem wordBack_replyWord (rba : Nat) (accepted : ∀ op ∈ operations, Accepted p op)
    (spec : batch.Spec p check maxops ops operations) (some : asked p (carriedBatch p batch) ≠ []) :
    wordBack p rba batch ∘ replyWord p (decodeSelect p (byteEnable p batch.format batch.lowAddr)) =
      backOf p rba batch := by
  funext value
  obtain ⟨op, member⟩ := List.exists_mem_of_ne_nil _ some
  obtain ⟨_, _, _, decoded⟩ := (carriedBatch_lined accepted spec).1.reads op member
  have select : (batch.toRecord p rba).select = byteEnable p batch.format batch.lowAddr := rfl
  have small : value % 2 ^ (8 * op.size) < 2 ^ (8 * op.size) := Nat.mod_lt _ (Nat.two_pow_pos _)
  have kept := lane_value decoded small
  have format : (carriedBatch p batch).format = batch.format := rfl
  have lowAddr : (carriedBatch p batch).lowAddr = batch.lowAddr := rfl
  rw [decoded.mask, Nat.and_two_pow_sub_one_eq_mod, ← decoded.shift_eq, format, lowAddr] at kept
  rw [format, lowAddr] at decoded
  rw [Function.comp_apply, wordBack, backOf, backOf, select, replyWord, decoded.mask,
    Nat.and_two_pow_sub_one_eq_mod, decoded.width, kept]

theorem execRecords_terminator (home : Bus τ) (m : Session τ) (closed : m.cycleOpen = false) (ended : Bool) :
    execRecords p home m (if ended then [cycleEndRecord] else []) = (m, []) := by
  cases ended with
  | false => rfl
  | true =>
    have idle : execWritePart p home m cycleEndRecord = m := rfl
    have silent : execReadPart p home m cycleEndRecord = (m, []) := rfl
    simp only [if_true, execRecords, execRecord, idle, silent, closed, Bool.false_and, Bool.false_eq_true, if_false,
      List.append_nil]

theorem runRequests_cycleOpen (home : Bus τ) (m : Session τ) (requests : List Request) :
    (runRequests home m requests).1.cycleOpen = m.cycleOpen := by
  induction requests generalizing m with
  | nil => rfl
  | cons request requests ih => exact (ih _).trans (perform_cycleOpen home m request)

theorem record_written (home : Bus τ) (s : Session σ) (m : Session τ) (closed : m.cycleOpen = false)
    (rba : Nat) (accepted : ∀ op ∈ operations, Accepted p op) (spec : batch.Spec p check maxops ops operations) :
    execRecords p home m (execRecord p bus s (batch.toRecord p rba)).2 =
      ((runRequests home m (((exchanges p bus s (items batch)).filterMap (reply p rba)).map writeBack)).1, []) := by
  rw [(execRecord_items bus s rba accepted spec).2, batch_replies bus s rba accepted spec]
  have carries := congrArg List.length (askedItems_carried spec)
  rw [List.length_map, List.length_map] at carries
  cases empty : asked p (carriedBatch p batch) with
  | nil =>
    have none : readValues p bus s (carriedBatch p batch) = [] := by
      rw [readValues, empty]
      rfl
    rw [none, List.isEmpty_nil, if_pos rfl, List.nil_append, execRecords_terminator home m closed]
    rfl
  | cons op rest =>
    have some : asked p (carriedBatch p batch) ≠ [] := by rw [empty]; exact List.cons_ne_nil _ _
    have asks : askedItems batch ≠ [] := by
      rw [← List.length_pos_iff, carries]
      exact List.length_pos_iff.mpr some
    have answered :=
      execRecord_words home m closed rba accepted spec asks ((readValues p bus s (carriedBatch p batch)).map
      (replyWord p (decodeSelect p (byteEnable p batch.format batch.lowAddr))))
    rw [List.map_map (g := wordBack p rba batch), wordBack_replyWord rba accepted spec some] at answered
    have open' := (runRequests_cycleOpen home m
      (((readValues p bus s (carriedBatch p batch)).map (backOf p rba batch)).map writeBack)).trans closed
    rw [List.isEmpty_cons, if_neg (by decide), List.singleton_append]
    show execRecords p home m (replyRecord (batch.toRecord p rba) _ :: _) = _
    rw [execRecords]
    simp only [answered, execRecords_terminator home _ open']
    rfl

theorem exchanges_behind (rba : Nat) (accepted : ∀ op ∈ operations, Accepted p op)
    (spec : batch.Spec p check maxops ops operations) (later : List Item) :
    exchanges p bus (execRecord p bus s (batch.toRecord p rba)).1 later =
      exchanges p bus (runRequests bus s ((items batch).map (carriedRequest p))).1 later := by
  have moved := (execRecord_items bus s rba accepted spec).1
  have unlined := (runRequests_lineless bus s ((items batch).map (carriedRequest p))).1
  rw [← exchanges_lineless, moved, ← unlined, exchanges_lineless]

theorem exchanges_record (rba : Nat) (accepted : ∀ op ∈ operations, Accepted p op)
    (spec : batch.Spec p check maxops ops operations) :
    (execRecord p bus s (batch.toRecord p rba)).1.trace =
      s.trace ++ (exchanges p bus s (items batch)).map Prod.snd := by
  have moved := congrArg Session.trace (execRecord_items bus s rba accepted spec).1
  rw [exchanges_trace, exchanges_lineless] at moved
  exact moved

end

end BelProject.Etherbone.Exchanges
