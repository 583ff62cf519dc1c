import BelProject.Etherbone.Packets
import BelProject.Etherbone.Requests
import BelProject.Etherbone.Segmentation

/-! Encoding and execution agree. The records `eb_device_flush` makes of a cycle, executed
by `eb_device_slave`, are one request for each operation in list order, with the status
reads that flush adds in between. -/

namespace BelProject.Etherbone.Agreement
open BelProject.Library Width Operations Wire Format Packets Requests Execute Deliver Segmentation

section
variable (p : Port)

/-- The status word as an operation: a full-width read at the end of the register. -/
def statusOp : Operation := ⟨8 - p.data, 0, .readVal, true, false, false, UInt8.ofNat p.data⟩

theorem statusOp_accepted : Accepted p (statusOp p) := by
  have formats : ∀ data ∈ [1, 2, 4, 8], (UInt8.ofNat data &&& ebDataX).toNat = data ∧
      UInt8.ofNat data &&& ebEndianMask = 0 ∧ data ∣ 8 - data ∧ 8 - data < 2 ^ 16 := by decide
  obtain ⟨size, endian, aligned, small⟩ := formats p.data (by simpa [IsSize] using p.data_size)
  have size' : (statusOp p).size = p.data := size
  have endian' : (statusOp p).endian = 0 := endian
  refine ⟨?_, ?_, ?_, fun _ => endian', ?_, ?_, ?_, fun _ => small, ?_⟩
  · rw [size']
    exact p.data_size
  · rw [size']
  · rw [size', endian', UInt8.zero_or]
    rfl
  · rw [size']
    exact fun different => absurd rfl different
  · rw [size']
    exact aligned
  · intro bus
    cases bus
  · intro isWrite
    cases isWrite

theorem statusOp_lane : (8 - p.data) % p.data = 0 := by
  rcases p.data_size with h | h | h | h <;> rw [h]

theorem statusOp_request : operationRequest p (statusOp p) = Item.status.request p := by
  have formats : ∀ data ∈ [1, 2, 4, 8], (UInt8.ofNat data &&& ebDataX).toNat = data ∧
      UInt8.ofNat data &&& ebEndianMask ≠ ebLittleEndian := by decide
  obtain ⟨size, endian⟩ := formats p.data (by simpa [IsSize] using p.data_size)
  have size' : (statusOp p).size = p.data := size
  have endian' : (statusOp p).endian ≠ ebLittleEndian := endian
  rw [operationRequest, size', bigAddress, if_neg endian']
  rfl

def asked (batch : Batch) : List Operation := if batch.inserted then [statusOp p] else batch.reads

def items (batch : Batch) : List Item :=
  (batch.writes ++ batch.reads).map .operation ++ if batch.inserted then [.status] else []

theorem toRecord_flags (rba : Nat) (batch : Batch) :
    (batch.toRecord p rba).has recordWca = batch.wcfg ∧ (batch.toRecord p rba).has recordWff = batch.fifo ∧
      (batch.toRecord p rba).has recordRca = batch.rcfg ∧ (batch.toRecord p rba).has recordBca = true ∧
      (batch.toRecord p rba).has recordRff = true := by
  have bits : ∀ rcfg wcfg fifo ended : Bool,
      let flags := recordBca ||| recordRff ||| (if rcfg then recordRca else 0) |||
        (if wcfg then recordWca else 0) ||| (if fifo then recordWff else 0) ||| (if ended then recordCyc else 0)
      (flags &&& recordWca != 0) = wcfg ∧ (flags &&& recordWff != 0) = fifo ∧ (flags &&& recordRca != 0) = rcfg ∧
        (flags &&& recordBca != 0) = true ∧ (flags &&& recordRff != 0) = true := by decide
  exact bits batch.rcfg batch.wcfg batch.fifo batch.cycleEnd

theorem toRecord_reads (rba : Nat) (batch : Batch) :
    (batch.toRecord p rba).reads = (asked p batch).map Operation.address := by
  unfold Batch.toRecord asked
  cases batch.inserted <;> rfl

variable {p}

/-- The operations of a record, with what its byte-enable says about each. -/
structure Lined (p : Port) (batch : Batch) : Prop where
  writes : ∀ op ∈ batch.writes, Accepted p op ∧ op.isWrite = true ∧ op.cfgSpace = batch.wcfg ∧
    Decoded p op (decodeSelect p (byteEnable p batch.format batch.lowAddr)) (opShift p batch.format batch.lowAddr)
  reads : ∀ op ∈ asked p batch, Accepted p op ∧ op.isWrite = false ∧ op.cfgSpace = batch.rcfg ∧
    Decoded p op (decodeSelect p (byteEnable p batch.format batch.lowAddr)) (opShift p batch.format batch.lowAddr)

variable {batch : Batch} {check : Bool} {maxops ops : Nat} {operations : List Operation}

theorem lined_of_spec (accepted : ∀ op ∈ operations, Accepted p op) (spec : batch.Spec p check maxops ops operations) :
    Lined p batch := by
  have decoded : ∀ op, Accepted p op → op.format = batch.format → op.address % p.data = batch.lowAddr →
      Decoded p op (decodeSelect p (byteEnable p batch.format batch.lowAddr))
        (opShift p batch.format batch.lowAddr) := by
    intro op ok format lane
    rw [← format, ← lane]
    exact decoded_of_accepted ok
  constructor
  · intro op member
    have ok : Accepted p op := accepted op (by rw [spec.split]; exact List.mem_append_left _ member)
    exact ⟨ok, spec.writes.isWrite op member, spec.writes.space op member,
      decoded op ok (spec.writes.format_eq op member) (spec.writes_lane op member)⟩
  · intro op member
    cases inserted : batch.inserted with
    | true =>
      obtain ⟨_, format, lane, rcfg, _⟩ := spec.inserted inserted
      rw [asked, if_pos inserted, List.mem_singleton] at member
      rw [member]
      refine ⟨statusOp_accepted p, rfl, rcfg.symm, decoded _ (statusOp_accepted p) format.symm ?_⟩
      rw [lane]
      exact statusOp_lane p
    | false =>
      rw [asked, inserted] at member
      have member' : op ∈ batch.reads := member
      have ok : Accepted p op := accepted op (by
        rw [spec.split]
        exact List.mem_append_right _ (List.mem_append_left _ member'))
      refine ⟨ok, spec.reads.isRead op member', spec.reads.space op member',
        decoded op ok (spec.reads.format_eq op member') ?_⟩
      rw [← p.and_data_sub_one]
      exact spec.reads.lane op member'

/-- Config reads reach the address they name only if the port can carry it. -/
def Reachable (p : Port) (op : Operation) : Prop :=
  op.cfgSpace = true → op.isWrite = false → op.address < 2 ^ (8 * p.addr)

theorem asked_reach (lined : Lined p batch) (reachable : ∀ op ∈ batch.writes ++ batch.reads, Reachable p op) :
    ∀ op ∈ asked p batch, op.address < 2 ^ (8 * p.addr) := by
  intro op member
  obtain ⟨accepted, isRead, _, _⟩ := lined.reads op member
  cases space : op.cfgSpace with
  | false => exact accepted.bus_lt space
  | true =>
    rw [asked] at member
    split at member
    · rw [List.mem_singleton.mp member]
      show 8 - p.data < 2 ^ (8 * p.addr)
      calc 8 - p.data < 2 ^ 8 := by omega
        _ ≤ 2 ^ (8 * p.addr) := Nat.pow_le_pow_right (by decide) (by rcases p.addr_size with h | h | h | h <;> omega)
    · exact reachable op (List.mem_append_right _ member) space isRead

variable {σ : Type}

variable (bus : Bus σ)

theorem execWritePart_batch (s : Session σ) (rba : Nat) (lined : Lined p batch)
    (chained : Chained (advance p batch.fifo) ((batch.writes.head?.map Operation.address).getD 0) batch.writes) :
    execWritePart p bus s (batch.toRecord p rba) = (runRequests bus s (batch.writes.map (operationRequest p))).1 := by
  obtain ⟨wca, wff, _⟩ := toRecord_flags p rba batch
  have head : batch.wcfg = false → ((batch.writes.head?.map Operation.address).getD 0) < 2 ^ (8 * p.addr) := by
    intro plain
    cases same : batch.writes with
    | nil => exact Nat.two_pow_pos _
    | cons op rest =>
      obtain ⟨accepted, _, space, _⟩ := lined.writes op (same ▸ List.mem_cons_self)
      exact accepted.bus_lt (space.trans plain)
  have lanes : batch.writes ≠ [] →
      (decodeSelect p (byteEnable p batch.format batch.lowAddr)).addrLowBigEndian < p.data ∧
      (decodeSelect p (byteEnable p batch.format batch.lowAddr)).addrLowLittleEndian < p.data := by
    intro some
    obtain ⟨op, rest, same⟩ := List.exists_cons_of_ne_nil some
    obtain ⟨_, _, _, decoded⟩ := lined.writes op (same ▸ List.mem_cons_self)
    exact ⟨decoded.big_lt, decoded.little_lt⟩
  by_cases some : batch.writes = []
  · have none : (batch.toRecord p rba).writes = [] := by simp [Batch.toRecord, some]
    simp only [execWritePart, none, some, execWrites, List.map_nil, runRequests]
  have joined : ∀ lane, lane < p.data → batch.wcfg = false →
      (((batch.writes.head?.map Operation.address).getD 0) &&& p.addressFilterBits) ||| lane =
        ((batch.writes.head?.map Operation.address).getD 0) -
          ((batch.writes.head?.map Operation.address).getD 0) % p.data + lane := by
    intro lane short plain
    rw [p.and_addressFilterBits, Nat.mod_eq_of_lt (head plain)]
    obtain ⟨k, _, data⟩ := p.exists_data_pow
    rw [data] at short ⊢
    exact Bits.or_lane short
  simp only [execWritePart, wca, wff]
  apply execWrites_run bus _ batch.wcfg batch.fifo (opShift p batch.format batch.lowAddr) batch.writes
    ((batch.writes.head?.map Operation.address).getD 0) _ _ _ s chained lined.writes
  · intro config
    simp only [baseAddresses, config, if_true]
    rfl
  · intro plain
    obtain ⟨big, little⟩ := lanes some
    simp only [baseAddresses, plain, Bool.false_eq_true, if_false]
    exact ⟨joined _ big plain, joined _ little plain⟩

/-- A session without its reply line. -/
def lineless (s : Session σ) : Session σ := { s with cycleOpen := false }

theorem runRequests_lineless (s : Session σ) (requests : List Request) :
    lineless (runRequests bus s requests).1 = (runRequests bus (lineless s) requests).1 ∧
      (runRequests bus (lineless s) requests).2 = (runRequests bus s requests).2 := by
  have closed : runRequests bus (lineless s) requests =
      (lineless (runRequests bus s requests).1, (runRequests bus s requests).2) :=
    runRequests_open bus s false requests
  rw [closed]
  exact ⟨rfl, rfl⟩

def readValues (p : Port) (bus : Bus σ) (s : Session σ) (batch : Batch) : List Nat :=
  (runRequests bus (runRequests bus s (batch.writes.map (operationRequest p))).1
    ((asked p batch).map (operationRequest p))).2

theorem execRecord_batch (s : Session σ) (rba : Nat) (lined : Lined p batch)
    (chained : Chained (advance p batch.fifo) ((batch.writes.head?.map Operation.address).getD 0) batch.writes)
    (reach : ∀ op ∈ asked p batch, op.address < 2 ^ (8 * p.addr)) :
    lineless (execRecord p bus s (batch.toRecord p rba)).1 =
        (runRequests bus (lineless s) ((batch.writes ++ asked p batch).map (operationRequest p))).1 ∧
      (execRecord p bus s (batch.toRecord p rba)).2 =
        (if (asked p batch).isEmpty then [] else [replyRecord (batch.toRecord p rba) ((readValues p bus s batch).map
          (replyWord p (decodeSelect p (byteEnable p batch.format batch.lowAddr))))]) ++
          if stillOpen s.cycleOpen (batch.toRecord p rba) && batch.cycleEnd then [cycleEndRecord] else [] := by
  have written := execWritePart_batch bus s rba lined chained
  have opened := execRecord_cycleOpen p bus s (batch.toRecord p rba)
  obtain ⟨_, _, rca, _⟩ := toRecord_flags p rba batch
  have cyc := toRecord_cyc p rba batch
  have reads := toRecord_reads p rba batch
  have parts : (execRecord p bus s (batch.toRecord p rba)).2 =
      (execReadPart p bus (execWritePart p bus s (batch.toRecord p rba)) (batch.toRecord p rba)).2 ++
      if (execRecord p bus s (batch.toRecord p rba)).1.cycleOpen && (batch.toRecord p rba).has recordCyc
        then [cycleEndRecord] else [] := rfl
  rw [parts, opened, cyc]
  have read : lineless (execReadPart p bus (execWritePart p bus s (batch.toRecord p rba)) (batch.toRecord p rba)).1 =
      (runRequests bus (lineless s) ((batch.writes ++ asked p batch).map (operationRequest p))).1 ∧
      (execReadPart p bus (execWritePart p bus s (batch.toRecord p rba)) (batch.toRecord p rba)).2 =
        if (asked p batch).isEmpty then [] else [replyRecord (batch.toRecord p rba) ((readValues p bus s batch).map
          (replyWord p (decodeSelect p (byteEnable p batch.format batch.lowAddr))))] := by
    rw [written, List.map_append, runRequests_append]
    unfold execReadPart
    rw [reads]
    cases empty : asked p batch with
    | nil => exact ⟨(runRequests_lineless bus s _).1, rfl⟩
    | cons op rest =>
      have select : (batch.toRecord p rba).select = byteEnable p batch.format batch.lowAddr := rfl
      have run := execReads_run bus (decodeSelect p (byteEnable p batch.format batch.lowAddr)) batch.rcfg
        (opShift p batch.format batch.lowAddr) (op :: rest)
        { (runRequests bus s (batch.writes.map (operationRequest p))).1 with cycleOpen := !batch.cycleEnd }
        (by
          intro other member
          rw [← empty] at member
          obtain ⟨_, isRead, space, decoded⟩ := lined.reads other member
          exact ⟨isRead, space, reach other member, decoded⟩)
      have unlined := runRequests_open bus (runRequests bus s (batch.writes.map (operationRequest p))).1
        (!batch.cycleEnd) ((op :: rest).map (operationRequest p))
      have front := runRequests_lineless bus s (batch.writes.map (operationRequest p))
      have back := runRequests_lineless bus (runRequests bus s (batch.writes.map (operationRequest p))).1
        ((op :: rest).map (operationRequest p))
      simp only [List.map_cons, List.isEmpty_cons, Bool.false_eq_true, if_false, select, rca, cyc] at run unlined ⊢
      rw [run, unlined]
      refine ⟨?_, ?_⟩
      · rw [← front.1]
        exact back.1
      · rw [readValues, empty]
        rfl
  exact ⟨read.1, by rw [read.2]⟩

theorem items_request (spec : batch.Spec p check maxops ops operations) :
    (items batch).map (Item.request p) = (batch.writes ++ asked p batch).map (operationRequest p) := by
  have plain : ∀ list : List Operation, (list.map Item.operation).map (Item.request p) =
      list.map (operationRequest p) := by
    intro list
    rw [List.map_map]
    rfl
  rw [items, List.map_append, plain, asked]
  cases inserted : batch.inserted with
  | true =>
    simp only [if_true, (spec.inserted inserted).1, List.append_nil, List.map_append, List.map_cons, List.map_nil,
      statusOp_request]
  | false => simp

theorem items_operations (batch : Batch) : (items batch).filterMap Item.operation? = batch.writes ++ batch.reads := by
  have plain : ∀ list : List Operation, (list.map Item.operation).filterMap Item.operation? = list := by
    intro list
    rw [List.filterMap_map]
    exact List.filterMap_some
  rw [items, List.filterMap_append, plain]
  cases batch.inserted <;> simp [Item.operation?]

variable {batches : List Batch}

theorem Formats.rule {maxops : Nat} {P : Nat → List Operation → List Batch → Prop}
    (last : ∀ ops operations, (∀ op ∈ operations, Accepted p op) →
      (planRecord p check maxops ops operations).Spec p check maxops ops operations →
      (planRecord p check maxops ops operations).cycleEnd = true →
      P ops operations [planRecord p check maxops ops operations])
    (more : ∀ ops operations batches, (∀ op ∈ operations, Accepted p op) →
      (planRecord p check maxops ops operations).Spec p check maxops ops operations →
      (planRecord p check maxops ops operations).cycleEnd = false →
      P (if (planRecord p check maxops ops operations).inserted then 0
          else (planRecord p check maxops ops operations).ops) (planRecord p check maxops ops operations).rest batches →
      P ops operations (planRecord p check maxops ops operations :: batches)) {ops : Nat}
    (formats : Formats p check maxops ops operations batches) (accepted : ∀ op ∈ operations, Accepted p op) :
    P ops operations batches := by
  induction formats with
  | last ended => exact last _ _ accepted (planRecord_spec p check maxops _ _ accepted) ended
  | @more ops operations batches running _ ih =>
    have spec := planRecord_spec p check maxops ops operations accepted
    apply more _ _ _ accepted spec running
    apply ih
    intro op member
    apply accepted
    rw [spec.split]
    exact List.mem_append_right _ (List.mem_append_right _ member)

theorem formats_operations
    (formats : Formats p check maxops ops operations batches) (accepted : ∀ op ∈ operations, Accepted p op) :
    (batches.flatMap items).filterMap Item.operation? = operations := by
  apply Formats.rule (P := fun _ operations batches =>
    (batches.flatMap items).filterMap Item.operation? = operations) _ _ formats accepted
  · intro ops operations _ spec ended
    rw [List.flatMap_singleton, items_operations]
    have none := (spec.cycleEnd_iff.mp ended).1
    have split := spec.split
    rw [none, List.append_nil] at split
    exact split.symm
  · intro ops operations batches _ spec _ rest
    rw [List.flatMap_cons, List.filterMap_append, items_operations, rest, List.append_assoc]
    exact spec.split.symm

theorem formats_requests (rba : Nat) (formats : Formats p check maxops ops operations batches)
    (accepted : ∀ op ∈ operations, Accepted p op) :
    (∀ op ∈ operations, Reachable p op) → ∀ s : Session σ,
      lineless (execRecords p bus s (batches.map (Batch.toRecord p rba))).1 =
        (runRequests bus (lineless s) ((batches.flatMap items).map (Item.request p))).1 := by
  have one : ∀ {ops : Nat} {operations : List Operation} {batch : Batch} (s : Session σ),
      (∀ op ∈ operations, Accepted p op) → batch.Spec p check maxops ops operations →
      (∀ op ∈ operations, Reachable p op) →
      lineless (execRecord p bus s (batch.toRecord p rba)).1 =
        (runRequests bus (lineless s) ((items batch).map (Item.request p))).1 := by
    intro ops operations batch s accepted spec reachable
    have lined := lined_of_spec accepted spec
    have reach := asked_reach lined (by
      intro op member
      apply reachable
      rw [spec.split, ← List.append_assoc]
      exact List.mem_append_left _ member)
    rw [items_request spec]
    exact (execRecord_batch bus s rba lined spec.writes.chained reach).1
  apply Formats.rule (P := fun _ operations batches => (∀ op ∈ operations, Reachable p op) → ∀ s : Session σ,
    lineless (execRecords p bus s (batches.map (Batch.toRecord p rba))).1 =
      (runRequests bus (lineless s) ((batches.flatMap items).map (Item.request p))).1) _ _ formats accepted
  · intro ops operations accepted spec _ reachable s
    rw [List.flatMap_singleton, ← one s accepted spec reachable]
    rfl
  · intro ops operations batches accepted spec _ rest reachable s
    have first := one s accepted spec reachable
    have later := rest (by
      intro op member
      apply reachable
      rw [spec.split]
      exact List.mem_append_right _ (List.mem_append_right _ member))
      (execRecord p bus s ((planRecord p check maxops ops operations).toRecord p rba)).1
    rw [List.flatMap_cons, List.map_append, runRequests_append, ← first, ← later]
    rfl

theorem toRecord_fits (rba : Nat) (small : rba < 2 ^ 16) (accepted : ∀ op ∈ operations, Accepted p op)
    (spec : batch.Spec p check maxops ops operations) : (batch.toRecord p rba).Fits p := by
  have lined := lined_of_spec accepted spec
  have two := p.two_le_alignment
  have wide : 2 ^ 16 ≤ 256 ^ p.alignment := by
    calc 2 ^ 16 = 256 ^ 2 := by decide
      _ ≤ 256 ^ p.alignment := Nat.pow_le_pow_right (by decide) two
  have space : 2 ^ (8 * p.addr) ≤ 256 ^ p.alignment := by
    rw [BigEndian.pow_byte]
    exact Nat.pow_le_pow_right (by decide) (Nat.mul_le_mul_left 8 p.addr_le_alignment)
  have address : ∀ op, Accepted p op → op.address < 256 ^ p.alignment := by
    intro op ok
    cases config : op.cfgSpace with
    | true => exact lt_of_lt_of_le (ok.cfg_lt config) wide
    | false => exact lt_of_lt_of_le (ok.bus_lt config) space
  refine ⟨?_, ?_, ?_, ?_, ?_, ?_⟩
  · simp only [Batch.toRecord, List.length_map]
    exact spec.writes_length
  · rw [toRecord_reads, List.length_map, asked]
    split
    · simp
    · exact spec.reads_length
  · show (batch.writes.head?.map Operation.address).getD 0 < _
    cases same : batch.writes with
    | nil => exact Nat.pow_pos (by decide)
    | cons op rest => exact address op (lined.writes op (same ▸ List.mem_cons_self)).1
  · intro word member
    obtain ⟨op, inside, rfl⟩ := List.mem_map.mp member
    obtain ⟨ok, isWrite, _, decoded⟩ := lined.writes op inside
    have value := ok.value_lt isWrite
    have room := decoded.shift_le
    have fits : op.unValue <<< (opShift p batch.format batch.lowAddr <<< 3) < 256 ^ p.alignment := by
      have bits : opShift p batch.format batch.lowAddr <<< 3 + 8 * op.size ≤ 8 * p.alignment := by
        have := p.data_le_alignment
        rw [Nat.shiftLeft_eq]
        omega
      rw [BigEndian.pow_byte, Nat.shiftLeft_eq]
      calc op.unValue * 2 ^ (opShift p batch.format batch.lowAddr <<< 3)
          < 2 ^ (8 * op.size) * 2 ^ (opShift p batch.format batch.lowAddr <<< 3) :=
            Nat.mul_lt_mul_of_pos_right value (Nat.two_pow_pos _)
        _ = 2 ^ (opShift p batch.format batch.lowAddr <<< 3 + 8 * op.size) := by rw [← pow_add, Nat.add_comm]
        _ ≤ 2 ^ (8 * p.alignment) := Nat.pow_le_pow_right (by decide) bits
    exact lt_of_le_of_lt (Nat.mod_le _ _) fits
  · show (if batch.inserted then rba ||| 1 else rba) < _
    apply lt_of_lt_of_le _ wide
    split
    · exact Nat.or_lt_two_pow small (by decide)
    · exact small
  · intro word member
    rw [toRecord_reads] at member
    obtain ⟨op, inside, rfl⟩ := List.mem_map.mp member
    exact address op (lined.reads op inside).1

theorem cycleRecords_fits (rba : Nat) (small : rba < 2 ^ 16) (operations : List Operation)
    (accepted : ∀ op ∈ operations, Accepted p op) : ∀ r ∈ cycleRecords p rba operations, r.Fits p := by
  apply Formats.rule (P := fun _ _ batches => ∀ r ∈ batches.map (Batch.toRecord p rba), r.Fits p) _ _
    (formatCycle_formats p operations accepted) accepted
  · intro ops operations accepted spec _ r member
    rw [List.mem_singleton.mp member]
    exact toRecord_fits rba small accepted spec
  · intro ops operations batches accepted spec _ rest r member
    rcases List.mem_cons.mp member with rfl | later
    · exact toRecord_fits rba small accepted spec
    · exact rest r later

def register (error : Nat) (access : Access) : Nat :=
  if shifts access.request = 0 then error else shiftError error access.failed

def possible : Request → Bool
  | .badBus => false
  | .badCfg => false
  | _ => true

theorem perform_access (s : Session σ) (request : Request) (good : possible request = true) :
    ∃ access, (perform bus s request).1.trace = s.trace ++ [access] ∧ access.request = request ∧
      access.value = (perform bus s request).2 ∧ (perform bus s request).1.error = register s.error access := by
  cases request with
  | busWrite width addrB addrL value => exact ⟨_, rfl, rfl, rfl, rfl⟩
  | busRead width addrB addrL => exact ⟨_, rfl, rfl, rfl, rfl⟩
  | cfgWrite width addr value => exact ⟨_, rfl, rfl, rfl, rfl⟩
  | cfgRead width addr => exact ⟨_, rfl, rfl, rfl, rfl⟩
  | badBus => cases good
  | badCfg => cases good

theorem runRequests_accesses (s : Session σ) (requests : List Request)
    (good : ∀ request ∈ requests, possible request = true) :
    ∃ accesses, (runRequests bus s requests).1.trace = s.trace ++ accesses ∧
      accesses.map Access.request = requests ∧ accesses.map Access.value = (runRequests bus s requests).2 ∧
      (runRequests bus s requests).1.error = accesses.foldl register s.error := by
  induction requests generalizing s with
  | nil => exact ⟨[], (List.append_nil _).symm, rfl, rfl, rfl⟩
  | cons request requests ih =>
    obtain ⟨access, trace, same, value, error⟩ := perform_access bus s request (good request List.mem_cons_self)
    obtain ⟨accesses, traces, rest, values, errors⟩ := ih (perform bus s request).1
      (fun other member => good other (List.mem_cons_of_mem _ member))
    refine ⟨access :: accesses, ?_, ?_, ?_, ?_⟩
    · simp only [runRequests, traces, trace, List.append_assoc, List.singleton_append]
    · rw [List.map_cons, same, rest]
    · rw [List.map_cons, value, values]
      rfl
    · rw [List.foldl_cons, ← error]
      exact errors

theorem possible_operation (op : Operation) : possible (operationRequest p op) = true := by
  unfold operationRequest
  cases op.isWrite <;> cases op.cfgSpace <;> rfl

theorem possible_item (item : Item) : possible (item.request p) = true := by
  cases item with
  | operation op => exact possible_operation op
  | status => rfl

/-- The accesses are the operations in list order, with status reads between them. -/
def Agreed (p : Port) (operations : List Operation) (trace : List Access) : Prop :=
  ∃ asked : List Item, asked.filterMap Item.operation? = operations ∧
    trace.map Access.request = asked.map (Item.request p)

theorem execRecords_agreed (start : σ) (rba : Nat) (operations : List Operation)
    (accepted : ∀ op ∈ operations, Accepted p op) (reachable : ∀ op ∈ operations, Reachable p op) :
    Agreed p operations (execRecords p bus (opening start) (cycleRecords p rba operations)).1.trace := by
  have formats := formatCycle_formats p operations accepted
  have run := formats_requests bus rba formats accepted reachable (opening start)
  obtain ⟨accesses, trace, requests, _⟩ := runRequests_accesses bus (lineless (opening start))
    (((formatCycle p operations).flatMap items).map (Item.request p)) (by
      intro request member
      obtain ⟨item, _, rfl⟩ := List.mem_map.mp member
      exact possible_item item)
  have same : (execRecords p bus (opening start) (cycleRecords p rba operations)).1.trace = accesses := by
    rw [← run] at trace
    exact trace
  exact ⟨(formatCycle p operations).flatMap items, formats_operations formats accepted, by rw [same, requests]⟩

end

end BelProject.Etherbone.Agreement
