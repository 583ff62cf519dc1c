import BelProject.Etherbone.Agreement

/-! The config space of a slave. A read names a 16-bit address; it travels as a word of the
record, the slave masks it to the address bits of the port and picks the byte lanes the select
lines name, and answers with the bytes of the config space there. -/

namespace BelProject.Etherbone.ConfigSpace
open BelProject.Library Memory Width Operations Format Requests Execute Agreement

/-- Where the library puts the table that describes its bus. -/
def sdbAddress : Nat := 0

def configSpace (error : Nat) : Mem := fun a =>
  if a < 8 then (BigEndian.encode 8 error).getD a 0
  else if a < 16 then (BigEndian.encode 8 sdbAddress).getD (a - 8) 0
  else 0

def contents (error a size : Nat) : Nat := BigEndian.decode (slice (configSpace error) a size)

theorem configSpace_zero (error : Nat) {a : Nat} (behind : 8 ≤ a) : configSpace error a = 0 := by
  have pointer : BigEndian.encode 8 sdbAddress = List.replicate 8 0 := by decide
  rw [configSpace, if_neg (by omega), pointer]
  split
  · rw [List.getD_eq_getElem _ _ (by rw [List.length_replicate]; omega), List.getElem_replicate]
  · rfl

theorem readConfig_contents (widths : UInt8) (a error : Nat) (small : (widths &&& 0xf).toNat ≤ 8) :
    ebSocketReadConfig widths a error = contents error a (widths &&& 0xf).toNat := by
  rw [ebSocketReadConfig, contents]
  generalize (widths &&& 0xf).toNat = size at small ⊢
  have length : (BigEndian.encode 8 error ++ List.replicate 8 (0 : UInt8)).length = 16 := by
    rw [List.length_append, BigEndian.length_encode, List.length_replicate]
  split
  next behind =>
    have zeros : slice (configSpace error) a size = List.replicate size 0 := by
      apply List.ext_getElem
      · rw [length_slice, List.length_replicate]
      · intro i _ _
        simp only [slice_eq_map, List.getElem_map, List.getElem_range, List.getElem_replicate]
        exact configSpace_zero error (by omega)
    have none : BigEndian.decode (List.replicate size 0) = 0 := by
      clear zeros
      induction size with
      | zero => rfl
      | succ size ih =>
        rw [List.replicate_succ, BigEndian.decode_cons, ih (by omega)]
        exact Nat.zero_mul _
    rw [zeros, none]
  next inside =>
    congr 1
    apply List.ext_getElem
    · rw [List.length_take, List.length_drop, length, length_slice]
      omega
    · intro i _ short
      rw [length_slice] at short
      simp only [slice_eq_map, List.getElem_map, List.getElem_range, List.getElem_take, List.getElem_drop]
      by_cases register : a + i < 8
      · rw [List.getElem_append_left (by rw [BigEndian.length_encode]; exact register), configSpace, if_pos register,
          List.getD_eq_getElem _ _ (by rw [BigEndian.length_encode]; exact register)]
      · rw [List.getElem_append_right (by rw [BigEndian.length_encode]; omega), List.getElem_replicate,
          configSpace_zero error (by omega)]

section
variable {p : Port} {σ : Type} (bus : Bus σ)

/-- What a config read returns, from the error register alone. -/
def configValue (p : Port) (lanes : Lanes) (error word : Nat) : Nat :=
  match readRequest p lanes true word with
  | .cfgRead width addr => ebSocketReadConfig width addr error
  | _ => 0

theorem perform_config (lanes : Lanes) (s : Session σ) (word : Nat) :
    (perform bus s (readRequest p lanes true word)).2 = configValue p lanes s.error word ∧
      (perform bus s (readRequest p lanes true word)).1.error = s.error := by
  unfold configValue readRequest
  simp only [if_true]
  cases lanes.selOk with
  | true => exact ⟨rfl, rfl⟩
  | false => exact ⟨rfl, rfl⟩

theorem execReads_config (lanes : Lanes) (words : List Nat) (s : Session σ) :
    (execReads p bus lanes true words s).2 = words.map fun word => replyWord p lanes
    (configValue p lanes s.error word) := by
  induction words generalizing s with
  | nil => rfl
  | cons word words ih =>
    obtain ⟨value, error⟩ := perform_config (p := p) bus lanes s word
    simp only [execReads, List.map_cons, value, ih, error]

theorem configValue_operation {op : Operation} {lanes : Lanes} {shift : Nat} (accepted : Accepted p op)
    (isRead : op.isWrite = false) (space : op.cfgSpace = true) (decoded : Decoded p op lanes shift)
    (reach : op.address < 2 ^ (8 * p.addr)) (error : Nat) :
    configValue p lanes error op.address = contents error (bigAddress p op) op.size := by
  have request := readRequest_operation isRead decoded reach
  have widths : ∀ addr ∈ [1, 2, 4, 8], ∀ size ∈ [1, 2, 4, 8],
    (UInt8.ofNat (addr * 16 + size) &&& 0xf).toNat = size := by
    decide
  have width : (UInt8.ofNat (p.addr * 16 + op.size) &&& 0xf).toNat = op.size :=
    widths p.addr (by simpa [IsSize] using p.addr_size) op.size (by simpa [IsSize] using accepted.size_isSize)
  have small : op.size ≤ 8 := accepted.size_le.trans p.data_le_eight
  have named : operationRequest p op = .cfgRead (UInt8.ofNat (p.addr * 16 + op.size)) (bigAddress p op) := by
    rw [operationRequest, isRead, space]
    rfl
  rw [space, named] at request
  rw [configValue, request]
  simp only
  rw [readConfig_contents _ _ _ (by rw [width]; exact small), width]

def laneValue (p : Port) (select : UInt8) (word : Nat) : Nat :=
  (word >>> ((decodeSelect p select).opShift <<< 3)) &&& (decodeSelect p select).dataMask

theorem contents_lt (error a size : Nat) : contents error a size < 2 ^ (8 * size) := by
  have below := BigEndian.decode_lt (slice (configSpace error) a size)
  rwa [length_slice, BigEndian.pow_byte] at below

theorem laneValue_reply {op : Operation} {select : UInt8} {shift : Nat}
    (decoded : Decoded p op (decodeSelect p select) shift)
    {value : Nat} (small : value < 2 ^ (8 * op.size)) :
    laneValue p select (replyWord p (decodeSelect p select) value) = value := by
  have masked : value &&& (decodeSelect p select).dataMask = value := by
    rw [decoded.mask, Nat.and_two_pow_sub_one_eq_mod, Nat.mod_eq_of_lt small]
  rw [laneValue, replyWord, masked]
  have same := lane_value decoded small
  rw [← decoded.shift_eq] at same
  exact same

theorem formatCycle_lined {operations : List Operation} (accepted : ∀ op ∈ operations, Accepted p op) :
    ∀ batch ∈ formatCycle p operations, Lined p batch ∧ (batch.inserted = true → batch.reads = []) := by
  apply Formats.rule (P := fun _ _ batches => ∀ batch ∈ batches, Lined p batch ∧
    (batch.inserted = true → batch.reads = []))
    _ _ (formatCycle_formats p operations accepted) accepted
  · intro ops operations accepted spec _ batch member
    rw [List.mem_singleton.mp member]
    exact ⟨lined_of_spec accepted spec, fun inserted => (spec.inserted inserted).1⟩
  · intro ops operations batches accepted spec _ rest batch member
    rcases List.mem_cons.mp member with rfl | later
    · exact ⟨lined_of_spec accepted spec, fun inserted => (spec.inserted inserted).1⟩
    · exact rest batch later

/-- In whatever record it travels, a config read of an address the port can carry is answered
with the bytes of the config space, for a little-endian part of a word those of the mirrored
byte lanes. -/
theorem configRead_answered {listed operations : List Operation} (passed : checkOperations p listed = .ok operations)
    {batch : Batch} (planned : batch ∈ formatCycle p operations) (rba : Nat) (s : Session σ) {k : Nat} {op : Operation}
    (found : batch.reads[k]? = some op) (space : op.cfgSpace = true) (reach : op.address < 2 ^ (8 * p.addr)) :
    ((execRecord p bus s (batch.toRecord p rba)).2.head?.bind fun reply => reply.writes[k]?).map
        (laneValue p (batch.toRecord p rba).select) =
      some (contents (execWritePart p bus s (batch.toRecord p rba)).error (bigAddress p op) op.size) := by
  have accepted := accepted_of_checkOperations p listed operations passed
  obtain ⟨lined, free⟩ := formatCycle_lined accepted batch planned
  have member : op ∈ batch.reads := List.mem_of_getElem? found
  have own : asked p batch = batch.reads := by
    have inserted : batch.inserted = false := by
      cases inserted : batch.inserted with
      | false => rfl
      | true =>
        rw [free inserted] at member
        cases member
    rw [asked, inserted]
    rfl
  obtain ⟨ok, isRead, same, decoded⟩ := lined.reads op (own ▸ member)
  obtain ⟨_, _, rca, _⟩ := toRecord_flags p rba batch
  have words : (batch.toRecord p rba).reads = batch.reads.map Operation.address := by rw [toRecord_reads, own]
  have asks : (batch.toRecord p rba).reads.isEmpty = false := by
    rw [words, List.isEmpty_eq_false_iff]
    exact fun none => List.ne_nil_of_mem member (List.map_eq_nil_iff.mp none)
  have value := configValue_operation ok isRead space decoded reach (execWritePart p bus s (batch.toRecord p rba)).error
  rw [execRecord, execReadPart, asks]
  simp only [Bool.false_eq_true, if_false, List.singleton_append, List.head?_cons, Option.bind_some, replyRecord]
  rw [rca, ← same, space, execReads_config, words, List.map_map, List.getElem?_map, found]
  change some (laneValue p _ (replyWord p _ (configValue p _ (execWritePart p bus s
    (batch.toRecord p rba)).error op.address))) = _
  rw [show (batch.toRecord p rba).select = byteEnable p batch.format batch.lowAddr from rfl, value,
    laneValue_reply decoded (contents_lt _ _ _)]

end

def idleBus : Bus Unit := ⟨fun s _ _ _ => (0, false, s), fun s _ _ _ _ => (false, s), fun s _ _ _ => s⟩

def failedOnce : Session Unit := ⟨(), 1, false, []⟩

def narrow : Port := ⟨8, 1, 1, Port.wishbone64.word_size, by decide, by decide, by decide, by decide⟩

/-- A read of the last byte of the register, as a port of four bytes asks for it. -/
def lastByte : Operation := ⟨7, 0, .readVal, true, false, false, 0x11⟩

theorem configRead_answered_last :
    ∃ batch ∈ formatCycle Port.wishbone32 [lastByte],
      ((execRecord Port.wishbone32 idleBus failedOnce (batch.toRecord Port.wishbone32 0x8000)).2.head?.bind fun reply =>
          reply.writes[0]?).map (laneValue Port.wishbone32 (batch.toRecord Port.wishbone32 0x8000).select) =
        some (contents (execWritePart Port.wishbone32 idleBus failedOnce (batch.toRecord Port.wishbone32 0x8000)).error
          (bigAddress Port.wishbone32 lastByte) lastByte.size) := by
  refine ⟨_, List.mem_singleton_self _, ?_⟩
  have passed : checkOperations Port.wishbone32 [lastByte] = .ok [lastByte] := by decide +kernel
  have found : (formatCycle Port.wishbone32 [lastByte]).head?.bind (fun batch => batch.reads[0]?) = some lastByte := by
    decide +kernel
  exact configRead_answered idleBus passed (List.mem_singleton_self _) 0x8000 failedOnce found rfl (by decide)

def answers (p : Port) (op : Operation) : List (Option Nat) :=
  (formatCycle p [op]).map fun batch =>
    ((execRecord p idleBus failedOnce (batch.toRecord p 0x8000)).2.head?.bind fun reply => reply.writes[0]?).map
      (laneValue p (batch.toRecord p 0x8000).select)

/-- An address of more than eight bits comes back to the register on the eight bit port, and
the last byte of the register is the first one of its word to a little-endian read. -/
theorem configRead_not_named :
    (checkOperations narrow [⟨0x107, 0, .readVal, true, false, false, 1⟩] =
        .ok [⟨0x107, 0, .readVal, true, false, false, 1⟩] ∧
      answers narrow ⟨0x107, 0, .readVal, true, false, false, 1⟩ = [some 1] ∧ contents failedOnce.error 0x107 1 = 0) ∧
    (checkOperations Port.wishbone32 [⟨7, 0, .readVal, true, false, false, 0x21⟩] =
        .ok [⟨7, 0, .readVal, true, false, false, 0x21⟩] ∧
      answers Port.wishbone32 ⟨7, 0, .readVal, true, false, false, 0x21⟩ = [some 0] ∧
        contents failedOnce.error 7 1 = 1) := by
  decide +kernel

end BelProject.Etherbone.ConfigSpace
