import BelProject.Etherbone.SdbScan

/-! A scan of any remote table. What the callbacks decode is a function of the bytes the
cycles brought back, as long as these cover the records the table says it has: a reply that
promises more than was asked for is completed from the stack. -/

namespace BelProject.Etherbone.SdbReplies
open BelProject.Library Width Execute Operations Sdb SdbScan

def magicOf (bytes : List UInt8) : Nat := BigEndian.decode (bytes.take 4)

def recordsOf (bytes : List UInt8) : Nat := BigEndian.decode ((bytes.drop 4).take 2)

/-- The table in a buffer whose header says it has `records` records. -/
def tableOf (host : Host) (busBase : UInt64) (records : Nat) (bytes : List UInt8) : SdbTable :=
  ⟨decodeInterconnect host busBase bytes, (List.range (records - 1)).map fun i =>
    decodeRecord host busBase ((bytes.drop (64 * (i + 1))).take 64)⟩

theorem fieldAt_eq (host : Host) {bytes : List UInt8} {offset width : Nat} (inside : offset + width ≤ bytes.length) :
    fieldAt host bytes offset width = BigEndian.decode ((bytes.drop offset).take width) := by
  have length : ((bytes.drop offset).take width).length = width := by
    rw [List.length_take, List.length_drop]
    omega
  have loaded := host.swap_load ((bytes.drop offset).take width)
  rw [length] at loaded
  rw [fieldAt, loaded]

theorem fieldAt_magic (host : Host) {bytes : List UInt8} (long : 8 ≤ bytes.length) :
    fieldAt host bytes 0 4 = magicOf bytes := by
  rw [fieldAt_eq host (by omega), List.drop_zero, magicOf]

theorem fieldAt_records (host : Host) {bytes : List UInt8} (long : 8 ≤ bytes.length) :
    fieldAt host bytes 4 2 = recordsOf bytes :=
  fieldAt_eq host (by omega)

theorem magicOf_lt (bytes : List UInt8) : magicOf bytes < 2 ^ 32 := by
  have below := BigEndian.decode_lt (bytes.take 4)
  have short : (bytes.take 4).length ≤ 4 := List.length_take_le 4 bytes
  calc magicOf bytes < 256 ^ (bytes.take 4).length := below
    _ ≤ 256 ^ 4 := Nat.pow_le_pow_right (by decide) short
    _ = 2 ^ 32 := by decide

theorem recordsOf_lt (bytes : List UInt8) : recordsOf bytes < 2 ^ 16 := by
  have below := BigEndian.decode_lt ((bytes.drop 4).take 2)
  have short : ((bytes.drop 4).take 2).length ≤ 2 := List.length_take_le 2 _
  calc recordsOf bytes < 256 ^ ((bytes.drop 4).take 2).length := below
    _ ≤ 256 ^ 2 := Nat.pow_le_pow_right (by decide) short
    _ = 2 ^ 16 := by decide

theorem magicOf_append {bytes : List UInt8} (long : 8 ≤ bytes.length) (rest : List UInt8) :
    magicOf (bytes ++ rest) = magicOf bytes := by
  rw [magicOf, List.take_append_of_le_length (by omega), magicOf]

theorem recordsOf_append {bytes : List UInt8} (long : 8 ≤ bytes.length) (rest : List UInt8) :
    recordsOf (bytes ++ rest) = recordsOf bytes := by
  rw [recordsOf, List.drop_append_of_le_length (by omega),
    List.take_append_of_le_length (by rw [List.length_drop]; omega), recordsOf]

theorem recordsOf_take {bytes : List UInt8} {length : Nat} (long : 8 ≤ length) :
    recordsOf (bytes.take length) = recordsOf bytes := by
  rw [recordsOf, List.drop_take, List.take_take, Nat.min_eq_left (by omega), recordsOf]

theorem fillBlock_clean {filled room : List UInt8} {ops : List Operation}
    (zero : (ebSdbFillBlock filled room ops).1 = 0) : ∀ op ∈ ops, op.error = false := by
  induction ops generalizing filled room with
  | nil => simp
  | cons op ops ih =>
    rw [ebSdbFillBlock] at zero
    split_ifs at zero with failed beyond
    · exact absurd zero (by simp)
    · exact absurd zero (by simp)
    · intro other member
      rcases List.mem_cons.mp member with rfl | later
      · exact Bool.eq_false_iff.mpr failed
      · exact ih zero other later

/-- The buffer that is chosen for a number of devices. -/
def bufferSize (devices : Nat) : Option Nat :=
  if devices < 4 then some (decodeSize 4)
  else if devices < 8 then some (decodeSize 8)
  else if devices < 16 then some (decodeSize 16)
  else if devices < 32 then some (decodeSize 32)
  else if devices < 64 then some (decodeSize 64)
  else if devices < 128 then some (decodeSize 128)
  else if devices < 256 then some (decodeSize 256)
  else none

theorem bufferSize_room {devices size : Nat} (chosen : bufferSize devices = some size) :
    64 * (devices + 1) ≤ size ∧ 64 ∣ size := by
  unfold bufferSize at chosen
  split_ifs at chosen <;> obtain rfl := Option.some.inj chosen <;> simp only [decodeSize] <;> omega

theorem bufferSize_some {devices : Nat} : (bufferSize devices).isSome = true ↔ devices < 256 := by
  unfold bufferSize
  split_ifs <;> simp <;> omega

theorem gotAll_eq (host : Host) (stack : Stack) (busBase : UInt64) (ops : List Operation) :
    ebSdbGotAll host stack busBase ops .ok =
      if (ebSdbFillBlock [] (buffer stack 64) ops).1 ≠ 1 then .callback none .fail
      else
        match bufferSize (UInt16.ofNat (fieldAt host (ebSdbFillBlock [] (buffer stack 64) ops).2 4 2) - 1).toNat with
        | none => .callback none .oom
        | some size => ebSdbDecode host stack busBase size ops := by
  unfold ebSdbGotAll bufferSize
  simp only [ne_eq, not_true_eq_false, if_false]
  split_ifs <;> rfl

section
variable {p : Port} {ops : List Operation} {bytes : List UInt8}

theorem data_dvd (p : Port) {length : Nat} (whole : 8 ∣ length) : p.data ∣ length := by
  have divides : p.data ∣ 8 := by rcases p.data_size with h | h | h | h <;> rw [h] <;> decide
  exact dvd_trans divides whole

theorem gotHeader_spells (host : Host) (stack : Stack) (spells : Spells p.data ops bytes) (length : bytes.length = 32)
    {address : Nat} (first : ops.head?.map Operation.address = some address) :
    ebSdbGotHeader p host stack .ok ops .ok =
      if magicOf bytes ≠ sdbMagic.toNat then .callback none .fail
      else .cycle .all (readLoop p false address ((address + 64 * recordsOf bytes) % p.wordMod)) := by
  have filled := fillBlock_fits spells [] (buffer stack 64) (by rw [length_buffer]; omega)
  rw [List.nil_append] at filled
  have long : 8 ≤ (bytes ++ (buffer stack 64).drop bytes.length).length := by
    rw [List.length_append]
    omega
  have magic : UInt32.ofNat (magicOf bytes) ≠ sdbMagic ↔ magicOf bytes ≠ sdbMagic.toNat := by
    apply not_congr
    rw [← UInt32.toNat_inj, UInt32.toNat_ofNat', Nat.mod_eq_of_lt (magicOf_lt bytes)]
  have shifted : recordsOf bytes <<< 6 = 64 * recordsOf bytes := by rw [Nat.shiftLeft_eq]; ring
  unfold ebSdbGotHeader
  rw [filled]
  simp only [ne_eq, not_true_eq_false, if_false, first, Option.getD_some]
  rw [fieldAt_magic host long, fieldAt_records host long, magicOf_append (by omega),
    recordsOf_append (by omega), shifted]
  exact if_congr magic rfl rfl

theorem decode_spells (host : Host) (stack : Stack) (busBase : UInt64) (spells : Spells p.data ops bytes)
    (long : 64 < bytes.length) {size : Nat} (whole : 64 ∣ size) (room : 64 * recordsOf bytes ≤ size) :
    ebSdbDecode host stack busBase size ops =
      if size < bytes.length then .callback none .fail
      else .callback (some (tableOf host busBase (recordsOf bytes)
        (bytes ++ (buffer stack size).drop bytes.length))) .ok := by
  unfold ebSdbDecode
  by_cases small : size < bytes.length
  · have filled := fillBlock_full spells [] (buffer stack size)
      (by rw [length_buffer]; exact data_dvd p (dvd_trans (by decide) whole)) (by rw [length_buffer]; exact small)
    rw [filled, if_pos small]
    rfl
  · have filled := fillBlock_fits spells [] (buffer stack size) (by rw [length_buffer]; omega)
    rw [List.nil_append] at filled
    have records : ∀ rest, (decodeInterconnect host busBase (bytes ++ rest)).sdbRecords.toNat = recordsOf bytes := by
      intro rest
      rw [decodeInterconnect, fieldAt_records host (by rw [List.length_append]; omega), recordsOf_append (by omega),
        UInt16.toNat_ofNat', Nat.mod_eq_of_lt (recordsOf_lt bytes)]
    rw [filled, if_neg small]
    simp only [records, ne_eq, not_true_eq_false, if_false]
    rw [if_neg (by omega)]
    rfl

theorem gotAll_spells (host : Host) (stack : Stack) (busBase : UInt64) (spells : Spells p.data ops bytes) :
    ebSdbGotAll host stack busBase ops .ok =
      if bytes.length ≤ 64 then .callback none .fail
      else
        match bufferSize (UInt16.ofNat (recordsOf bytes) - 1).toNat with
        | none => .callback none .oom
        | some size =>
          if size < bytes.length then .callback none .fail
          else .callback (some (tableOf host busBase (recordsOf bytes)
            (bytes ++ (buffer stack size).drop bytes.length))) .ok := by
  rw [gotAll_eq]
  by_cases short : bytes.length ≤ 64
  · have filled := fillBlock_fits spells [] (buffer stack 64) (by rw [length_buffer]; exact short)
    rw [filled, if_pos short]
    rfl
  · have filled := fillBlock_full spells [] (buffer stack 64) (by rw [length_buffer]; exact data_dvd p (by decide))
      (by rw [length_buffer]; omega)
    rw [List.nil_append, length_buffer] at filled
    rw [filled, if_neg short, if_neg (by simp)]
    simp only
    rw [fieldAt_records host (by rw [List.length_take]; omega), recordsOf_take (by decide)]
    cases chosen : bufferSize (UInt16.ofNat (recordsOf bytes) - 1).toNat with
    | none => rfl
    | some size =>
      obtain ⟨room, whole⟩ := bufferSize_room chosen
      have below := recordsOf_lt bytes
      have count : recordsOf bytes ≤ (UInt16.ofNat (recordsOf bytes) - 1).toNat + 1 := by
        rw [UInt16.toNat_sub, UInt16.toNat_ofNat', Nat.mod_eq_of_lt below]
        change recordsOf bytes ≤ (2 ^ 16 - 1 + recordsOf bytes) % 2 ^ 16 + 1
        omega
      simp only
      exact decode_spells host stack busBase spells (by omega) whole (by omega)

theorem fieldAt_append (host : Host) {offset width : Nat} (inside : offset + width ≤ bytes.length) (rest : List UInt8) :
    fieldAt host (bytes ++ rest) offset width = fieldAt host bytes offset width := by
  rw [fieldAt_eq host (by rw [List.length_append]; omega), fieldAt_eq host inside,
    List.drop_append_of_le_length (by omega), List.take_append_of_le_length (by rw [List.length_drop]; omega)]

theorem decodeProduct_append (host : Host) (long : 40 ≤ bytes.length) (rest : List UInt8) :
    decodeProduct host (bytes ++ rest) = decodeProduct host bytes := by
  have name : (fun i : Fin 19 => ((bytes ++ rest).drop 20).getD i 0) = fun i : Fin 19 => (bytes.drop 20).getD i 0 := by
    funext i
    rw [List.drop_append_of_le_length (by omega), List.getD_append _ _ _ _ (by rw [List.length_drop]; omega)]
  rw [decodeProduct, decodeProduct, name, List.getD_append _ _ _ _ (by omega)]
  simp (disch := omega) only [fieldAt_append]

theorem decodeInterconnect_append (host : Host) (busBase : UInt64) (long : 64 ≤ bytes.length) (rest : List UInt8) :
    decodeInterconnect host busBase (bytes ++ rest) = decodeInterconnect host busBase bytes := by
  have component : decodeComponent host busBase ((bytes ++ rest).drop 8) =
    decodeComponent host busBase (bytes.drop 8) := by
    have length : (bytes.drop 8).length = bytes.length - 8 := List.length_drop
    have product : ((bytes.drop 8).drop 16).length = bytes.length - 8 - 16 := by rw [List.length_drop, length]
    rw [List.drop_append_of_le_length (by omega), decodeComponent, decodeComponent,
      List.drop_append_of_le_length (by omega), decodeProduct_append host (by omega), fieldAt_append host (by omega),
      fieldAt_append host (by omega)]
  rw [decodeInterconnect, decodeInterconnect, component, fieldAt_append host (by omega), fieldAt_append host (by omega),
    List.getD_append _ _ _ _ (by omega), List.getD_append _ _ _ _ (by omega)]

theorem bufferSize_records {records : Nat} (below : records < 2 ^ 16) :
    (bufferSize (UInt16.ofNat records - 1).toNat).isSome = true ↔ 1 ≤ records ∧ records ≤ 256 := by
  rw [bufferSize_some, UInt16.toNat_sub, UInt16.toNat_ofNat', Nat.mod_eq_of_lt below]
  change (2 ^ 16 - 1 + records) % 2 ^ 16 < 256 ↔ _
  omega

theorem tableOf_append (host : Host) (busBase : UInt64) {records : Nat} (some : 1 ≤ records)
    (covered : 64 * records ≤ bytes.length) (rest : List UInt8) :
    tableOf host busBase records (bytes ++ rest) = tableOf host busBase records bytes := by
  rw [tableOf, tableOf, decodeInterconnect_append host busBase (by omega)]
  congr 1
  apply List.map_congr_left
  intro i member
  have inside := List.mem_range.mp member
  rw [List.drop_append_of_le_length (by omega), List.take_append_of_le_length (by rw [List.length_drop]; omega)]

end

/-- The reply to one cycle: a value and an error bit for every read, and the status the
callback gets. -/
structure Reply where
  value : Nat → Nat
  error : Nat → Bool
  status : Status

def Reply.answered (p : Port) (reply : Reply) (ops : List Operation) : List Operation :=
  ops.mapIdx fun i op => { op with unValue := reply.value i, error := reply.error i, format := UInt8.ofNat p.data }

def Reply.bytes (p : Port) (reply : Reply) (length : Nat) : List UInt8 :=
  (List.range (length / p.data)).flatMap fun i => BigEndian.encode p.data (reply.value i)

def bytesRead (ops : List Operation) : Nat := (ops.map Operation.size).sum

def headerCycle (p : Port) (child : Nat) : List Operation := readLoop p false child ((child + 32) % p.wordMod)

/-- A scan of the bus at `child`, from the reply to the header cycle to the call of the user. -/
def scanned (p : Port) (host : Host) (stack : Stack) (busBase : UInt64) (child : Nat)
    (first second : Reply) : Outcome :=
  match ebSdbGotHeader p host stack .ok (first.answered p (headerCycle p child)) first.status with
  | .cycle _ ops => ebSdbGotAll host stack busBase (second.answered p ops) second.status
  | outcome => outcome

/-- Only what the second cycle read is reported: it covers the records of the table, and the
stack before the call makes no difference. -/
structure ReportsRead (p : Port) (host : Host) (busBase : UInt64) (child : Nat) (first second : Reply) : Prop where
  covered : ∀ stack phase ops table,
    ebSdbGotHeader p host stack .ok (first.answered p (headerCycle p child)) first.status = .cycle phase ops →
      ebSdbGotAll host stack busBase (second.answered p ops) second.status = .callback (some table) .ok →
        64 * table.interconnect.sdbRecords.toNat ≤ bytesRead (second.answered p ops)
  same : ∀ stack stack' table, scanned p host stack busBase child first second = .callback (some table) .ok →
    scanned p host stack' busBase child first second = .callback (some table) .ok

def asked (p : Port) (child : Nat) (first : Reply) : Nat :=
  (child + 64 * recordsOf (first.bytes p 32)) % p.wordMod - child

/-- Both cycles come back whole, with a header and at least one record. -/
structure Whole (p : Port) (child : Nat) (first second : Reply) : Prop where
  first_ok : first.status = .ok
  first_clean : ∀ i < 32 / p.data, first.error i = false
  magic : magicOf (first.bytes p 32) = sdbMagic.toNat
  second_ok : second.status = .ok
  second_clean : ∀ i < asked p child first / p.data, second.error i = false
  more : 64 < asked p child first
  few : recordsOf (second.bytes p (asked p child first)) ≤ 256

/-- The second header promises more records than the first one made the scan ask for. -/
structure Overstated (p : Port) (child : Nat) (first second : Reply) : Prop extends Whole p child first second where
  beyond : asked p child first < 64 * recordsOf (second.bytes p (asked p child first))

section
variable (p : Port) (host : Host) (stack : Stack) (busBase : UInt64) (child : Nat) (first second : Reply)

theorem asked_whole : 64 ∣ asked p child first := by
  have large : 64 ∣ p.wordMod := by
    rw [Port.wordMod]
    apply dvd_trans (by decide : 64 ∣ 2 ^ 16)
    apply Nat.pow_dvd_pow
    rcases p.word_size with h | h | h <;> omega
  obtain ⟨k, words⟩ := large
  have split := Nat.div_add_mod (child + 64 * recordsOf (first.bytes p 32)) p.wordMod
  rw [asked]
  generalize (child + 64 * recordsOf (first.bytes p 32)) % p.wordMod = stop at split ⊢
  generalize (child + 64 * recordsOf (first.bytes p 32)) / p.wordMod = turns at split
  by_cases before : stop ≤ child
  · rw [Nat.sub_eq_zero_of_le before]
    exact dvd_zero 64
  · have difference : stop - child + 64 * (k * turns) = 64 * recordsOf (first.bytes p 32) := by
      have regroup : 64 * (k * turns) = p.wordMod * turns := by rw [words, Nat.mul_assoc]
      omega
    exact (Nat.dvd_add_left (dvd_mul_right 64 _)).mp (difference ▸ dvd_mul_right 64 _)

theorem answered_loop (reply : Reply) (address count : Nat) :
    reply.answered p (readLoop p false address (address + p.data * count)) = (List.range count).map fun i =>
      ⟨address + p.data * i, reply.value i, .readVal, false, reply.error i, false, UInt8.ofNat p.data⟩ := by
  rw [readLoop_eq, Reply.answered]
  apply List.ext_getElem
  · simp
  · intro i _ _
    simp [readOp]

theorem answered_size (reply : Reply) (ops : List Operation) : ∀ op ∈ reply.answered p ops, op.size = p.data := by
  intro op member
  obtain ⟨i, short, rfl⟩ := List.mem_mapIdx.mp member
  exact (readBack_size p false 0 0).1

theorem answered_spells (reply : Reply) (address count : Nat) (clean : ∀ i < count, reply.error i = false) :
    Spells p.data (reply.answered p (readLoop p false address (address + p.data * count)))
      (reply.bytes p (p.data * count)) := by
  have words : p.data * count / p.data = count := Nat.mul_div_cancel_left count p.data_pos
  refine ⟨?_, answered_size p reply _, ?_⟩
  · intro op member
    rw [answered_loop] at member
    obtain ⟨i, short, rfl⟩ := List.mem_map.mp member
    exact clean i (List.mem_range.mp short)
  · rw [answered_loop, Reply.bytes, words, List.flatMap_map]

theorem length_bytes (reply : Reply) {length : Nat} (whole : p.data ∣ length) :
    (reply.bytes p length).length = length := by
  rw [Reply.bytes, List.length_flatMap]
  simp only [BigEndian.length_encode, List.map_const', List.sum_replicate_nat, List.length_range]
  exact Nat.div_mul_cancel whole

theorem bytesRead_answered (reply : Reply) (ops : List Operation) :
    bytesRead (reply.answered p ops) = p.data * ops.length := by
  have sizes : (reply.answered p ops).map Operation.size = List.replicate ops.length p.data := by
    apply List.eq_replicate_iff.mpr
    constructor
    · rw [List.length_map, Reply.answered, List.length_mapIdx]
    · intro size member
      obtain ⟨op, listed, rfl⟩ := List.mem_map.mp member
      exact answered_size p reply ops op listed
  rw [bytesRead, sizes, List.sum_replicate_nat, Nat.mul_comm]

theorem loop_span {address stop : Nat} (whole : p.data ∣ stop - address) :
    readLoop p false address stop = readLoop p false address (address + p.data * ((stop - address) / p.data)) := by
  have span : address + p.data * ((stop - address) / p.data) - address = stop - address := by
    rw [Nat.add_sub_cancel_left, Nat.mul_div_cancel' whole]
  rw [readLoop, readLoop, span]

theorem length_loop {address stop : Nat} (whole : p.data ∣ stop - address) :
    p.data * (readLoop p false address stop).length = stop - address := by
  rw [loop_span p whole, readLoop_eq, List.length_map, List.length_range, Nat.mul_div_cancel' whole]

theorem headerCycle_eq (header : child + 32 < p.wordMod) :
    headerCycle p child = readLoop p false child (child + p.data * (32 / p.data)) := by
  rw [headerCycle, Nat.mod_eq_of_lt header, data_mul_div p (by decide)]

theorem gotHeader_answered (header : child + 32 < p.wordMod) (clean : ∀ i < 32 / p.data, first.error i = false) :
    ebSdbGotHeader p host stack .ok (first.answered p (headerCycle p child)) .ok =
      if magicOf (first.bytes p 32) ≠ sdbMagic.toNat then .callback none .fail
      else .cycle .all (readLoop p false child ((child + 64 * recordsOf (first.bytes p 32)) % p.wordMod)) := by
  have spells := answered_spells p first child (32 / p.data) clean
  rw [← headerCycle_eq p child header, data_mul_div p (by decide)] at spells
  have words : 0 < 32 / p.data := Nat.div_pos (by have := p.data_le_eight; omega) p.data_pos
  obtain ⟨count, count_eq⟩ := Nat.exists_eq_succ_of_ne_zero words.ne'
  have found : (first.answered p (headerCycle p child)).head?.map Operation.address = some child := by
    rw [headerCycle_eq p child header, answered_loop, count_eq, List.range_succ_eq_map]
    rfl
  exact gotHeader_spells host stack spells (length_bytes p first (data_dvd p (by decide))) found

def tableCycle : List Operation := readLoop p false child ((child + 64 * recordsOf (first.bytes p 32)) % p.wordMod)

theorem asked_words : p.data ∣ asked p child first := data_dvd p (dvd_trans (by decide) (asked_whole p child first))

theorem tableCycle_eq :
    tableCycle p child first = readLoop p false child (child + p.data * (asked p child first / p.data)) :=
  loop_span p (asked_words p child first)

variable {p host stack busBase child first second}

theorem gotHeader_none {opened : Status} {ops : List Operation} {status status' : Status} {sdb : Option SdbTable}
    (called : ebSdbGotHeader p host stack opened ops status = .callback sdb status') : sdb = none := by
  unfold ebSdbGotHeader at called
  simp only at called
  split_ifs at called
  all_goals exact (Outcome.callback.inj called).1.symm

theorem gotHeader_cycle (header : child + 32 < p.wordMod) {phase : Phase} {ops : List Operation}
    (opened : ebSdbGotHeader p host stack .ok (first.answered p (headerCycle p child)) first.status =
      .cycle phase ops) :
    first.status = .ok ∧ (∀ i < 32 / p.data, first.error i = false) ∧
      magicOf (first.bytes p 32) = sdbMagic.toNat ∧ ops = tableCycle p child first := by
  have status : first.status = .ok := by
    by_contra bad
    rw [ebSdbGotHeader, if_pos bad] at opened
    cases opened
  have clean : ∀ i < 32 / p.data, first.error i = false := by
    have zero : (ebSdbFillBlock [] (buffer stack 64) (first.answered p (headerCycle p child))).1 = 0 := by
      by_contra bad
      unfold ebSdbGotHeader at opened
      rw [if_neg (by simp [status])] at opened
      simp only [if_pos bad] at opened
      cases opened
    intro i short
    apply fillBlock_clean zero ⟨child + p.data * i, first.value i, .readVal, false, first.error i,
      false, UInt8.ofNat p.data⟩
    rw [headerCycle_eq p child header, answered_loop]
    exact List.mem_map.mpr ⟨i, List.mem_range.mpr short, rfl⟩
  rw [status, gotHeader_answered p host stack child first header clean] at opened
  split_ifs at opened with magic
  exact ⟨status, clean, not_not.mp magic, (Outcome.cycle.inj opened).2.symm⟩

theorem gotAll_clean {table : SdbTable}
    (called : ebSdbGotAll host stack busBase (second.answered p (tableCycle p child first)) second.status =
      .callback (some table) .ok) :
    second.status = .ok ∧ ∀ i < asked p child first / p.data, second.error i = false := by
  have status : second.status = .ok := by
    by_contra bad
    rw [ebSdbGotAll, if_pos bad] at called
    cases called
  refine ⟨status, ?_⟩
  rw [status, gotAll_eq] at called
  split_ifs at called
  · cases called
  split at called
  · cases called
  next size _ =>
    have zero : (ebSdbFillBlock [] (buffer stack size) (second.answered p (tableCycle p child first))).1 = 0 := by
      by_contra bad
      unfold ebSdbDecode at called
      simp only [if_pos bad] at called
      cases called
    intro i short
    apply fillBlock_clean zero ⟨child + p.data * i, second.value i, .readVal, false, second.error i,
      false, UInt8.ofNat p.data⟩
    rw [tableCycle_eq, answered_loop]
    exact List.mem_map.mpr ⟨i, List.mem_range.mpr short, rfl⟩

theorem gotAll_answered (status : second.status = .ok)
    (clean : ∀ i < asked p child first / p.data, second.error i = false) :
    ebSdbGotAll host stack busBase (second.answered p (tableCycle p child first)) second.status =
      if asked p child first ≤ 64 then .callback none .fail
      else
        match bufferSize (UInt16.ofNat (recordsOf (second.bytes p (asked p child first))) - 1).toNat with
        | none => .callback none .oom
        | some size =>
          if size < asked p child first then .callback none .fail
          else .callback (some (tableOf host busBase (recordsOf (second.bytes p (asked p child first)))
            (second.bytes p (asked p child first) ++ (buffer stack size).drop (asked p child first)))) .ok := by
  have whole := asked_words p child first
  have spells := answered_spells p second child (asked p child first / p.data) clean
  rw [← tableCycle_eq, Nat.mul_div_cancel' whole] at spells
  have called := gotAll_spells host stack busBase spells
  rw [length_bytes p second whole] at called
  rw [status, called]

theorem scanned_some (header : child + 32 < p.wordMod) {table : SdbTable}
    (called : scanned p host stack busBase child first second = .callback (some table) .ok) :
    Whole p child first second ∧ 1 ≤ recordsOf (second.bytes p (asked p child first)) ∧
      ∃ size, bufferSize (UInt16.ofNat (recordsOf (second.bytes p (asked p child first))) - 1).toNat = some size ∧
        asked p child first ≤ size ∧
        table = tableOf host busBase (recordsOf (second.bytes p (asked p child first)))
          (second.bytes p (asked p child first) ++ (buffer stack size).drop (asked p child first)) := by
  unfold scanned at called
  split at called
  next phase ops opened =>
    obtain ⟨firstOk, firstClean, magic, rfl⟩ := gotHeader_cycle header opened
    obtain ⟨secondOk, secondClean⟩ := gotAll_clean called
    rw [gotAll_answered secondOk secondClean] at called
    split_ifs at called with short
    · cases called
    split at called
    · cases called
    next size chosen =>
      split_ifs at called with small
      · cases called
      obtain ⟨some, few⟩ := (bufferSize_records (recordsOf_lt _)).mp (Option.isSome_iff_exists.mpr ⟨size, chosen⟩)
      refine ⟨⟨firstOk, firstClean, magic, secondOk, secondClean, by omega, few⟩, some, size, chosen, by omega, ?_⟩
      exact (Option.some.inj (Outcome.callback.inj called).1).symm
  next => exact absurd (gotHeader_none called) (by simp)

variable (host busBase) in
theorem scanned_whole (stack : Stack) (header : child + 32 < p.wordMod)
    (whole : Whole p child first second) {size : Nat}
    (chosen : bufferSize (UInt16.ofNat (recordsOf (second.bytes p (asked p child first))) - 1).toNat = some size)
    (room : asked p child first ≤ size) :
    ebSdbGotHeader p host stack .ok (first.answered p (headerCycle p child)) first.status =
        .cycle .all (tableCycle p child first) ∧
      ebSdbGotAll host stack busBase (second.answered p (tableCycle p child first)) second.status =
        .callback (some (tableOf host busBase (recordsOf (second.bytes p (asked p child first)))
          (second.bytes p (asked p child first) ++ (buffer stack size).drop (asked p child first)))) .ok := by
  have more := whole.more
  constructor
  · rw [whole.first_ok, gotHeader_answered p host stack child first header whole.first_clean,
      if_neg (not_not.mpr whole.magic)]
    rfl
  · rw [gotAll_answered whole.second_ok whole.second_clean, if_neg (by omega), chosen]
    simp only
    rw [if_neg (by omega)]

theorem tableOf_records (host : Host) (busBase : UInt64) (records : Nat) {bytes : List UInt8} (long : 8 ≤ bytes.length)
    (rest : List UInt8) :
    (tableOf host busBase records (bytes ++ rest)).interconnect.sdbRecords.toNat = recordsOf bytes := by
  rw [tableOf, decodeInterconnect, fieldAt_records host (by rw [List.length_append]; omega), recordsOf_append long,
    UInt16.toNat_ofNat', Nat.mod_eq_of_lt (recordsOf_lt bytes)]

theorem Overstated.chosen (overstated : Overstated p child first second) :
    ∃ size, bufferSize (UInt16.ofNat (recordsOf (second.bytes p (asked p child first))) - 1).toNat = some size ∧
      64 * recordsOf (second.bytes p (asked p child first)) ≤ size := by
  have beyond := overstated.beyond
  have more := overstated.more
  have few := overstated.few
  obtain ⟨size, chosen⟩ := Option.isSome_iff_exists.mp ((bufferSize_records (recordsOf_lt _)).mpr ⟨by omega, few⟩)
  obtain ⟨room, _⟩ := bufferSize_room chosen
  refine ⟨size, chosen, ?_⟩
  rw [UInt16.toNat_sub, UInt16.toNat_ofNat', Nat.mod_eq_of_lt (recordsOf_lt _)] at room
  change 64 * ((2 ^ 16 - 1 + _) % 2 ^ 16 + 1) ≤ size at room
  omega

theorem Whole.long (whole : Whole p child first second) : 64 < (second.bytes p (asked p child first)).length := by
  rw [length_bytes p second (asked_words p child first)]
  exact whole.more

theorem bytesRead_table : bytesRead (second.answered p (tableCycle p child first)) = asked p child first := by
  rw [bytesRead_answered, tableCycle, length_loop p (asked_words p child first), asked]

theorem Overstated.not_reportsRead (header : child + 32 < p.wordMod) (overstated : Overstated p child first second) :
    ¬ ReportsRead p host busBase child first second := by
  intro reports
  obtain ⟨size, chosen, room⟩ := overstated.chosen
  have beyond := overstated.beyond
  have long := overstated.toWhole.long
  obtain ⟨opened, called⟩ := scanned_whole host busBase (fun _ => 0) header overstated.toWhole chosen
    (by omega)
  have covered := reports.covered _ _ _ _ opened called
  rw [tableOf_records host busBase _ (by omega), bytesRead_table] at covered
  omega

variable (host busBase) in
theorem Overstated.last_record (header : child + 32 < p.wordMod)
    (overstated : Overstated p child first second) (byte : UInt8)
    (unknown : byte ≠ sdbRecordDevice ∧ byte ≠ sdbRecordBridge ∧ byte ≠ sdbRecordIntegration) :
    ∃ table, scanned p host (fun _ => byte) busBase child first second = .callback (some table) .ok ∧
      table.record.getLast? = some (.untouched (List.replicate 64 byte)) := by
  obtain ⟨size, chosen, room⟩ := overstated.chosen
  have beyond := overstated.beyond
  have more := overstated.more
  have length := length_bytes p second (asked_words p child first)
  obtain ⟨blocks, whole⟩ := asked_whole p child first
  obtain ⟨opened, called⟩ := scanned_whole host busBase (fun _ => byte) header overstated.toWhole chosen
    (by omega)
  obtain ⟨last, records⟩ : ∃ last, recordsOf (second.bytes p (asked p child first)) = last + 2 :=
    Nat.exists_eq_add_of_le' (by omega)
  have block : ((second.bytes p (asked p child first) ++ (buffer (fun _ => byte) size).drop (asked p child first)).drop
      (64 * (last + 1))).take 64 = List.replicate 64 byte := by
    have stack : buffer (fun _ => byte) size = List.replicate size byte := by
      rw [buffer, List.map_const', List.length_range]
    rw [List.drop_append, List.drop_eq_nil_of_le (by omega), List.nil_append, stack, List.drop_replicate,
      List.drop_replicate, List.take_replicate]
    congr 1
    omega
  have scan : scanned p host (fun _ => byte) busBase child first second =
      .callback (some (tableOf host busBase (last + 2) (second.bytes p (asked p child first) ++
        (buffer (fun _ => byte) size).drop (asked p child first)))) .ok := by
    rw [scanned, opened, ← records]
    exact called
  have decoded : decodeRecord host busBase (List.replicate 64 byte) = .untouched (List.replicate 64 byte) := by
    have type : (List.replicate 64 byte).getD 63 0 = byte := rfl
    rw [decodeRecord, type]
    simp only [if_neg unknown.1, if_neg unknown.2.1, if_neg unknown.2.2]
  refine ⟨_, scan, ?_⟩
  rw [tableOf, show last + 2 - 1 = last + 1 by omega, List.range_succ, List.map_append, List.map_singleton,
    List.getLast?_append_of_ne_nil _ (by simp), List.getLast?_singleton, block, decoded]

/-- A scan reports bytes it did not read exactly when the second header promises more than the
first one. -/
theorem reportsRead_iff (header : child + 32 < p.wordMod) :
    ReportsRead p host busBase child first second ↔ ¬ Overstated p child first second := by
  constructor
  · intro reports overstated
    exact overstated.not_reportsRead header reports
  · intro honest
    have enough : ∀ whole : Whole p child first second,
        64 * recordsOf (second.bytes p (asked p child first)) ≤ asked p child first := by
      intro whole
      by_contra beyond
      exact honest ⟨whole, by omega⟩
    constructor
    · intro stack phase ops table opened called
      have scan : scanned p host stack busBase child first second = .callback (some table) .ok := by
        rw [scanned, opened]
        exact called
      obtain ⟨whole, _, size, _, _, rfl⟩ := scanned_some header scan
      obtain ⟨_, _, _, rfl⟩ := gotHeader_cycle header opened
      have long := whole.long
      rw [tableOf_records host busBase _ (by omega), bytesRead_table]
      exact enough whole
    · intro stack stack' table scan
      obtain ⟨whole, some, size, chosen, room, rfl⟩ := scanned_some header scan
      obtain ⟨opened, called⟩ := scanned_whole host busBase stack' header whole chosen room
      have covered : 64 * recordsOf (second.bytes p (asked p child first)) ≤
          (second.bytes p (asked p child first)).length := by
        rw [length_bytes p second (asked_words p child first)]
        exact enough whole
      rw [scanned, opened]
      simp only
      rw [called, tableOf_append host busBase some covered, tableOf_append host busBase some covered]

end

def headerReply (records : Nat) : Reply :=
  ⟨fun i => if i = 0 then 0x5344422d else if i = 1 then records <<< 16 else 0, fun _ => false, .ok⟩

theorem overstated_example : Overstated .wishbone32 0 (headerReply 2) (headerReply 3) :=
  ⟨⟨rfl, by decide, by decide +kernel, rfl, by decide +kernel, by decide +kernel, by decide +kernel⟩, by decide +kernel⟩

theorem not_reportsRead_grown :
    ¬ ReportsRead .wishbone32 .little 0 0 (headerReply 2) (headerReply 3) ∧
      ∃ table table', scanned .wishbone32 .little (fun _ => 0xa5) 0 0 (headerReply 2) (headerReply 3) =
        .callback (some table) .ok ∧
        table.record.getLast? = some (.untouched (List.replicate 64 0xa5)) ∧
        scanned .wishbone32 .little (fun _ => 0x5a) 0 0 (headerReply 2) (headerReply 3) = .callback (some table') .ok ∧
        table'.record.getLast? = some (.untouched (List.replicate 64 0x5a)) := by
  obtain ⟨table, called, last⟩ := overstated_example.last_record .little 0 (by decide) 0xa5 (by decide)
  obtain ⟨table', called', last'⟩ := overstated_example.last_record .little 0 (by decide) 0x5a (by decide)
  exact ⟨overstated_example.not_reportsRead (by decide), table, table', called, last, called', last'⟩

theorem reportsRead_iff_example :
    ReportsRead .wishbone32 .little 0 0 (headerReply 3) (headerReply 3) ↔
      ¬ Overstated .wishbone32 0 (headerReply 3) (headerReply 3) :=
  reportsRead_iff (by decide)

end BelProject.Etherbone.SdbReplies
