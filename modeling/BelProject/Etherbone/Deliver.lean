import BelProject.Etherbone.SlaveSafety

/-! Parsing what was formatted. The record `eb_device_slave` finds in its buffer is the one
that was encoded, so a delivery of whole cycles is executed record by record, and its
reply is the encoding of the reply records. -/

namespace BelProject.Etherbone.Deliver
open BelProject.Library Memory Width Wire Execute Slave InPlace Refill SlaveSafety

section
variable (p : Port)

/-- A record without the base addresses that are not transmitted. -/
def trim (r : Record) : Record :=
  { r with
    bwa := if r.writes.length > 0 then r.bwa else 0
    bra := if r.reads.length > 0 then r.bra else 0 }

theorem words_encoded (m : Mem) (offset : Nat) (values : List Nat) (fits : ∀ value ∈ values, value < 256 ^ p.alignment)
    (known : slice m offset (values.length * p.alignment) = values.flatMap (BigEndian.encode p.alignment)) :
    words p m offset values.length = values := by
  induction values generalizing offset with
  | nil => rfl
  | cons value values ih =>
    rw [List.flatMap_cons] at known
    obtain ⟨first, rest⟩ := slice_eq_append known
    rw [BigEndian.length_encode] at first rest
    rw [Record.length_flatMap_encode] at rest
    simp only [List.length_cons, words]
    rw [first, BigEndian.decode_encode_of_lt (fits value List.mem_cons_self),
      ih (offset + p.alignment) (fun other member => fits other (List.mem_cons_of_mem _ member)) rest]

theorem block_encoded (m : Mem) (offset base : Nat) (values : List Nat) (baseFits : base < 256 ^ p.alignment)
    (fits : ∀ value ∈ values, value < 256 ^ p.alignment)
    (known : slice m offset (Record.block p base values).length = Record.block p base values) :
    (if values.length > 0 then BigEndian.decode (slice m offset p.alignment) else 0) =
        (if values.length > 0 then base else 0) ∧
      words p m (offset + p.alignment) values.length = values := by
  cases values with
  | nil => exact ⟨rfl, rfl⟩
  | cons value values =>
    have unfolded : Record.block p base (value :: values) =
        BigEndian.encode p.alignment base ++ (value :: values).flatMap (BigEndian.encode p.alignment) := rfl
    rw [unfolded] at known
    obtain ⟨first, rest⟩ := slice_eq_append known
    rw [BigEndian.length_encode] at first rest
    rw [Record.length_flatMap_encode] at rest
    refine ⟨?_, words_encoded p m _ _ fits rest⟩
    rw [first, BigEndian.decode_encode_of_lt baseFits]

theorem span_block (base : Nat) (values : List Nat) : (Record.block p base values).length = span p values.length :=
  Record.length_block p base values

theorem header_encoded (m : Mem) (offset : Nat) (r : Record)
    (known : slice m offset p.recordAlignment = r.header p) :
    m offset = r.flags ∧ m (offset + 1) = r.select ∧ m (offset + 2) = UInt8.ofNat r.writes.length ∧
      m (offset + 3) = UInt8.ofNat r.reads.length := by
  rw [Record.header] at known
  obtain ⟨fixed, _⟩ := slice_eq_append known
  simp only [List.length_cons, List.length_nil, slice, List.cons.injEq, and_true] at fixed
  exact fixed

theorem recordAt_encoded (m : Mem) (offset : Nat) (r : Record) (fits : r.Fits p)
    (known : slice m offset (r.encode p).length = r.encode p) :
    slice m offset p.recordAlignment = r.header p ∧
      recordAt p m r.flags r.select (UInt8.ofNat r.writes.length) (UInt8.ofNat r.reads.length)
        (offset + p.recordAlignment) = trim r := by
  rw [Record.encode] at known
  obtain ⟨header, body⟩ := slice_eq_append known
  obtain ⟨writes, reads⟩ := slice_eq_append body
  rw [Record.length_header] at header writes reads
  rw [span_block] at reads
  obtain ⟨bwa, written⟩ := block_encoded p m _ r.bwa r.writes fits.bwa_lt fits.writes_lt writes
  obtain ⟨bra, asked⟩ := block_encoded p m _ r.bra r.reads fits.bra_lt fits.reads_lt reads
  refine ⟨header, ?_⟩
  simp only [recordAt, trim, toNat_count fits.writes_length, toNat_count fits.reads_length, bwa, bra, written, asked]

variable {σ : Type}

@[simp] theorem execRecord_trim (bus : Bus σ) (s : Session σ) (r : Record) :
    execRecord p bus s (trim r) = execRecord p bus s r := by
  have writes : execWritePart p bus s (trim r) = execWritePart p bus s r := by
    cases empty : r.writes with
    | nil => simp only [execWritePart, trim, empty, execWrites]
    | cons word rest => simp [execWritePart, trim, empty, Record.has]
  have reads : ∀ s, execReadPart p bus s (trim r) = execReadPart p bus s r := by
    intro s
    cases empty : r.reads with
    | nil => simp only [execReadPart, trim, empty, List.isEmpty_nil, if_true]
    | cons word rest => simp [execReadPart, trim, empty, Record.has, replyRecord]
  simp only [execRecord, writes, reads]
  rfl

theorem recordTotal_counts (r : Record) (fits : r.Fits p) :
    Machine.recordTotal (UInt8.ofNat r.writes.length) (UInt8.ofNat r.reads.length) = r.total := by
  simp only [Machine.recordTotal, Record.total, pos_iff_toNat, toNat_count fits.writes_length,
    toNat_count fits.reads_length]

/-- The machine behind a record: the session has moved as the record says, and its encoded
reply was appended to the buffer. -/
structure Consumed (bus : Bus σ) (r : Record) (st done : Machine σ) : Prop where
  session_eq : done.session = (execRecord p bus st.session r).1
  reply_eq : done.reply = (st.reply || !r.reads.isEmpty)
  cycleEnd_eq : done.cycleEnd = r.has recordCyc
  rptr_eq : done.rptr = st.rptr + r.total * p.alignment
  wptr_eq : done.wptr = st.wptr + (stream p (execRecord p bus st.session r).2).length
  behind : done.wptr ≤ done.rptr
  eos_eq : done.eos = st.eos
  input_eq : done.input = st.input
  sent_eq : done.sent = st.sent
  written : slice done.buf 0 done.wptr = slice st.buf 0 st.wptr ++ stream p (execRecord p bus st.session r).2
  ahead : ∀ i, done.rptr ≤ i → done.buf i = st.buf i

theorem slaveRecord_encoded (size : Nat) (bus : Bus σ) (st : Machine σ) (r : Record) (fits : r.Fits p)
    (behind : st.wptr + p.recordAlignment ≤ st.rptr) (arrived : st.rptr + r.total * p.alignment ≤ st.eos)
    (inside : st.eos ≤ size) (ended : st.cycleEnd = r.has recordCyc)
    (known : slice st.buf (st.rptr - p.recordAlignment) (r.encode p).length = r.encode p) :
    Consumed p bus r st (st.slaveRecord p bus r.flags r.select (UInt8.ofNat r.writes.length)
      (UInt8.ofNat r.reads.length)) := by
  obtain ⟨_, found⟩ := recordAt_encoded p st.buf (st.rptr - p.recordAlignment) r fits known
  rw [show st.rptr - p.recordAlignment + p.recordAlignment = st.rptr by omega] at found
  have spans : span p r.writes.length + span p r.reads.length = r.total * p.alignment := by
    have both := total_span p (UInt8.ofNat r.writes.length) (UInt8.ofNat r.reads.length)
    rw [recordTotal_counts p r fits, toNat_count fits.writes_length, toNat_count fits.reads_length] at both
    exact both.symm
  obtain ⟨step, session, reply⟩ := slaveRecord_advance p size bus r.flags r.select (UInt8.ofNat r.writes.length)
    (UInt8.ofNat r.reads.length) st behind
    (by
      rw [toNat_count fits.writes_length, toNat_count fits.reads_length]
      omega)
    inside ended
  rw [found, toNat_count fits.writes_length, toNat_count fits.reads_length, spans, execRecord_trim] at step
  rw [found, execRecord_trim] at session
  rw [found] at reply
  have bound := length_reply_le p bus st.session r
  have short : span p r.reads.length ≤ r.total * p.alignment := by omega
  refine ⟨session, reply, step.cycleEnd_eq.trans ended, step.rptr_eq, step.wptr_eq, ?_, step.eos_eq, step.input_eq,
    step.sent_eq, step.written, step.ahead⟩
  rw [step.rptr_eq, step.wptr_eq]
  omega

/-- Is the cycle line low behind these records, given how it was before them? -/
def endsCycle : Bool → List Record → Bool
  | low, [] => low
  | _, r :: records => endsCycle (r.has recordCyc) records

theorem fillRecord_full (mtu total fuel : Nat) (st : Machine σ) (full : total * p.alignment ≤ st.eos - st.rptr) :
    st.fillRecord p mtu total (fuel + 1) = .ok st := by
  unfold Machine.fillRecord
  rw [if_neg (not_lt.mpr full)]

theorem slaveLoop_record (bus : Bus σ) (mtu fuel : Nat) (st : Machine σ) (r : Record) (fits : r.Fits p)
    (header : st.rptr + p.recordAlignment ≤ st.eos) (known : slice st.buf st.rptr p.recordAlignment = r.header p) :
    ((st.touch (.boundary st.wptr st.rptr)).readHeader p).cycleEnd = r.has recordCyc ∧
      st.slaveLoop p bus mtu (fuel + 1) =
        match ((st.touch (.boundary st.wptr st.rptr)).readHeader p).fillRecord p mtu r.total
          (st.input.flatten.length + 1) with
        | .error result => result
        | .ok full => (full.slaveRecord p bus r.flags r.select (UInt8.ofNat r.writes.length)
            (UInt8.ofNat r.reads.length)).slaveLoop p bus mtu fuel := by
  obtain ⟨flags, select, wcount, rcount⟩ := header_encoded p st.buf st.rptr r known
  constructor
  · show (st.buf st.rptr &&& recordCyc != 0) = _
    rw [flags]
    rfl
  · simp only [Machine.slaveLoop, Machine.touch, if_pos header, flags, select, wcount, rcount,
      recordTotal_counts p r fits]
    all_goals rfl

theorem slaveLoop_done (bus : Bus σ) (mtu fuel : Nat) (st : Machine σ) (low : st.cycleEnd = true)
    (empty : st.rptr = st.eos) :
    st.slaveLoop p bus mtu (fuel + 1) = ⟨.more, (st.touch (.boundary st.wptr st.rptr)).send⟩ := by
  have four := p.four_le_recordAlignment
  have noHeader : ¬st.rptr + p.recordAlignment ≤ st.eos := by omega
  have consumed : ¬st.rptr ≠ st.eos := not_not.mpr empty
  simp only [Machine.slaveLoop, Machine.touch, send_eq, low, Bool.true_eq_false, if_false, if_neg noHeader,
    if_neg consumed]

def asks (records : List Record) : Bool := records.any fun r => !r.reads.isEmpty

theorem slaveLoop_delivered (bus : Bus σ) (mtu : Nat) (records : List Record) (fuel : Nat) (st : Machine σ)
    (fits : ∀ r ∈ records, r.Fits p) (ended : endsCycle st.cycleEnd records = true) (behind : st.wptr ≤ st.rptr)
    (within : st.rptr ≤ st.eos) (known : slice st.buf st.rptr (st.eos - st.rptr) = stream p records)
    (enough : records.length < fuel) :
    let result := st.slaveLoop p bus mtu fuel
    result.outcome = .more ∧ result.state.session = (execRecords p bus st.session records).1 ∧
      result.state.input = st.input ∧
      result.state.sent = if st.reply || asks records then
        st.sent ++ [slice st.buf 0 st.wptr ++ stream p (execRecords p bus st.session records).2] else st.sent := by
  induction records generalizing fuel st with
  | nil =>
    obtain ⟨fuel, rfl⟩ : ∃ rest, fuel = rest + 1 := ⟨fuel - 1, by omega⟩
    have empty : st.eos - st.rptr = 0 := by
      rw [← length_slice st.buf st.rptr (st.eos - st.rptr), known]
      rfl
    rw [slaveLoop_done p bus mtu fuel st ended (by omega), send_eq]
    refine ⟨rfl, rfl, rfl, ?_⟩
    show (if st.reply then st.sent ++ [slice st.buf 0 st.wptr] else st.sent) = _
    have same : (st.reply || asks []) = st.reply := Bool.or_false _
    rw [same]
    simp only [execRecords, stream_nil, List.append_nil]
  | cons r records ih =>
    obtain ⟨fuel, rfl⟩ : ∃ rest, fuel = rest + 1 := ⟨fuel - 1, by omega⟩
    rw [stream_cons] at known
    obtain ⟨here, rest⟩ := slice_eq_append known
    have length : st.eos - st.rptr = (r.encode p).length + (stream p records).length := by
      rw [← length_slice st.buf st.rptr (st.eos - st.rptr), known, List.length_append]
    have size := r.length_encode p
    obtain ⟨header, _⟩ := recordAt_encoded p st.buf st.rptr r (fits r List.mem_cons_self) here
    obtain ⟨low, pass⟩ := slaveLoop_record p bus mtu fuel st r (fits r List.mem_cons_self) (by omega) header
    have step := slaveRecord_encoded p st.eos bus ((st.touch (.boundary st.wptr st.rptr)).readHeader p) r
      (fits r List.mem_cons_self)
      (by simp only [Machine.readHeader, Machine.touch]; omega) (by simp only [Machine.readHeader, Machine.touch]; omega)
      le_rfl low (by simp only [Machine.readHeader, Machine.touch, Nat.add_sub_cancel]; exact here)
    rw [pass, fillRecord_full p mtu r.total _ _ (by simp only [Machine.readHeader, Machine.touch]; omega)]
    dsimp only
    generalize Machine.slaveRecord p bus r.flags r.select (UInt8.ofNat r.writes.length) (UInt8.ofNat r.reads.length)
      ((st.touch (.boundary st.wptr st.rptr)).readHeader p) = next at step ⊢
    have rptr : next.rptr = st.rptr + p.recordAlignment + r.total * p.alignment := step.rptr_eq
    have eos : next.eos = st.eos := step.eos_eq
    have session : next.session = (execRecord p bus st.session r).1 := step.session_eq
    have written : slice next.buf 0 next.wptr = slice st.buf 0 st.wptr ++ stream p (execRecord p bus st.session r).2 :=
      step.written
    have pending : slice next.buf next.rptr (next.eos - next.rptr) = stream p records := by
      have left : next.eos - next.rptr = (stream p records).length := by omega
      have place : next.rptr = st.rptr + (r.encode p).length := by omega
      rw [left, place, ← rest, length_slice]
      apply slice_congr
      intro i below _
      exact step.ahead i (by omega)
    obtain ⟨more, sessions, inputs, sends⟩ := ih fuel next (fun other member => fits other (List.mem_cons_of_mem _ member))
      (by rw [step.cycleEnd_eq]; exact ended) step.behind (by omega) pending
      (by simp only [List.length_cons] at enough; omega)
    have run : execRecords p bus st.session (r :: records) =
        ((execRecords p bus next.session records).1,
          (execRecord p bus st.session r).2 ++ (execRecords p bus next.session records).2) := by
      rw [session]
      rfl
    rw [run]
    refine ⟨more, sessions, inputs.trans step.input_eq, ?_⟩
    have asked : asks (r :: records) = (!r.reads.isEmpty || asks records) := rfl
    have reply : next.reply = (st.reply || !r.reads.isEmpty) := step.reply_eq
    have sent : next.sent = st.sent := step.sent_eq
    rw [sends, sent, written, reply, stream_append, List.append_assoc, asked, Bool.or_assoc]

/-- A call of `eb_device_slave` whose `poll` returned the whole of `bytes`. -/
def deliver (bus : Bus σ) (mtu : Nat) (start : σ) (bytes : List Byte) : Result σ :=
  let st := Machine.start start [] bytes [] [] [] 0
  st.slaveLoop p bus mtu st.fuelFor

def opening (start : σ) : Session σ := ⟨start, 0, false, []⟩

theorem length_le_stream (records : List Record) : records.length ≤ (stream p records).length := by
  induction records with
  | nil => exact le_rfl
  | cons r records ih =>
    have := p.four_le_recordAlignment
    have := r.length_encode p
    simp only [stream_cons, List.length_append, List.length_cons]
    omega

theorem execRecords_silent (bus : Bus σ) (s : Session σ) (records : List Record) (closed : s.cycleOpen = false)
    (silent : asks records = false) : (execRecords p bus s records).2 = [] := by
  induction records generalizing s with
  | nil => rfl
  | cons r records ih =>
    simp only [asks, List.any_cons, Bool.or_eq_false_iff] at silent
    obtain ⟨noReads, later⟩ := silent
    have none : r.reads.isEmpty = true := by simpa using noReads
    have still : (execWritePart p bus s r).cycleOpen = false := by
      rw [execWritePart, execWrites_cycleOpen, closed]
    have part : execReadPart p bus (execWritePart p bus s r) r = (execWritePart p bus s r, []) := by
      rw [execReadPart, if_pos none]
    simp only [execRecords, execRecord, part, still, Bool.false_and, Bool.false_eq_true, if_false, List.append_nil,
      List.nil_append]
    exact ih (execWritePart p bus s r) still later

theorem deliver_records (bus : Bus σ) (mtu : Nat) (start : σ) (records : List Record)
    (fits : ∀ r ∈ records, r.Fits p) (ended : endsCycle true records = true) :
    (deliver p bus mtu start (stream p records)).outcome = .more ∧
      (deliver p bus mtu start (stream p records)).state.session = (execRecords p bus (opening start) records).1 ∧
      (deliver p bus mtu start (stream p records)).state.sent.flatten =
        stream p (execRecords p bus (opening start) records).2 := by
  have counted := length_le_stream p records
  obtain ⟨more, session, _, sent⟩ := slaveLoop_delivered p bus mtu records
    (Machine.start start [] (stream p records) [] [] [] 0).fuelFor
    (Machine.start start [] (stream p records) [] [] [] 0) fits ended le_rfl (Nat.zero_le _)
    (slice_store _ 0 (stream p records))
    (by simp only [Machine.fuelFor, Machine.start]; omega)
  refine ⟨more, session, ?_⟩
  unfold deliver
  rw [sent]
  cases asked : asks records with
  | true => simp [Machine.start, slice, opening]
  | false =>
    rw [execRecords_silent p bus (opening start) records rfl asked]
    rfl

end

end BelProject.Etherbone.Deliver
