import BelProject.Etherbone.Deliver
import BelProject.Library.Located

/-! A stream that arrives in chunks. The record loop refills its buffer until a cycle ends
together with a chunk, so each call of `eb_device_slave` executes some whole cycles of the
stream. A chunk that ends inside the header a cycle starts with kills the link. -/

namespace BelProject.Etherbone.Segments
open BelProject.Library Memory Located Width Wire Header Execute Slave Refill SlaveSafety Deliver

section
variable (p : Port)

/-- Where the cycles of a stream start, given whether the cycle line is low before it. -/
def cycleStarts : Bool → Nat → List Record → List Nat
  | _, _, [] => []
  | low, offset, r :: records =>
    (if low then [offset] else []) ++ cycleStarts (r.has recordCyc) (offset + (r.encode p).length) records

def recordsAt (offset : Nat) (records : List Record) : List (Nat × Record) :=
  located (fun r => (r.encode p).length) offset records

def chunksAt (offset : Nat) (chunks : List (List Byte)) : List (Nat × List Byte) :=
  located List.length offset chunks

/-- No chunk starts strictly inside the header of the first record of a cycle. -/
def HeadersWhole (low : Bool) (offset : Nat) (records : List Record) (frontier : Nat) (chunks : List (List Byte)) :
    Prop :=
  ∀ start ∈ cycleStarts p low offset records, ∀ cut ∈ chunksAt frontier chunks,
    ¬(start < cut.1 ∧ cut.1 < start + p.recordAlignment)

/-- No chunk starts inside such a header, nor with it. -/
def Untouched (low : Bool) (offset : Nat) (records : List Record) (cuts : List (Nat × List Byte)) : Prop :=
  ∀ start ∈ cycleStarts p low offset records, ∀ cut ∈ cuts, ¬(start ≤ cut.1 ∧ cut.1 < start + p.recordAlignment)

/-- Every chunk is one `poll` or `recv` can return: it fits the buffer behind the part of the
record at hand that is already there. -/
def Granted (offset : Nat) (records : List Record) (frontier : Nat) (chunks : List (List Byte)) : Prop :=
  ∀ cut ∈ chunksAt frontier chunks, ∀ place ∈ recordsAt p offset records,
    place.1 ≤ cut.1 → cut.1 < place.1 + (place.2.encode p).length →
      cut.1 + cut.2.length ≤ place.1 + p.bufferSize

variable {p}

variable {chunks : List (List Byte)}

theorem chunksAt_ge {frontier : Nat} {cut : Nat × List Byte}
    (member : cut ∈ chunksAt frontier chunks) : frontier ≤ cut.1 := located_ge member

variable {low : Bool} {records : List Record} {r : Record} {rest : List Record} {offset : Nat}

theorem cycleStarts_ge {offset start : Nat} (member : start ∈ cycleStarts p low offset records) : offset ≤ start := by
  induction records generalizing low offset with
  | nil => cases member
  | cons r records ih =>
    rcases List.mem_append.mp member with here | later
    · split at here
      · exact (List.mem_singleton.mp here).ge
      · cases here
    · exact le_trans (Nat.le_add_right _ _) (ih later)

theorem Granted.record {offset frontier : Nat}
    (granted : Granted p offset (r :: records) frontier chunks) :
    Granted p (offset + (r.encode p).length) records frontier chunks := by
  intro cut here place member
  exact granted cut here place (List.mem_cons_of_mem _ member)

theorem Granted.chunk {offset frontier : Nat} {chunk : List Byte}
    (granted : Granted p offset records frontier (chunk :: chunks)) :
    Granted p offset records (frontier + chunk.length) chunks := by
  intro cut here
  exact granted cut (mem_located_tail here)

variable {σ : Type}

/-- Everything handed to the transport or ready to be. -/
def output (st : Machine σ) : List Byte := st.sent.flatten ++ slice st.buf 0 st.wptr

/-- The machine in the middle of a stream: from `back` bytes before the read pointer on,
buffer and link hold the records that are still to come. -/
structure Feeding (p : Port) (low : Bool) (back offset : Nat) (rest : List Record) (st : Machine σ) : Prop where
  behind : st.wptr + back ≤ st.rptr
  within : st.rptr ≤ st.eos
  inside : st.eos ≤ p.bufferSize
  fits : ∀ r ∈ rest, r.Fits p
  ended : endsCycle low rest = true
  ahead : held back st ++ st.input.flatten = stream p rest
  some : ∀ chunk ∈ st.input, chunk ≠ []
  quiet : st.reply = false → st.wptr = 0 ∧ st.session.cycleOpen = false
  granted : Granted p offset rest (offset + (held back st).length) st.input

/-- The chunks still to come, where they start in the stream. -/
def cuts (back offset : Nat) (st : Machine σ) : List (Nat × List Byte) :=
  chunksAt (offset + (held back st).length) st.input

/-- Some chunks have come, none of them starting at or behind `limit`. -/
structure Drops (limit : Nat) (old new : List (Nat × List Byte)) : Prop where
  subset : ∀ cut ∈ new, cut ∈ old
  dropped : ∀ cut ∈ old, cut ∈ new ∨ cut.1 < limit

theorem Drops.refl (limit : Nat) (old : List (Nat × List Byte)) : Drops limit old old :=
  ⟨fun _ member => member, fun _ member => Or.inl member⟩

theorem Drops.trans {limit : Nat} {old mid new : List (Nat × List Byte)} (first : Drops limit old mid)
    (second : Drops limit mid new) : Drops limit old new := by
  refine ⟨fun cut member => first.subset cut (second.subset cut member), ?_⟩
  intro cut member
  rcases first.dropped cut member with later | before
  · exact second.dropped cut later
  · exact Or.inr before

structure Same (st got : Machine σ) : Prop where
  session_eq : got.session = st.session
  cycleEnd_eq : got.cycleEnd = st.cycleEnd
  reply_eq : got.reply = st.reply
  output_eq : output got = output st
  input_suffix : got.input <:+ st.input

theorem Same.refl (st : Machine σ) : Same st st := ⟨rfl, rfl, rfl, rfl, List.suffix_rfl⟩

theorem Same.trans {st mid got : Machine σ} (first : Same st mid) (second : Same mid got) : Same st got :=
  ⟨second.session_eq.trans first.session_eq, second.cycleEnd_eq.trans first.cycleEnd_eq,
    second.reply_eq.trans first.reply_eq, second.output_eq.trans first.output_eq,
    second.input_suffix.trans first.input_suffix⟩

variable {input : List (List Byte)}

theorem grant_whole {asked : Nat} {chunk : List Byte} (small : chunk.length ≤ asked) :
    grant asked (chunk :: input) = (chunk, input) := by
  simp only [grant, List.take_of_length_le small, if_pos small]

variable {st : Machine σ}

theorem Feeding.next {back offset : Nat}
    (feeding : Feeding p low back offset (r :: rest) st) (missing : (held back st).length < (r.encode p).length) :
    ∃ chunk input, st.input = chunk :: input ∧ chunk ≠ [] ∧
      grant (p.bufferSize - (held back st).length) st.input = (chunk, input) := by
  cases same : st.input with
  | nil =>
    have ahead := congrArg List.length feeding.ahead
    rw [same] at ahead
    simp only [List.flatten_nil, List.append_nil, stream_cons, List.length_append] at ahead
    omega
  | cons chunk input =>
    have granted := feeding.granted
    rw [same] at granted
    have small := granted (offset + (held back st).length, chunk) List.mem_cons_self (offset, r) List.mem_cons_self
      (Nat.le_add_right _ _) (Nat.add_lt_add_left missing _)
    dsimp only at small
    refine ⟨chunk, input, rfl, feeding.some chunk (same ▸ List.mem_cons_self), grant_whole ?_⟩
    omega

theorem output_send (st : Machine σ) (quiet : st.reply = false → st.wptr = 0) :
    (if st.reply then st.sent ++ [slice st.buf 0 st.wptr] else st.sent).flatten = output st := by
  cases asked : st.reply with
  | true => simp [output]
  | false => simp [output, quiet asked, slice]

theorem Feeding.refilled {back offset : Nat} {st got : Machine σ}
    (feeding : Feeding p low back offset (r :: rest) st) (missing : (held back st).length < (r.encode p).length)
    (refilled : Refilled p.bufferSize back st got) :
    Feeding p low back offset (r :: rest) got ∧ Same st got ∧
      Drops (offset + (r.encode p).length) (cuts back offset st) (cuts back offset got) := by
  obtain ⟨chunk, input, same, nonempty, whole⟩ := feeding.next missing
  have length := length_held back st
  rw [length] at whole
  have eos := refilled.eos_eq
  have rptr := refilled.rptr_eq
  have left := refilled.input_eq
  have bytes := refilled.held_eq
  have some := refilled.some
  have limit := length_grant_le (p.bufferSize - (st.eos - (st.rptr - back))) st.input
  have behind := feeding.behind
  have within := feeding.within
  have inside := feeding.inside
  have granted := feeding.granted
  have ahead := feeding.ahead
  rw [whole] at eos left bytes some limit
  dsimp only at eos left bytes some limit
  rw [same] at granted ahead
  refine ⟨?_, ?_, ?_⟩
  · refine ⟨?_, ?_, ?_, feeding.fits, feeding.ended, ?_, ?_, ?_, ?_⟩
    · rw [refilled.wptr_eq, rptr, Nat.zero_add]
    · omega
    · omega
    · rw [left, bytes, List.append_assoc]
      exact ahead
    · intro other member
      rw [left] at member
      exact feeding.some other (same ▸ List.mem_cons_of_mem _ member)
    · intro silent
      rw [refilled.reply_eq] at silent
      rw [refilled.wptr_eq, refilled.session_eq]
      exact ⟨rfl, (feeding.quiet silent).2⟩
    · rw [left, bytes, List.length_append, ← Nat.add_assoc]
      exact granted.chunk
  · refine ⟨refilled.session_eq, refilled.cycleEnd_eq, refilled.reply_eq, ?_, ?_⟩
    · rw [output, refilled.wptr_eq, refilled.sent_eq, output_send st (fun silent => (feeding.quiet silent).1)]
      exact List.append_nil _
    · rw [left, same]
      exact List.suffix_cons _ _
  · have old : cuts back offset st = (offset + (held back st).length, chunk) :: cuts back offset got := by
      simp only [cuts, left, bytes, same, List.length_append, ← Nat.add_assoc]
      rfl
    rw [old]
    refine ⟨fun cut member => List.mem_cons_of_mem _ member, ?_⟩
    intro cut member
    rcases List.mem_cons.mp member with rfl | later
    · exact Or.inr (Nat.add_lt_add_left missing _)
    · exact Or.inl later

theorem Feeding.not_starved {back offset : Nat} {st dead : Machine σ}
    (feeding : Feeding p low back offset (r :: rest) st) (missing : (held back st).length < (r.encode p).length) :
    ¬Starved p.bufferSize back st dead := by
  intro starved
  obtain ⟨chunk, input, _, nonempty, whole⟩ := feeding.next missing
  have none := starved.none
  rw [length_held] at whole
  rw [whole] at none
  exact nonempty (List.length_eq_zero_iff.mp none)

theorem Feeding.header
    (feeding : Feeding p low 0 offset (r :: rest) st) (header : st.rptr + p.recordAlignment ≤ st.eos) :
    slice st.buf st.rptr p.recordAlignment = r.header p := by
  have ahead := feeding.ahead
  have size := r.length_header p
  have split : held 0 st = slice st.buf st.rptr p.recordAlignment ++
      slice st.buf (st.rptr + p.recordAlignment) (st.eos - (st.rptr + p.recordAlignment)) := by
    rw [held, Nat.sub_zero, ← slice_add]
    congr 1
    omega
  rw [split, List.append_assoc, stream_cons, Record.encode, List.append_assoc] at ahead
  exact (List.append_inj ahead (by rw [length_slice, size])).1

theorem Feeding.readHeader
    (feeding : Feeding p low 0 offset rest st) (header : st.rptr + p.recordAlignment ≤ st.eos) (event : Touch) :
    Feeding p low p.recordAlignment offset rest ((st.touch event).readHeader p) ∧
      held p.recordAlignment ((st.touch event).readHeader p) = held 0 st := by
  have same : held p.recordAlignment ((st.touch event).readHeader p) = held 0 st := by
    simp only [held, Machine.readHeader, Machine.touch, Nat.add_sub_cancel, Nat.sub_zero]
  refine ⟨⟨?_, header, feeding.inside, feeding.fits, feeding.ended, ?_, feeding.some, feeding.quiet, ?_⟩, same⟩
  · have behind := feeding.behind
    show st.wptr + p.recordAlignment ≤ st.rptr + p.recordAlignment
    omega
  · rw [same]
    exact feeding.ahead
  · rw [same]
    exact feeding.granted

theorem execRecord_quiet (bus : Bus σ) (s : Session σ) (r : Record) (closed : s.cycleOpen = false)
    (none : r.reads.isEmpty = true) : (execRecord p bus s r).2 = [] ∧ (execRecord p bus s r).1.cycleOpen = false := by
  have still : (execWritePart p bus s r).cycleOpen = false := by
    rw [execWritePart, execWrites_cycleOpen, closed]
  simp only [execRecord, execReadPart, if_pos none, still, Bool.false_and, Bool.false_eq_true, if_false,
    List.append_nil, and_self]

theorem Feeding.record (bus : Bus σ) (feeding : Feeding p low p.recordAlignment offset (r :: rest) st)
    (complete : r.total * p.alignment ≤ st.eos - st.rptr) (ended : st.cycleEnd = r.has recordCyc) :
    let done := st.slaveRecord p bus r.flags r.select (UInt8.ofNat r.writes.length) (UInt8.ofNat r.reads.length)
    Feeding p (r.has recordCyc) 0 (offset + (r.encode p).length) rest done ∧ done.cycleEnd = r.has recordCyc ∧
      done.session = (execRecord p bus st.session r).1 ∧ done.input = st.input ∧
      cuts 0 (offset + (r.encode p).length) done = cuts p.recordAlignment offset st ∧
      output done = output st ++ stream p (execRecord p bus st.session r).2 := by
  intro done
  have behind := feeding.behind
  have within := feeding.within
  have size := r.length_encode p
  have ahead := feeding.ahead
  have front : held p.recordAlignment st =
      slice st.buf (st.rptr - p.recordAlignment) (r.encode p).length ++
        slice st.buf (st.rptr + r.total * p.alignment) (st.eos - (st.rptr + r.total * p.alignment)) := by
    rw [held, show st.rptr + r.total * p.alignment = st.rptr - p.recordAlignment + (r.encode p).length by omega,
      ← slice_add]
    congr 1
    omega
  rw [front, List.append_assoc, stream_cons] at ahead
  obtain ⟨known, later⟩ := List.append_inj ahead (length_slice _ _ _)
  have step : Consumed p bus r st done := slaveRecord_encoded p p.bufferSize bus st r
    (feeding.fits r List.mem_cons_self) behind (by omega) feeding.inside ended known
  have rptr := step.rptr_eq
  have eos := step.eos_eq
  have left : held 0 done = slice st.buf (st.rptr + r.total * p.alignment)
    (st.eos - (st.rptr + r.total * p.alignment)) := by
    rw [held, Nat.sub_zero, eos, rptr]
    apply slice_congr
    intro i above _
    exact step.ahead i (by omega)
  have moved : offset + (r.encode p).length + (held 0 done).length = offset + (held p.recordAlignment st).length := by
    rw [left, front, List.length_append, length_slice, length_slice]
    omega
  refine ⟨⟨step.behind, by omega, by rw [eos]; exact feeding.inside,
    fun other member => feeding.fits other (List.mem_cons_of_mem _ member), feeding.ended, ?_, ?_, ?_, ?_⟩,
    step.cycleEnd_eq, step.session_eq, step.input_eq, by rw [cuts, cuts, moved, step.input_eq], ?_⟩
  · rw [left, step.input_eq]
    exact later
  · rw [step.input_eq]
    exact feeding.some
  · intro silent
    rw [step.reply_eq, Bool.or_eq_false_iff] at silent
    obtain ⟨empty, closed⟩ := feeding.quiet silent.1
    obtain ⟨nothing, still⟩ := execRecord_quiet (p := p) bus st.session r closed (by simpa using silent.2)
    rw [step.wptr_eq, step.session_eq, nothing, empty]
    exact ⟨rfl, still⟩
  · rw [moved, step.input_eq]
    exact feeding.granted.record
  · rw [output, output, step.sent_eq, step.written, List.append_assoc]

theorem Feeding.fill (feeding : Feeding p low p.recordAlignment offset (r :: rest) st) :
    ∃ full, st.fillRecord p 0 r.total (st.input.flatten.length + 1) = .ok full ∧
      Feeding p low p.recordAlignment offset (r :: rest) full ∧ Same st full ∧
      Drops (offset + (r.encode p).length) (cuts p.recordAlignment offset st) (cuts p.recordAlignment offset full) ∧
      r.total * p.alignment ≤ full.eos - full.rptr ∧ SlaveSafety.ahead full ≤ SlaveSafety.ahead st := by
  have size := r.length_encode p
  have fits := feeding.fits r List.mem_cons_self
  have small := r.length_encode_le p fits.writes_length fits.reads_length
  have short : ∀ now : Machine σ, Feeding p low p.recordAlignment offset (r :: rest) now →
      r.total * p.alignment > now.eos - now.rptr → (held p.recordAlignment now).length < (r.encode p).length := by
    intro now holds missing
    have behind := holds.behind
    rw [length_held]
    omega
  have filled := fillRecord_rule p 0 r.total
    (fun now => Feeding p low p.recordAlignment offset (r :: rest) now ∧ Same st now ∧
      Drops (offset + (r.encode p).length) (cuts p.recordAlignment offset st) (cuts p.recordAlignment offset now) ∧
      SlaveSafety.ahead now ≤ SlaveSafety.ahead st)
    (fun now holds => ⟨holds.1.behind, holds.1.within, holds.1.inside⟩) (by omega)
    (by
      intro now next holds missing _ refilled
      obtain ⟨feeds, same, drops⟩ := holds.1.refilled (short now holds.1 missing) refilled
      refine ⟨feeds, holds.2.1.trans same, holds.2.2.1.trans drops, le_trans ?_ holds.2.2.2⟩
      have more := refilled.some
      have split := congrArg List.length (grant_flatten
        (p.bufferSize - (now.eos - (now.rptr - p.recordAlignment))) now.input)
      have behind := holds.1.behind
      have within := holds.1.within
      rw [List.length_append] at split
      unfold SlaveSafety.ahead
      rw [refilled.eos_eq, refilled.rptr_eq, refilled.input_eq]
      omega)
    (st.input.flatten.length + 1) st ⟨feeding, Same.refl st, Drops.refl _ _, le_rfl⟩ (Nat.lt_succ_self _)
  generalize st.fillRecord p 0 r.total (st.input.flatten.length + 1) = attempt at filled ⊢
  cases attempt with
  | error result =>
    obtain ⟨_, last, holds, missing, reason⟩ := filled
    rcases reason with ⟨packet, _⟩ | ⟨_, starved⟩
    · exact absurd rfl packet
    · exact absurd starved (holds.1.not_starved (short last holds.1 missing))
  | ok full =>
    obtain ⟨⟨feeds, same, drops, less⟩, complete⟩ := filled
    exact ⟨full, rfl, feeds, same, drops, complete, less⟩

theorem Feeding.between
    (feeding : Feeding p false 0 offset rest st) (noHeader : ¬st.rptr + p.recordAlignment ≤ st.eos) :
    ∃ got, st.send.refill p = .ok got ∧ Feeding p false 0 offset rest got ∧ Same st got ∧
      SlaveSafety.ahead got < SlaveSafety.ahead st ∧ ∃ r later, rest = r :: later ∧
        Drops (offset + (r.encode p).length) (cuts 0 offset st) (cuts 0 offset got) := by
  cases rest with
  | nil => exact absurd feeding.ended (by simp [endsCycle])
  | cons r rest =>
    have size := r.length_encode p
    have within := feeding.within
    have aligned := p.recordAlignment_le
    have missing : (held 0 st).length < (r.encode p).length := by
      rw [length_held, Nat.sub_zero]
      omega
    have refilled := refill_between p st feeding.behind within feeding.inside
      (by unfold Port.bufferSize; have := p.word_size; omega)
    generalize st.send.refill p = attempt at refilled ⊢
    cases attempt with
    | error dead => exact absurd refilled (feeding.not_starved missing)
    | ok got =>
      obtain ⟨feeds, same, drops⟩ := feeding.refilled missing refilled
      refine ⟨got, rfl, feeds, same, ?_, r, rest, rfl, drops⟩
      have some := refilled.some
      have split := congrArg List.length (grant_flatten (p.bufferSize - (st.eos - (st.rptr - 0))) st.input)
      rw [List.length_append] at split
      unfold SlaveSafety.ahead
      rw [refilled.eos_eq, refilled.rptr_eq, refilled.input_eq]
      omega

def Torn (p : Port) (low : Bool) (offset : Nat) (records : List Record) (cuts : List (Nat × List Byte)) : Prop :=
  ∃ start ∈ cycleStarts p low offset records, ∃ cut ∈ cuts, start < cut.1 ∧ cut.1 < start + p.recordAlignment

theorem Feeding.torn
    (feeding : Feeding p true 0 offset rest st) (noHeader : ¬st.rptr + p.recordAlignment ≤ st.eos)
    (some : st.rptr ≠ st.eos) : Torn p true offset rest (cuts 0 offset st) := by
  have within := feeding.within
  have ahead := congrArg List.length feeding.ahead
  rw [List.length_append, length_held, Nat.sub_zero] at ahead
  cases rest with
  | nil =>
    rw [stream_nil, List.length_nil] at ahead
    omega
  | cons r rest =>
    have size := r.length_encode p
    rw [stream_cons, List.length_append] at ahead
    cases same : st.input with
    | nil =>
      rw [same, List.flatten_nil, List.length_nil] at ahead
      omega
    | cons chunk input =>
      refine ⟨offset, by simp [cycleStarts], (offset + (held 0 st).length, chunk), ?_, ?_⟩
      · rw [cuts, same]
        exact List.mem_cons_self
      · dsimp only
        rw [length_held, Nat.sub_zero]
        omega

/-- What a call makes of a stream: some of the records, up to the first place where a cycle
and a chunk end together. -/
structure Served (p : Port) (bus : Bus σ) (low : Bool) (offset : Nat) (rest : List Record) (st : Machine σ)
    (mid todo : List Record) (result : Result σ) : Prop where
  outcome_eq : result.outcome = .more
  split : rest = mid ++ todo
  ended : endsCycle low mid = true
  session_eq : result.state.session = (execRecords p bus st.session mid).1
  sent_eq : result.state.sent.flatten = output st ++ stream p (execRecords p bus st.session mid).2
  input_suffix : result.state.input <:+ st.input
  input_eq : result.state.input.flatten = stream p todo
  untouched : Untouched p low offset mid (cuts 0 offset st)

variable {bus : Bus σ}

theorem Served.same {rest mid todo : List Record}
    {st got : Machine σ} {result : Result σ} (same : Same st got)
    (drops : Drops (offset + (r.encode p).length) (cuts 0 offset st) (cuts 0 offset got))
    (served : Served p bus false offset (r :: rest) got mid todo result) :
    Served p bus false offset (r :: rest) st mid todo result := by
  refine ⟨served.outcome_eq, served.split, served.ended, by rw [served.session_eq, same.session_eq],
    by rw [served.sent_eq, same.output_eq, same.session_eq], served.input_suffix.trans same.input_suffix,
    served.input_eq, ?_⟩
  intro start member cut here
  rcases drops.dropped cut here with later | before
  · exact served.untouched start member cut later
  · cases mid with
    | nil => cases member
    | cons first mid =>
      have head : first = r := (List.cons.inj served.split).1.symm
      have above := cycleStarts_ge (p := p) (show start ∈ cycleStarts p (first.has recordCyc)
        (offset + (first.encode p).length) mid from member)
      rw [head] at above
      omega

theorem Torn.subset {old new : List (Nat × List Byte)}
    (subset : ∀ cut ∈ new, cut ∈ old) (torn : Torn p low offset records new) : Torn p low offset records old := by
  obtain ⟨start, member, cut, here, inside⟩ := torn
  exact ⟨start, member, cut, subset cut here, inside⟩

theorem slaveLoop_fed (bus : Bus σ) (fuel offset : Nat) (rest : List Record) (st : Machine σ)
    (feeding : Feeding p st.cycleEnd 0 offset rest st) (enough : SlaveSafety.ahead st < fuel) :
    ((st.slaveLoop p bus 0 fuel).outcome = .kill ∧ Torn p st.cycleEnd offset rest (cuts 0 offset st)) ∨
      ∃ mid todo, Served p bus st.cycleEnd offset rest st mid todo (st.slaveLoop p bus 0 fuel) := by
  induction fuel generalizing offset rest st with
  | zero => omega
  | succ fuel ih =>
    by_cases header : st.rptr + p.recordAlignment ≤ st.eos
    · cases rest with
      | nil =>
        have four := p.four_le_recordAlignment
        have ahead := congrArg List.length feeding.ahead
        rw [List.length_append, length_held, stream_nil, List.length_nil] at ahead
        omega
      | cons r rest =>
        obtain ⟨read, readHeld⟩ := feeding.readHeader header (.boundary st.wptr st.rptr)
        obtain ⟨low, pass⟩ := slaveLoop_record p bus 0 fuel st r (feeding.fits r List.mem_cons_self) header
          (feeding.header header)
        obtain ⟨full, filled, feeds, same, drops, complete, less⟩ := read.fill
        have consumed : SlaveSafety.ahead ((st.touch (.boundary st.wptr st.rptr)).readHeader p) <
          SlaveSafety.ahead st := by
          have four := p.four_le_recordAlignment
          show st.eos - (st.rptr + p.recordAlignment) + 2 * st.input.flatten.length <
            st.eos - st.rptr + 2 * st.input.flatten.length
          omega
        obtain ⟨next, cycleEnd, session, input, sameCuts, out⟩ := feeds.record bus complete (same.cycleEnd_eq.trans low)
        have input' : ((st.touch (.boundary st.wptr st.rptr)).readHeader p).input = st.input := rfl
        have oldCuts : cuts p.recordAlignment offset ((st.touch (.boundary st.wptr st.rptr)).readHeader p) =
            cuts 0 offset st := by rw [cuts, cuts, readHeld, input']
        rw [input'] at filled
        rw [oldCuts, ← sameCuts] at drops
        rw [pass, filled]
        dsimp only
        have still : SlaveSafety.ahead (full.slaveRecord p bus r.flags r.select (UInt8.ofNat r.writes.length)
            (UInt8.ofNat r.reads.length)) ≤ SlaveSafety.ahead full := by
          have lengths := congrArg List.length next.ahead
          have before := congrArg List.length feeds.ahead
          have size := r.length_encode p
          have behind := feeds.behind
          have within := feeds.within
          rw [List.length_append, length_held, Nat.sub_zero] at lengths
          rw [List.length_append, length_held, stream_cons, List.length_append] at before
          unfold SlaveSafety.ahead
          rw [input] at lengths ⊢
          omega
        generalize full.slaveRecord p bus r.flags r.select (UInt8.ofNat r.writes.length)
          (UInt8.ofNat r.reads.length) = done at next cycleEnd session input drops out still ⊢
        rw [← cycleEnd] at next
        rcases ih _ rest done next (by omega) with ⟨killed, torn⟩ | ⟨mid, todo, served⟩
        · rw [cycleEnd] at torn
          obtain ⟨start, member, cut, here, inside⟩ := torn
          exact Or.inl ⟨killed, start, List.mem_append_right _ member, cut, drops.subset cut here, inside⟩
        · refine Or.inr ⟨r :: mid, todo, served.outcome_eq, by rw [served.split]; rfl, ?_, ?_, ?_, ?_, served.input_eq, ?_⟩
          · rw [endsCycle, ← cycleEnd]
            exact served.ended
          · rw [served.session_eq, session, same.session_eq]
            rfl
          · rw [served.sent_eq, out, session, same.session_eq, same.output_eq, List.append_assoc, ← stream_append]
            rfl
          · rw [← input']
            exact (input ▸ served.input_suffix).trans same.input_suffix
          · intro start member cut here
            rcases List.mem_append.mp member with first | later
            · -- the header of this record is in the buffer, so every further chunk starts behind it
              have above := chunksAt_ge here
              rw [length_held, Nat.sub_zero] at above
              have place : start = offset := by
                split at first
                · exact List.mem_singleton.mp first
                · cases first
              omega
            · rcases drops.dropped cut here with kept | before
              · rw [← cycleEnd] at later
                exact served.untouched start later cut kept
              · have above := cycleStarts_ge later
                omega
    · cases low : st.cycleEnd with
      | true =>
        rw [low] at feeding
        by_cases empty : st.rptr = st.eos
        · have left : st.input.flatten = stream p rest := by
            have ahead := feeding.ahead
            rw [held, Nat.sub_zero, empty, Nat.sub_self] at ahead
            exact ahead
          rw [slaveLoop_done p bus 0 fuel st low empty, send_eq]
          refine Or.inr ⟨[], rest, rfl, rfl, rfl, rfl, ?_, List.suffix_rfl, left, by intro start member; cases member⟩
          show (if st.reply then st.sent ++ [slice st.buf 0 st.wptr] else st.sent).flatten = _
          rw [output_send st (fun silent => (feeding.quiet silent).1)]
          exact (List.append_nil _).symm
        · left
          refine ⟨?_, feeding.torn header empty⟩
          have pending : st.rptr ≠ st.eos := empty
          simp only [Machine.slaveLoop, Machine.touch, send_eq, low, Bool.true_eq_false, if_false, if_neg header,
            if_pos pending]
      | false =>
        rw [low] at feeding
        have touched : Feeding p false 0 offset rest (st.touch (.boundary st.wptr st.rptr)) :=
          ⟨feeding.behind, feeding.within, feeding.inside, feeding.fits, feeding.ended, feeding.ahead, feeding.some,
            feeding.quiet, feeding.granted⟩
        obtain ⟨got, attempt, feeds, same, less, r, later, rfl, drops⟩ := touched.between header
        have lowGot : got.cycleEnd = false := same.cycleEnd_eq.trans low
        have sent : (st.touch (.boundary st.wptr st.rptr)).send.cycleEnd = false := by
          rw [send_eq]
          exact low
        have pass : st.slaveLoop p bus 0 (fuel + 1) = got.slaveLoop p bus 0 fuel := by
          rw [Machine.slaveLoop]
          dsimp only
          have noHeader : ¬(st.touch (.boundary st.wptr st.rptr)).rptr + p.recordAlignment ≤
              (st.touch (.boundary st.wptr st.rptr)).eos := header
          rw [if_neg noHeader, if_pos sent, if_neg (by simp), attempt]
        rw [pass]
        have smaller : SlaveSafety.ahead (st.touch (.boundary st.wptr st.rptr)) = SlaveSafety.ahead st := rfl
        have kept : Same st got :=
          ⟨same.session_eq, same.cycleEnd_eq, same.reply_eq, same.output_eq, same.input_suffix⟩
        rcases ih offset (r :: later) got (by rw [lowGot]; exact feeds) (by omega) with ⟨killed,
          torn⟩ | ⟨mid, todo, served⟩
        · rw [lowGot] at torn
          exact Or.inl ⟨killed, torn.subset drops.subset⟩
        · rw [lowGot] at served
          exact Or.inr ⟨mid, todo, served.same kept drops⟩

/-! ### Calls -/

theorem cycleStarts_append (low : Bool) (offset : Nat) (first second : List Record) :
    cycleStarts p low offset (first ++ second) = cycleStarts p low offset first ++
      cycleStarts p (endsCycle low first) (offset + (stream p first).length) second := by
  induction first generalizing low offset with
  | nil => rfl
  | cons r records ih =>
    simp only [List.cons_append, cycleStarts, endsCycle, ih, stream_cons, List.length_append, List.append_assoc,
      Nat.add_assoc]

theorem recordsAt_append (offset : Nat) (first second : List Record) :
    recordsAt p offset (first ++ second) =
      recordsAt p offset first ++ recordsAt p (offset + (stream p first).length) second := by
  rw [recordsAt, located_append, stream, List.length_flatMap]
  rfl

theorem chunksAt_append (offset : Nat) (first second : List (List Byte)) :
    chunksAt offset (first ++ second) =
      chunksAt offset first ++ chunksAt (offset + first.flatten.length) second := by
  rw [chunksAt, located_append, List.length_flatten]
  rfl

theorem endsCycle_append (low : Bool) (first second : List Record) :
    endsCycle low (first ++ second) = endsCycle (endsCycle low first) second := by
  induction first generalizing low with
  | nil => rfl
  | cons r records ih => exact ih _

theorem endsCycle_flatten (parts : List (List Record)) (ended : ∀ part ∈ parts, endsCycle true part = true) :
    endsCycle true parts.flatten = true := by
  induction parts with
  | nil => rfl
  | cons part parts ih =>
    rw [List.flatten_cons, endsCycle_append, ended part List.mem_cons_self]
    exact ih (fun other member => ended other (List.mem_cons_of_mem _ member))

variable {socket : Socket}

/-- A link between two calls, with the rest of the stream on it. -/
structure Waiting (p : { p : Port // p.word = socket.word }) (offset : Nat) (rest : List Record)
    (link : Link σ socket) : Prop where
  negotiated : link.negotiated = some p
  fits : ∀ r ∈ rest, r.Fits p.val
  ended : endsCycle true rest = true
  input_eq : link.input.flatten = stream p.val rest
  some : ∀ chunk ∈ link.input, chunk ≠ []
  granted : Granted p.val offset rest offset link.input

def firstSession (link : Link σ socket) : Session σ := ⟨link.bus, 0, false, link.trace⟩

/-- A call executes some whole cycles, up to the first chunk that starts with a cycle. -/
structure Called (p : Port) (bus : Bus σ) (offset : Nat) (link next : Link σ socket) (mid : List Record) : Prop where
  some : mid ≠ []
  ended : endsCycle true mid = true
  bus_eq : next.bus = (execRecords p bus (firstSession link) mid).1.bus
  trace_eq : next.trace = (execRecords p bus (firstSession link) mid).1.trace
  sent_eq : next.sent.flatten = link.sent.flatten ++ stream p (execRecords p bus (firstSession link) mid).2
  shorter : next.input.length < link.input.length
  untouched : Untouched p true offset mid (chunksAt offset link.input).tail
  drops : Drops (offset + (stream p mid).length) (chunksAt offset link.input)
    (chunksAt (offset + (stream p mid).length) next.input)

theorem ebDeviceSlave_polled {p : { p : Port // p.word = socket.word }} (peer : Peer) (bus : Bus σ)
    (link : Link σ socket) {bytes : List Byte} (negotiated : link.negotiated = some p)
    (polled : poll socket.bufferSize 0 link.input = (bytes, input)) (long : 2 ≤ bytes.length) :
    let ready : Link σ socket := { link with input := input, log := link.log ++ [.recv 0 socket.bufferSize] }
    let start := ready.begin bytes input 0
    ebDeviceSlave socket peer 0 bus link = ((start.slaveLoop p.val bus 0 start.fuelFor).outcome,
      ready.finish (start.slaveLoop p.val bus 0 start.fuelFor).state) := by
  have port : (if 0 = 0 then link.negotiated else none) = some p := negotiated
  unfold ebDeviceSlave
  rw [polled, port]
  dsimp only
  rw [if_neg (by omega), if_neg (by omega)]

theorem ebDeviceSlave_short (peer : Peer) (bus : Bus σ) (link : Link σ socket) {bytes : List Byte}
    (polled : poll socket.bufferSize 0 link.input = (bytes, input))
    (some : bytes.length ≠ 0) (short : bytes.length < 2) : (ebDeviceSlave socket peer 0 bus link).1 = .kill := by
  unfold ebDeviceSlave
  rw [polled]
  dsimp only
  rw [if_neg some, if_pos short]

variable {link : Link σ socket}

theorem Waiting.first {p : { p : Port // p.word = socket.word }}
    (waiting : Waiting p offset (r :: rest) link) :
    ∃ chunk input, link.input = chunk :: input ∧ chunk.length ≠ 0 ∧ chunk.length ≤ p.val.bufferSize ∧
      poll socket.bufferSize 0 link.input = (chunk, input) := by
  have size := r.length_encode p.val
  have four := p.val.four_le_recordAlignment
  have lengths := congrArg List.length waiting.input_eq
  rw [stream_cons, List.length_append] at lengths
  have granted := waiting.granted
  have nonempty := waiting.some
  have buffer : p.val.bufferSize = socket.bufferSize := by
    unfold Port.bufferSize Socket.bufferSize
    rw [p.property]
  cases same : link.input with
  | nil =>
    rw [same, List.flatten_nil, List.length_nil] at lengths
    omega
  | cons chunk input =>
    rw [same] at granted lengths nonempty
    have positive : 0 < chunk.length := List.length_pos_iff.mpr (nonempty chunk List.mem_cons_self)
    have limit := granted (offset, chunk) List.mem_cons_self (offset, r) List.mem_cons_self le_rfl
      (by dsimp only; omega)
    dsimp only at limit
    have small : chunk.length ≤ socket.bufferSize := by omega
    refine ⟨chunk, input, rfl, by omega, by omega, ?_⟩
    simp only [poll, List.take_of_length_le small, if_pos (Or.inr small : 0 ≠ 0 ∨ chunk.length ≤ socket.bufferSize)]

theorem Waiting.torn {p : { p : Port // p.word = socket.word }}
    (waiting : Waiting p offset (r :: rest) link) {chunk : List Byte}
    (same : link.input = chunk :: input) (short : chunk.length < p.val.recordAlignment) :
    Torn p.val true offset (r :: rest) (chunksAt offset link.input) := by
  have size := r.length_encode p.val
  have lengths := congrArg List.length waiting.input_eq
  have positive := List.length_pos_iff.mpr (waiting.some chunk (same ▸ List.mem_cons_self))
  rw [same, stream_cons, List.length_append, List.flatten_cons, List.length_append] at lengths
  cases input with
  | nil =>
    rw [List.flatten_nil, List.length_nil] at lengths
    omega
  | cons after input =>
    refine ⟨offset, by simp [cycleStarts], (offset + chunk.length, after), ?_, ?_⟩
    · rw [same]
      exact List.mem_cons_of_mem _ List.mem_cons_self
    · dsimp only
      omega

theorem Waiting.call {p : { p : Port // p.word = socket.word }}
    (peer : Peer) (bus : Bus σ) (waiting : Waiting p offset rest link) (more : rest ≠ []) :
    ((ebDeviceSlave socket peer 0 bus link).1 = .kill ∧
        Torn p.val true offset rest (chunksAt offset link.input)) ∨
      ((ebDeviceSlave socket peer 0 bus link).1 = .more ∧ ∃ mid todo, rest = mid ++ todo ∧
        Called p.val bus offset link (ebDeviceSlave socket peer 0 bus link).2 mid ∧
        Waiting p (offset + (stream p.val mid).length) todo (ebDeviceSlave socket peer 0 bus link).2) := by
  obtain ⟨r, records, rfl⟩ := List.exists_cons_of_ne_nil more
  obtain ⟨chunk, input, same, positive, small, polled⟩ := waiting.first
  have four := p.val.four_le_recordAlignment
  by_cases single : chunk.length < 2
  · exact Or.inl ⟨ebDeviceSlave_short peer bus link polled positive single, waiting.torn same (by omega)⟩
  have granted := waiting.granted
  have whole := waiting.input_eq
  have nonempty := waiting.some
  rw [same] at granted whole nonempty
  have run := ebDeviceSlave_polled peer bus link waiting.negotiated polled (by omega)
  dsimp only at run
  let ready : Link σ socket := { link with input := input, log := link.log ++ [.recv 0 socket.bufferSize] }
  let start : Machine σ := ready.begin chunk input 0
  have heldStart : held 0 start = chunk := slice_store (fun _ => 0) 0 chunk
  have startCuts : cuts 0 offset start = (chunksAt offset link.input).tail := by
    rw [cuts, heldStart, same]
    rfl
  have feeding : Feeding p.val start.cycleEnd 0 offset (r :: records) start := by
    refine ⟨le_rfl, Nat.zero_le _, small, waiting.fits, waiting.ended, ?_, ?_, ?_, ?_⟩
    · rw [heldStart]
      exact whole
    · intro other member
      exact nonempty other (List.mem_cons_of_mem _ member)
    · intro _
      exact ⟨rfl, rfl⟩
    · rw [heldStart]
      exact granted.chunk
  have looped := slaveLoop_fed bus start.fuelFor offset (r :: records) start feeding
    (by simp only [SlaveSafety.ahead, Machine.fuelFor]; omega)
  rw [startCuts] at looped
  rw [run]
  generalize start.slaveLoop p.val bus 0 start.fuelFor = result at looped
  rcases looped with ⟨killed, torn⟩ | ⟨mid, todo, served⟩
  · exact Or.inl ⟨killed, torn.subset (fun cut member => List.mem_of_mem_tail member)⟩
  right
  obtain ⟨used, apart⟩ := served.input_suffix
  have apart' : link.input = chunk :: used ++ result.state.input := by
    rw [same, List.cons_append, List.cons.injEq]
    exact ⟨rfl, apart.symm⟩
  have closed : endsCycle true mid = true := served.ended
  have split := served.split
  have lengths := congrArg List.length waiting.input_eq
  have left := congrArg List.length served.input_eq
  rw [split, stream_append, List.length_append, apart', List.flatten_append, List.length_append] at lengths
  have place : offset + (stream p.val mid).length = offset + (chunk :: used).flatten.length := by omega
  have drops : Drops (offset + (stream p.val mid).length) (chunksAt offset link.input)
      (chunksAt (offset + (stream p.val mid).length) result.state.input) := by
    rw [apart', chunksAt_append, ← place]
    refine ⟨fun cut member => List.mem_append_right _ member, ?_⟩
    intro cut member
    rcases List.mem_append.mp member with here | later
    · right
      have below := located_lt (fun item inside => List.length_pos_iff.mpr
        (waiting.some item (apart' ▸ List.mem_append_left _ inside))) here
      rw [← List.length_flatten] at below
      omega
    · exact Or.inl later
  have untouched := served.untouched
  rw [startCuts] at untouched
  refine ⟨served.outcome_eq, mid, todo, split, ⟨?_, closed, ?_, ?_, ?_, ?_, untouched, drops⟩, ?_⟩
  · intro none
    rw [none, stream_nil, List.length_nil, List.flatten_cons, List.length_append] at lengths
    omega
  · exact congrArg Session.bus served.session_eq
  · exact congrArg Session.trace served.session_eq
  · rw [Link.finish, served.sent_eq]
    congr 1
    exact List.append_nil _
  · show result.state.input.length < link.input.length
    rw [apart', List.length_append, List.length_cons]
    omega
  · refine ⟨waiting.negotiated, ?_, ?_, served.input_eq, ?_, ?_⟩
    · intro other member
      exact waiting.fits other (split ▸ List.mem_append_right _ member)
    · have ended := waiting.ended
      rw [split, endsCycle_append, closed] at ended
      exact ended
    · intro other member
      exact waiting.some other (apart' ▸ List.mem_append_right _ member)
    · intro cut here place member
      apply waiting.granted cut (drops.subset cut here) place
      rw [split, recordsAt_append]
      exact List.mem_append_right _ member

/-! ### Runs of calls -/

def runCalls (p : Port) (bus : Bus σ) : σ → List Access → List (List Record) → Session σ × List Record
  | start, trace, [] => (⟨start, 0, false, trace⟩, [])
  | start, trace, call :: calls =>
    let (s, replies) := execRecords p bus ⟨start, 0, false, trace⟩ call
    let (s, later) := runCalls p bus s.bus s.trace calls
    (s, replies ++ later)

/-- The calls of a run execute whole cycles; they start exactly where a cycle and a chunk do. -/
structure CallsAt (p : Port) (offset : Nat) (chunks : List (List Byte)) (parts : List (List Record)) : Prop where
  some : ∀ part ∈ parts, part ≠ []
  ended : ∀ part ∈ parts, endsCycle true part = true
  cut : ∀ before part after, parts = before ++ part :: after →
    offset + (stream p before.flatten).length ∈ (chunksAt offset chunks).map Prod.fst
  complete : ∀ done todo, parts.flatten = done ++ todo → todo ≠ [] → endsCycle true done = true →
    offset + (stream p done).length ∈ (chunksAt offset chunks).map Prod.fst →
      ∃ before after, parts = before ++ after ∧ before.flatten = done ∧ after.flatten = todo

theorem CallsAt.nil (p : Port) (offset : Nat) (chunks : List (List Byte)) : CallsAt p offset chunks [] := by
  refine ⟨by simp, by simp, by simp, ?_⟩
  intro done todo whole more
  exact absurd (List.append_eq_nil_iff.mp whole.symm).2 more

theorem mem_cycleStarts {done todo : List Record} (more : todo ≠ []) (ended : endsCycle low done = true) :
    offset + (stream p done).length ∈ cycleStarts p low offset (done ++ todo) := by
  rw [cycleStarts_append, ended]
  apply List.mem_append_right
  cases todo with
  | nil => exact absurd rfl more
  | cons r todo => exact List.mem_cons_self

variable {link next : Link σ socket}

theorem CallsAt.cons {mid : List Record}
    {parts : List (List Record)} (some : link.input ≠ []) (called : Called p bus offset link next mid)
    (calls : CallsAt p (offset + (stream p mid).length) next.input parts) :
    CallsAt p offset link.input (mid :: parts) := by
  obtain ⟨chunk, input, same⟩ := List.exists_cons_of_ne_nil some
  refine ⟨List.forall_mem_cons.mpr ⟨called.some, calls.some⟩,
    List.forall_mem_cons.mpr ⟨called.ended, calls.ended⟩, ?_, ?_⟩
  · intro before part later divided
    cases before with
    | nil =>
      rw [same]
      exact List.mem_cons_self
    | cons first before =>
      obtain ⟨rfl, tail⟩ := List.cons.inj divided
      obtain ⟨entry, member, place⟩ := List.mem_map.mp (calls.cut before part later tail)
      rw [List.flatten_cons, stream_append, List.length_append, ← Nat.add_assoc, ← place]
      exact List.mem_map_of_mem (called.drops.subset entry member)
  · intro done todo whole more ended cut
    rw [List.flatten_cons] at whole
    rcases List.append_eq_append_iff.mp whole with ⟨later, rfl, divided⟩ | ⟨rest, divided, after⟩
    · -- the place is behind this call
      obtain ⟨entry, member, place⟩ := List.mem_map.mp cut
      rw [endsCycle_append, called.ended] at ended
      rw [stream_append, List.length_append] at place
      have kept : entry ∈ chunksAt (offset + (stream p mid).length) next.input := by
        rcases called.drops.dropped entry member with kept | before
        · exact kept
        · omega
      obtain ⟨before, after, rfl, front, back⟩ := calls.complete later todo divided more ended
        (List.mem_map.mpr ⟨entry, kept, by omega⟩)
      exact ⟨mid :: before, after, rfl, by rw [List.flatten_cons, front], back⟩
    · cases done with
      | nil => exact ⟨[], mid :: parts, rfl, rfl, by simpa using whole⟩
      | cons r done =>
        cases rest with
        | nil =>
          refine ⟨[mid], parts, rfl, ?_, ?_⟩
          · simpa using divided
          · simpa using after.symm
        | cons r' rest =>
          -- a chunk starting with a cycle inside this call would have ended it
          obtain ⟨entry, member, place⟩ := List.mem_map.mp cut
          have size := r.length_encode p
          have four := p.four_le_recordAlignment
          have start : offset + (stream p (r :: done)).length ∈ cycleStarts p true offset mid := by
            rw [divided]
            exact mem_cycleStarts (by simp) ended
          rw [same] at member
          rcases List.mem_cons.mp member with rfl | later
          · dsimp only at place
            rw [stream_cons, List.length_append] at place
            omega
          · have clear := called.untouched _ start entry (by rw [same]; exact later)
            omega

theorem HeadersWhole.call {mid todo : List Record}
    (some : link.input ≠ []) (called : Called p bus offset link next mid)
    (later : HeadersWhole p true (offset + (stream p mid).length) todo (offset + (stream p mid).length) next.input) :
    HeadersWhole p true offset (mid ++ todo) offset link.input := by
  obtain ⟨chunk, input, same⟩ := List.exists_cons_of_ne_nil some
  intro start member cut here
  rw [cycleStarts_append, called.ended] at member
  rcases List.mem_append.mp member with first | behind
  · have above := cycleStarts_ge first
    rw [same] at here
    rcases List.mem_cons.mp here with rfl | tail
    · dsimp only
      omega
    · have clear := called.untouched start first cut (by rw [same]; exact tail)
      omega
  · rcases called.drops.dropped cut here with kept | before
    · exact later start behind cut kept
    · have above := cycleStarts_ge behind
      omega

theorem Called.torn {mid todo : List Record}
    (called : Called p bus offset link next mid)
    (torn : Torn p true (offset + (stream p mid).length) todo (chunksAt (offset + (stream p mid).length) next.input)) :
    Torn p true offset (mid ++ todo) (chunksAt offset link.input) := by
  obtain ⟨start, member, cut, here, inside⟩ := torn
  refine ⟨start, ?_, cut, called.drops.subset cut here, inside⟩
  rw [cycleStarts_append, called.ended]
  exact List.mem_append_right _ member

theorem ebDeviceSlave_idle (peer : Peer) (bus : Bus σ) (link : Link σ socket) (empty : link.input = []) :
    ebDeviceSlave socket peer 0 bus link =
      (.idle, { link with input := [], log := link.log ++ [.recv 0 socket.bufferSize] }) := by
  unfold ebDeviceSlave
  rw [empty]
  rfl

theorem Waiting.nil_input {p : { p : Port // p.word = socket.word }}
    (waiting : Waiting p offset [] link) : link.input = [] := by
  cases same : link.input with
  | nil => rfl
  | cons chunk input =>
    have flat := waiting.input_eq
    rw [same, List.flatten_cons, stream_nil] at flat
    exact absurd (List.append_eq_nil_iff.mp flat).1 (waiting.some chunk (same ▸ List.mem_cons_self))

theorem serve_step (peer : Peer) (bus : Bus σ) (calls : Nat) (link : Link σ socket)
    (alive : (ebDeviceSlave socket peer 0 bus link).1 = .more ∨ (ebDeviceSlave socket peer 0 bus link).1 = .idle) :
    serve socket peer 0 bus (calls + 1) link =
      serve socket peer 0 bus calls (ebDeviceSlave socket peer 0 bus link).2 := by
  rw [serve]
  generalize ebDeviceSlave socket peer 0 bus link = result at alive
  obtain ⟨outcome, next⟩ := result
  rcases alive with more | idle
  · cases more
    rfl
  · cases idle
    rfl

theorem serve_waiting {p : { p : Port // p.word = socket.word }}
    (peer : Peer) (bus : Bus σ) (calls : Nat) (alone : peer ≠ .transport)
    (waiting : Waiting p offset rest link) (enough : link.input.length ≤ calls) :
    ((serve socket peer 0 bus calls link).1 = .kill ∧ Torn p.val true offset rest (chunksAt offset link.input)) ∨
      ((serve socket peer 0 bus calls link).1 = .idle ∧ HeadersWhole p.val true offset rest offset link.input ∧
        ∃ parts, parts.flatten = rest ∧ CallsAt p.val offset link.input parts ∧
          (serve socket peer 0 bus calls link).2.bus = (runCalls p.val bus link.bus link.trace parts).1.bus ∧
          (serve socket peer 0 bus calls link).2.trace = (runCalls p.val bus link.bus link.trace parts).1.trace ∧
          (serve socket peer 0 bus calls link).2.sent.flatten =
            link.sent.flatten ++ stream p.val (runCalls p.val bus link.bus link.trace parts).2) := by
  induction calls generalizing offset rest link with
  | zero =>
    cases rest with
    | nil =>
      refine Or.inr ⟨rfl, ?_, [], rfl, CallsAt.nil _ _ _, rfl, rfl, (List.append_nil _).symm⟩
      intro start member
      cases member
    | cons r rest =>
      obtain ⟨chunk, input, same, _⟩ := waiting.first
      rw [same, List.length_cons] at enough
      omega
  | succ calls ih =>
    cases rest with
    | nil =>
      have empty := waiting.nil_input
      have idle := ebDeviceSlave_idle peer bus link empty
      have still : Waiting p offset [] { link with input := [], log := link.log ++ [.recv 0 socket.bufferSize] } :=
        ⟨waiting.negotiated, waiting.fits, waiting.ended, rfl, by simp, empty ▸ waiting.granted⟩
      rw [serve_step peer bus calls link (by rw [idle]; exact Or.inr rfl), idle, empty]
      exact ih still (Nat.zero_le _)
    | cons r rest =>
      obtain ⟨chunk, input, same, _⟩ := waiting.first
      have some : link.input ≠ [] := by simp [same]
      rcases waiting.call peer bus (by simp) with ⟨killed, torn⟩ | ⟨outcome, mid, todo, split, called, next⟩
      · left
        refine ⟨?_, torn⟩
        rw [serve]
        generalize ebDeviceSlave socket peer 0 bus link = result at killed
        obtain ⟨outcome, after⟩ := result
        cases killed
        simp only [if_neg alone]
      · rw [serve_step peer bus calls link (Or.inl outcome), split]
        generalize (ebDeviceSlave socket peer 0 bus link).2 = after at called next
        have shorter := called.shorter
        rcases ih next (by omega) with ⟨killed, torn⟩ | ⟨idle, clean, parts, whole, located, state, trace, sent⟩
        · exact Or.inl ⟨killed, called.torn torn⟩
        · refine Or.inr ⟨idle, HeadersWhole.call some called clean, mid :: parts, by rw [List.flatten_cons, whole],
            CallsAt.cons some called located, ?_, ?_, ?_⟩
          · rw [state, called.bus_eq, called.trace_eq]
            rfl
          · rw [trace, called.bus_eq, called.trace_eq]
            rfl
          · rw [sent, called.sent_eq, called.bus_eq, called.trace_eq, List.append_assoc, ← stream_append]
            rfl

/-- A stream of whole cycles, cut into the chunks that successive `poll` and `recv` calls return. -/
structure Delivery (p : Port) where
  records : List Record
  chunks : List (List Byte)
  fits : ∀ r ∈ records, r.Fits p
  ended : endsCycle true records = true
  whole : chunks.flatten = stream p records
  some : ∀ chunk ∈ chunks, chunk ≠ []
  granted : Granted p 0 records 0 chunks

theorem Delivery.waiting {p : { p : Port // p.word = socket.word }} (delivery : Delivery p.val) (start : σ) :
    Waiting p 0 delivery.records (Link.fresh (Option.some p) start delivery.chunks) :=
  ⟨rfl, delivery.fits, delivery.ended, delivery.whole, delivery.some, delivery.granted⟩

end

end BelProject.Etherbone.Segments
