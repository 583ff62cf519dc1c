import BelProject.Etherbone.Slave

/-! A record executed inside the buffer it arrived in. Requests are consumed from the
front while the reply grows behind them; the reply never catches up, so what is read is
what arrived, and the bytes left behind are the encoding of the reply record. -/

namespace BelProject.Etherbone.InPlace
open BelProject.Library Memory Width Wire Execute Slave
open BigEndian (decode encode length_encode)

/-- A touch that stays inside a buffer of the given size and never overwrites a byte that
has not been consumed. -/
def Safe (size : Nat) : Touch → Prop
  | .boundary wptr rptr => wptr ≤ rptr
  | .load offset length eos => offset + length ≤ eos ∧ eos ≤ size
  | .store offset length rptr => offset + length ≤ rptr ∧ rptr ≤ size
  | .move source length => source + length ≤ size
  | .recv offset asked => 0 < asked ∧ offset + asked ≤ size
  | .send length => length ≤ size

instance (size : Nat) (event : Touch) : Decidable (Safe size event) := by
  cases event <;> unfold Safe <;> infer_instance

def Logged (size : Nat) (log : List Touch) : Prop := ∀ event ∈ log, Safe size event

theorem Logged.nil (size : Nat) : Logged size [] := by
  intro event member
  cases member

theorem Logged.append {size : Nat} {first second : List Touch} (left : Logged size first)
    (right : Logged size second) : Logged size (first ++ second) := by
  intro event member
  exact (List.mem_append.mp member).elim (left event) (right event)

theorem Logged.push {size : Nat} {log : List Touch} {event : Touch} (logged : Logged size log)
    (safe : Safe size event) : Logged size (log ++ [event]) :=
  logged.append (List.forall_mem_singleton.mpr safe)

variable {σ : Type}

/-- From `st` to `st'` the slave consumed some request bytes and appended `reply` behind
what it had written before; everything not yet consumed is as it was. -/
structure Advance (size : Nat) (st st' : Machine σ) (consumed : Nat) (reply : List Byte) : Prop where
  rptr_eq : st'.rptr = st.rptr + consumed
  wptr_eq : st'.wptr = st.wptr + reply.length
  eos_eq : st'.eos = st.eos
  cycleEnd_eq : st'.cycleEnd = st.cycleEnd
  input_eq : st'.input = st.input
  sent_eq : st'.sent = st.sent
  written : slice st'.buf 0 st'.wptr = slice st.buf 0 st.wptr ++ reply
  ahead : ∀ i, st'.rptr ≤ i → st'.buf i = st.buf i
  logged : Logged size st.log → Logged size st'.log

namespace Advance
variable {size : Nat} {st st' st'' : Machine σ} {first second : Nat} {head tail : List Byte}

theorem refl (size : Nat) (st : Machine σ) : Advance size st st 0 [] :=
  ⟨rfl, rfl, rfl, rfl, rfl, rfl, by simp, fun _ _ => rfl, id⟩

theorem trans (left : Advance size st st' first head) (right : Advance size st' st'' second tail) :
    Advance size st st'' (first + second) (head ++ tail) where
  rptr_eq := by rw [right.rptr_eq, left.rptr_eq, Nat.add_assoc]
  wptr_eq := by rw [right.wptr_eq, left.wptr_eq, List.length_append, Nat.add_assoc]
  eos_eq := right.eos_eq.trans left.eos_eq
  cycleEnd_eq := right.cycleEnd_eq.trans left.cycleEnd_eq
  input_eq := right.input_eq.trans left.input_eq
  sent_eq := right.sent_eq.trans left.sent_eq
  written := by rw [right.written, left.written, List.append_assoc]
  ahead := by
    intro i above
    have behind := right.rptr_eq
    rw [right.ahead i above, left.ahead i (by omega)]
  logged := right.logged ∘ left.logged

theorem session (step : Advance size st st' first head) (session : Session σ) (reply : Bool) :
    Advance size st { st' with session := session, reply := reply } first head :=
  ⟨step.rptr_eq, step.wptr_eq, step.eos_eq, step.cycleEnd_eq, step.input_eq, step.sent_eq, step.written,
    step.ahead, step.logged⟩

end Advance

variable (p : Port)

theorem ebLoad_advance (size : Nat) (st : Machine σ) (available : st.rptr + p.alignment ≤ st.eos)
    (inside : st.eos ≤ size) : Advance size st (st.ebLoad p).2 p.alignment [] where
  rptr_eq := rfl
  wptr_eq := rfl
  eos_eq := rfl
  cycleEnd_eq := rfl
  input_eq := rfl
  sent_eq := rfl
  written := by simp [Machine.ebLoad, Machine.touch]
  ahead := fun _ _ => rfl
  logged := fun logged => logged.push ⟨available, inside⟩

theorem put_advance (size : Nat) (st : Machine σ) (bytes : List Byte)
    (behind : st.wptr + bytes.length ≤ st.rptr) (inside : st.rptr ≤ size) :
    Advance size st (st.put bytes) 0 bytes where
  rptr_eq := rfl
  wptr_eq := rfl
  eos_eq := rfl
  cycleEnd_eq := rfl
  input_eq := rfl
  sent_eq := rfl
  written := by
    have appended := slice_store_append st.buf 0 st.wptr bytes
    rw [Nat.zero_add] at appended
    exact appended
  ahead := by
    intro i above
    exact store_outside st.buf st.wptr bytes i (Or.inr (behind.trans above))
  logged := fun logged => logged.push ⟨behind, inside⟩

def words (p : Port) (m : Mem) : Nat → Nat → List Nat
  | _, 0 => []
  | offset, count + 1 => decode (slice m offset p.alignment) :: words p m (offset + p.alignment) count

@[simp] theorem length_words (m : Mem) (offset count : Nat) :
    (words p m offset count).length = count := by
  induction count generalizing offset with
  | zero => rfl
  | succ count ih => simp only [words, List.length_cons, ih]

theorem words_congr (m m' : Mem) (offset count : Nat) (same : ∀ i, offset ≤ i → m i = m' i) :
    words p m offset count = words p m' offset count := by
  induction count generalizing offset with
  | zero => rfl
  | succ count ih =>
    simp only [words]
    rw [slice_congr m m' offset p.alignment (fun i low _ => same i low),
      ih (offset + p.alignment) (fun i low => same i (by omega))]

/-- Bytes of the base address and the words behind it. -/
def span (p : Port) (count : Nat) : Nat := (count + if count > 0 then 1 else 0) * p.alignment

@[simp] theorem span_zero : span p 0 = 0 := by simp [span]

theorem span_pos {count : Nat} (positive : count > 0) : span p count = p.alignment + count * p.alignment := by
  rw [span, if_pos positive, Nat.add_mul, Nat.one_mul, Nat.add_comm]

/-- The record whose header has been read and whose body starts at `offset`. -/
def recordAt (p : Port) (m : Mem) (flags select wcount rcount : Byte) (offset : Nat) : Record :=
  { flags := flags
    select := select
    bwa := if wcount.toNat > 0 then decode (slice m offset p.alignment) else 0
    writes := words p m (offset + p.alignment) wcount.toNat
    bra := if rcount.toNat > 0 then
        decode (slice m (offset + span p wcount.toNat) p.alignment) else 0
    reads := words p m (offset + span p wcount.toNat + p.alignment) rcount.toNat }

theorem slaveWrites_advance (size : Nat) (bus : Bus σ) (lanes : Lanes) (wconfig wfifo : Bool)
    (count bwa bwaB bwaL : Nat) (st : Machine σ) (available : st.rptr + count * p.alignment ≤ st.eos)
    (inside : st.eos ≤ size) :
    Advance size st (st.slaveWrites p bus lanes wconfig wfifo count bwa bwaB bwaL) (count * p.alignment) [] ∧
      (st.slaveWrites p bus lanes wconfig wfifo count bwa bwaB bwaL).session =
        execWrites p bus lanes wconfig wfifo bwa bwaB bwaL (words p st.buf st.rptr count) st.session := by
  induction count generalizing st bwa bwaB bwaL with
  | zero =>
    rw [Nat.zero_mul]
    exact ⟨Advance.refl size st, rfl⟩
  | succ count ih =>
    rw [Nat.succ_mul] at available
    have load := ebLoad_advance p size st (by omega) inside
    simp only [Machine.slaveWrites]
    generalize stepped : (perform bus (st.ebLoad p).2.session
      (writeRequest p lanes wconfig bwa bwaB bwaL (st.ebLoad p).1)).1 = session
    have first := load.session session (st.ebLoad p).2.reply
    obtain ⟨rest, same⟩ := ih (nextAddress p wfifo bwa) (nextAddress p wfifo bwaB) (nextAddress p wfifo bwaL)
      { (st.ebLoad p).2 with session := session } (by simp only [Machine.ebLoad, Machine.touch]; omega) inside
    refine ⟨?_, ?_⟩
    · rw [Nat.succ_mul, Nat.add_comm]
      exact first.trans rest
    · rw [same, words, execWrites]
      exact congrArg _ stepped.symm

theorem slaveWrites_reply (bus : Bus σ) (lanes : Lanes) (wconfig wfifo : Bool)
    (count bwa bwaB bwaL : Nat) (st : Machine σ) :
    (st.slaveWrites p bus lanes wconfig wfifo count bwa bwaB bwaL).reply = st.reply := by
  induction count generalizing st bwa bwaB bwaL with
  | zero => rfl
  | succ count ih =>
    simp only [Machine.slaveWrites]
    rw [ih]
    rfl

theorem slaveReads_reply (bus : Bus σ) (lanes : Lanes) (rconfig : Bool) (count : Nat)
    (st : Machine σ) : (st.slaveReads p bus lanes rconfig count).reply = st.reply := by
  induction count generalizing st with
  | zero => rfl
  | succ count ih =>
    simp only [Machine.slaveReads]
    rw [ih]
    rfl

theorem slaveReads_advance (size : Nat) (bus : Bus σ) (lanes : Lanes) (rconfig : Bool)
    (count : Nat) (st : Machine σ) (available : st.rptr + count * p.alignment ≤ st.eos)
    (behind : st.wptr ≤ st.rptr) (inside : st.eos ≤ size) :
    Advance size st (st.slaveReads p bus lanes rconfig count) (count * p.alignment)
        ((execReads p bus lanes rconfig (words p st.buf st.rptr count) st.session).2.flatMap
          (encode p.alignment)) ∧ (st.slaveReads p bus lanes rconfig count).session =
        (execReads p bus lanes rconfig (words p st.buf st.rptr count) st.session).1 := by
  induction count generalizing st with
  | zero =>
    rw [Nat.zero_mul]
    exact ⟨Advance.refl size st, rfl⟩
  | succ count ih =>
    rw [Nat.succ_mul] at available
    have load := ebLoad_advance p size st (by omega) inside
    simp only [Machine.slaveReads]
    generalize stepped : perform bus (st.ebLoad p).2.session (readRequest p lanes rconfig (st.ebLoad p).1) = answer
    have first := load.session answer.1 (st.ebLoad p).2.reply
    generalize loaded : ({ (st.ebLoad p).2 with session := answer.1 } : Machine σ) = mid at first
    have midSession : mid.session = answer.1 := by rw [← loaded]
    have rptr := first.rptr_eq
    have wptr := first.wptr_eq
    have eos := first.eos_eq
    have store := put_advance size mid (encode p.alignment (replyWord p lanes answer.2))
      (by simp only [length_encode, List.length_nil] at wptr ⊢; omega) (by omega)
    have both := first.trans store
    obtain ⟨rest, same⟩ := ih (mid.ebSWrite p (replyWord p lanes answer.2))
      (by have := both.rptr_eq; have := both.eos_eq; simp only [Machine.ebSWrite] at *; omega)
      (by
        have := both.rptr_eq
        have := both.wptr_eq
        simp only [Machine.ebSWrite, List.length_append, length_encode, List.length_nil] at *
        omega)
      (by have := both.eos_eq; simp only [Machine.ebSWrite] at *; omega)
    have pending : words p (mid.ebSWrite p (replyWord p lanes answer.2)).buf
        (mid.ebSWrite p (replyWord p lanes answer.2)).rptr count =
        words p st.buf (st.rptr + p.alignment) count := by
      have reached : (mid.ebSWrite p (replyWord p lanes answer.2)).rptr = st.rptr + p.alignment := both.rptr_eq
      rw [reached]
      apply words_congr
      intro i above
      exact both.ahead i (by rw [both.rptr_eq]; omega)
    have sessions : (mid.ebSWrite p (replyWord p lanes answer.2)).session = answer.1 := midSession
    rw [pending, sessions] at rest same
    have unfolded : execReads p bus lanes rconfig (words p st.buf st.rptr (count + 1)) st.session =
        ((execReads p bus lanes rconfig (words p st.buf (st.rptr + p.alignment) count) answer.1).1,
          replyWord p lanes answer.2 ::
            (execReads p bus lanes rconfig (words p st.buf (st.rptr + p.alignment) count) answer.1).2) := by
      rw [← stepped]
      rfl
    rw [unfolded]
    refine ⟨?_, same⟩
    have whole := both.trans rest
    simp only [List.nil_append, Nat.add_zero] at whole
    rw [Nat.succ_mul, Nat.add_comm, List.flatMap_cons]
    exact whole

theorem pos_iff_toNat (count : Byte) : count > 0 ↔ count.toNat > 0 := UInt8.lt_iff_toNat_lt

theorem toNat_eq_zero (count : Byte) (none : ¬count > 0) : count.toNat = 0 := by
  rw [pos_iff_toNat] at none
  omega

theorem slaveWritePart_advance (size : Nat) (bus : Bus σ) (flags select wcount rcount : Byte)
    (st : Machine σ) (available : st.rptr + span p wcount.toNat ≤ st.eos) (inside : st.eos ≤ size) :
    Advance size st (st.slaveWritePart p bus flags (decodeSelect p select) wcount) (span p wcount.toNat) [] ∧
      (st.slaveWritePart p bus flags (decodeSelect p select) wcount).session =
        execWritePart p bus st.session (recordAt p st.buf flags select wcount rcount st.rptr) ∧
      (st.slaveWritePart p bus flags (decodeSelect p select) wcount).reply = st.reply := by
  by_cases some : wcount > 0
  · have positive := (pos_iff_toNat wcount).mp some
    rw [span_pos p positive] at available ⊢
    have load := ebLoad_advance p size st (by omega) inside
    generalize base : baseAddresses p (decodeSelect p select) (flags &&& recordWca != 0) (st.ebLoad p).1 = bases
    obtain ⟨step, session⟩ := slaveWrites_advance p size bus (decodeSelect p select) (flags &&& recordWca != 0)
      (flags &&& recordWff != 0) wcount.toNat bases.1 bases.2.1 bases.2.2 (st.ebLoad p).2
      (by simp only [Machine.ebLoad, Machine.touch]; omega) inside
    have unfolded : st.slaveWritePart p bus flags (decodeSelect p select) wcount =
        (st.ebLoad p).2.slaveWrites p bus (decodeSelect p select) (flags &&& recordWca != 0)
          (flags &&& recordWff != 0) wcount.toNat bases.1 bases.2.1 bases.2.2 := by
      rw [← base]
      simp only [Machine.slaveWritePart, if_pos some]
    rw [unfolded]
    refine ⟨load.trans step, ?_, slaveWrites_reply _ _ _ _ _ _ _ _ _ _⟩
    rw [session, ← base]
    simp only [execWritePart, recordAt, if_pos positive]
    rfl
  · simp only [Machine.slaveWritePart, if_neg some, execWritePart, recordAt, toNat_eq_zero wcount some, words,
      execWrites, span_zero]
    exact ⟨Advance.refl size st, trivial, trivial⟩

theorem padded_header (r : Record) (flags select wcount rcount : Byte) (sameFlags : r.flags = flags)
    (sameSelect : r.select = select) (writes : r.writes.length = wcount.toNat) (reads : r.reads.length = rcount.toNat) :
    Machine.padded p [flags, select, wcount, rcount] = r.header p := by
  rw [Record.header, writes, reads, sameFlags, sameSelect, UInt8.ofNat_toNat, UInt8.ofNat_toNat]
  rfl

theorem slaveReadPart_advance (size : Nat) (bus : Bus σ) (flags select rcount : Byte) (st : Machine σ)
    (r : Record) (header : st.wptr + p.recordAlignment ≤ st.rptr)
    (available : st.rptr + span p rcount.toNat ≤ st.eos) (inside : st.eos ≤ size) (sameFlags : r.flags = flags)
    (sameSelect : r.select = select)
    (bra : rcount.toNat > 0 → r.bra = decode (slice st.buf st.rptr p.alignment))
    (reads : r.reads = words p st.buf (st.rptr + p.alignment) rcount.toNat)
    (ended : st.cycleEnd = r.has recordCyc) (some : rcount > 0) :
    let lanes := decodeSelect p select
    let done := execReads p bus lanes (r.has recordRca) r.reads
      { st.session with cycleOpen := !r.has recordCyc }
    Advance size st (st.slaveReadPart p bus flags select lanes rcount) (span p rcount.toNat)
        ((replyRecord r done.2).encode p) ∧
      (st.slaveReadPart p bus flags select lanes rcount).session = done.1 ∧
      (st.slaveReadPart p bus flags select lanes rcount).reply = true := by
  intro lanes done
  have positive := (pos_iff_toNat rcount).mp some
  rw [span_pos p positive] at available ⊢
  have replies : done.2.length = rcount.toNat := by simp only [done, length_execReads, reads, length_words]
  have headerEq : Machine.padded p [(flags &&& recordCyc) ||| (if flags &&& recordBca != 0 then recordWca else 0) |||
      (if flags &&& recordRff != 0 then recordWff else 0), select, rcount, 0] = (replyRecord r done.2).header p := by
    apply padded_header
    · rw [replyRecord, ← sameFlags]
      rfl
    · exact sameSelect
    · exact replies
    · rfl
  generalize opened : ({ st with reply := true }).put ((replyRecord r done.2).header p) = s1
  have step1 : Advance size st s1 0 ((replyRecord r done.2).header p) := by
    rw [← opened]
    have turned : Advance size st { st with reply := true } 0 [] := (Advance.refl size st).session st.session true
    have stored := put_advance size { st with reply := true } ((replyRecord r done.2).header p)
      (by rw [Record.length_header]; exact header) (by dsimp only; omega)
    exact turned.trans stored
  have session1 : s1.session = st.session := by rw [← opened]; rfl
  have reply1 : s1.reply = true := by rw [← opened]; rfl
  generalize marked : ({ s1 with session := { s1.session with cycleOpen := !s1.cycleEnd } } : Machine σ) = s2
  have step2 : Advance size st s2 0 ((replyRecord r done.2).header p) := by
    rw [← marked]
    exact step1.session _ s1.reply
  have session2 : s2.session = { st.session with cycleOpen := !r.has recordCyc } := by
    rw [← marked, session1, step1.cycleEnd_eq, ended]
  have reply2 : s2.reply = true := by rw [← marked]; exact reply1
  have rptr2 := step2.rptr_eq
  have wptr2 := step2.wptr_eq
  have eos2 := step2.eos_eq
  rw [Record.length_header] at wptr2
  have load := ebLoad_advance p size s2 (by omega) (by omega)
  have loaded : (s2.ebLoad p).1 = r.bra := by
    have same : slice s2.buf s2.rptr p.alignment = slice st.buf st.rptr p.alignment := by
      rw [rptr2]
      apply slice_congr
      intro i low _
      exact step2.ahead i (by omega)
    rw [bra positive, ← same]
    rfl
  have echo := put_advance size (s2.ebLoad p).2 (encode p.alignment r.bra)
    (by have := load.rptr_eq; have := load.wptr_eq; simp only [length_encode, List.length_nil] at *; omega)
    (by have := load.rptr_eq; omega)
  have step4 := (step2.trans load).trans echo
  generalize echoed : (s2.ebLoad p).2.put (encode p.alignment r.bra) = s4 at step4
  have rptr4 := step4.rptr_eq
  have wptr4 := step4.wptr_eq
  have eos4 := step4.eos_eq
  simp only [List.append_nil, List.length_append, Record.length_header, length_encode] at wptr4
  have session4 : s4.session = { st.session with cycleOpen := !r.has recordCyc } := by rw [← echoed, ← session2]; rfl
  have reply4 : s4.reply = true := by rw [← echoed]; exact reply2
  obtain ⟨rest, session⟩ := slaveReads_advance p size bus lanes (r.has recordRca) rcount.toNat s4
    (by omega) (by omega) (by omega)
  have pending : words p s4.buf s4.rptr rcount.toNat = r.reads := by
    rw [reads, rptr4]
    simp only [Nat.zero_add, Nat.add_zero]
    apply words_congr
    intro i low
    exact step4.ahead i (by omega)
  rw [pending, session4] at rest session
  have unfolded : st.slaveReadPart p bus flags select lanes rcount =
      s4.slaveReads p bus lanes (r.has recordRca) rcount.toNat := by
    rw [← echoed, ← loaded, ← marked, ← opened, ← headerEq]
    simp only [Machine.slaveReadPart, if_pos some]
    rw [← sameFlags]
    rfl
  rw [unfolded]
  refine ⟨?_, session, (slaveReads_reply _ _ _ _ _ _).trans reply4⟩
  have whole := step4.trans rest
  have encoded : (replyRecord r done.2).encode p = (replyRecord r done.2).header p ++ [] ++
      encode p.alignment r.bra ++ done.2.flatMap (encode p.alignment) := by
    have nonempty : done.2.isEmpty = false := by
      cases empty : done.2 with
      | nil => simp [empty] at replies; omega
      | cons word words => rfl
    simp only [Record.encode, Record.block, replyRecord, nonempty, List.isEmpty_nil, List.flatMap_cons,
      Bool.false_eq_true, if_false, if_true, List.append_nil, List.append_assoc]
  rw [encoded]
  simpa only [Nat.zero_add, Nat.add_zero] using whole

theorem padded_cycleEnd (flags : Byte) (ended : (flags &&& recordCyc != 0) = true) :
    Machine.padded p [flags &&& recordCyc] = cycleEndRecord.encode p := by
  have bit : flags &&& recordCyc = recordCyc := by
    revert flags
    exact forall_byte (by decide)
  rw [bit]
  rcases p.recordAlignment_size with size | size
  · simp [Machine.padded, cycleEndRecord, Record.encode, Record.header, Record.block, size, List.replicate]
  · simp [Machine.padded, cycleEndRecord, Record.encode, Record.header, Record.block, size, List.replicate]

theorem slaveEndPart_advance (size : Nat) (flags : Byte) (st : Machine σ) (r : Record)
    (sameFlags : r.flags = flags) (ended : st.cycleEnd = r.has recordCyc) (inside : st.rptr ≤ size)
    (room : st.session.cycleOpen = true → r.has recordCyc = true → st.wptr + p.recordAlignment ≤ st.rptr) :
    Advance size st (st.slaveEndPart p flags) 0
      ((if st.session.cycleOpen && r.has recordCyc then [cycleEndRecord] else []).flatMap (Record.encode p)) ∧
      (st.slaveEndPart p flags).session = st.session ∧ (st.slaveEndPart p flags).reply = st.reply := by
  unfold Machine.slaveEndPart
  rw [ended]
  by_cases terminate : (st.session.cycleOpen && r.has recordCyc) = true
  · simp only [if_pos terminate, List.flatMap_cons, List.flatMap_nil, List.append_nil]
    obtain ⟨opened, cyc⟩ := Bool.and_eq_true_iff.mp terminate
    have encoded := padded_cycleEnd p flags (by rw [← sameFlags]; exact cyc)
    have length : (cycleEndRecord.encode p).length = p.recordAlignment := by
      simp [Record.length_encode, cycleEndRecord, Record.total]
    rw [encoded]
    exact ⟨put_advance size st _ (by rw [length]; exact room opened cyc) inside, rfl, rfl⟩
  · simp only [if_neg terminate, List.flatMap_nil]
    exact ⟨Advance.refl size st, trivial, trivial⟩

theorem slaveRecord_advance (size : Nat) (bus : Bus σ) (flags select wcount rcount : Byte)
    (st : Machine σ) (header : st.wptr + p.recordAlignment ≤ st.rptr)
    (available : st.rptr + (span p wcount.toNat + span p rcount.toNat) ≤ st.eos) (inside : st.eos ≤ size)
    (ended : st.cycleEnd = (flags &&& recordCyc != 0)) :
    let r := recordAt p st.buf flags select wcount rcount st.rptr
    Advance size st (st.slaveRecord p bus flags select wcount rcount) (span p wcount.toNat + span p rcount.toNat)
        ((execRecord p bus st.session r).2.flatMap (Record.encode p)) ∧
      (st.slaveRecord p bus flags select wcount rcount).session = (execRecord p bus st.session r).1 ∧
      (st.slaveRecord p bus flags select wcount rcount).reply = (st.reply || !r.reads.isEmpty) := by
  intro r
  obtain ⟨step1, session1, reply1⟩ := slaveWritePart_advance p size bus flags select wcount rcount st
    (by omega) inside
  simp only [Machine.slaveRecord]
  generalize st.slaveWritePart p bus flags (decodeSelect p select) wcount = s1 at step1 session1 reply1 ⊢
  have rptr1 := step1.rptr_eq
  have wptr1 := step1.wptr_eq
  have eos1 := step1.eos_eq
  rw [List.length_nil] at wptr1
  by_cases some : rcount > 0
  · have positive := (pos_iff_toNat rcount).mp some
    obtain ⟨step2, session2, reply2⟩ := slaveReadPart_advance p size bus flags select rcount s1 r (by omega)
      (by omega) (by omega) rfl rfl
      (by
        intro _
        rw [rptr1]
        simp only [r, recordAt, if_pos positive]
        exact congrArg decode (slice_congr _ _ _ _ fun i low _ => (step1.ahead i (by omega)).symm))
      (by
        rw [rptr1]
        exact words_congr _ _ _ _ _ fun i low => (step1.ahead i (by omega)).symm)
      (step1.cycleEnd_eq.trans ended) some
    generalize s1.slaveReadPart p bus flags select (decodeSelect p select) rcount = s2 at step2 session2 reply2 ⊢
    have rptr2 := step2.rptr_eq
    have eos2 := step2.eos_eq
    obtain ⟨step3, session3, reply3⟩ := slaveEndPart_advance p size flags s2 r rfl
      (by rw [step2.cycleEnd_eq, step1.cycleEnd_eq, ended]; rfl) (by omega)
      (by
        intro opened cyc
        rw [session2, execReads_cycleOpen] at opened
        simp only [cyc, Bool.not_true, Bool.false_eq_true] at opened)
    have nonempty : r.reads.isEmpty = false := by
      cases empty : r.reads with
      | nil =>
        have length : r.reads.length = rcount.toNat := length_words _ _ _ _
        rw [empty, List.length_nil] at length
        omega
      | cons word words => rfl
    have done : execReadPart p bus s1.session r = (s2.session, [replyRecord r
        (execReads p bus (decodeSelect p select) (r.has recordRca) r.reads
          { s1.session with cycleOpen := !r.has recordCyc }).2]) := by
      rw [session2]
      simp only [execReadPart, nonempty, Bool.false_eq_true, if_false]
      rfl
    have executed : execRecord p bus st.session r = (s2.session, [replyRecord r
        (execReads p bus (decodeSelect p select) (r.has recordRca) r.reads
          { s1.session with cycleOpen := !r.has recordCyc }).2] ++
          if s2.session.cycleOpen && r.has recordCyc then [cycleEndRecord] else []) := by
      simp only [execRecord, ← session1, r, done]
    rw [executed]
    refine ⟨?_, session3, ?_⟩
    · have whole := (step1.trans step2).trans step3
      simp only [List.flatMap_append, List.flatMap_cons, List.flatMap_nil, List.append_nil, List.nil_append,
        Nat.add_zero] at whole ⊢
      exact whole
    · rw [reply3, reply2, nonempty, Bool.not_false, Bool.or_true]
  · have zero := toNat_eq_zero rcount some
    have untouched : s1.slaveReadPart p bus flags select (decodeSelect p select) rcount = s1 := by
      simp only [Machine.slaveReadPart, if_neg some]
    rw [untouched]
    obtain ⟨step3, session3, reply3⟩ := slaveEndPart_advance p size flags s1 r rfl
      (by rw [step1.cycleEnd_eq, ended]; rfl) (by omega) (by intro _ _; omega)
    have empty : r.reads.isEmpty = true := by simp only [r, recordAt, zero, words, List.isEmpty_nil]
    have executed : execRecord p bus st.session r =
        (s1.session, if s1.session.cycleOpen && r.has recordCyc then [cycleEndRecord] else []) := by
      simp only [execRecord, ← session1, r, execReadPart, empty, if_true, List.nil_append]
    rw [executed]
    refine ⟨?_, session3, ?_⟩
    · rw [zero, span_zero]
      exact step1.trans step3
    · rw [reply3, reply1, empty, Bool.not_true, Bool.or_false]

end BelProject.Etherbone.InPlace
