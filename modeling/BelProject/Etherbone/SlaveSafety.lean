import BelProject.Etherbone.Refill

/-! Buffer safety of `eb_device_slave` on arbitrary input. The reply stays behind the
request at every record boundary and inside every record, every access is inside the
buffer, the transport is never asked for nothing, and the loops end. -/

namespace BelProject.Etherbone.SlaveSafety
open BelProject.Library Memory Width Wire Header Execute Slave InPlace Refill

variable {σ : Type}

/-- The pointers are in order with `back` bytes in front of the read pointer still needed,
and the reply has not outgrown what was received and consumed. -/
structure Held (size total back : Nat) (st : Machine σ) : Prop where
  behind : st.wptr + back ≤ st.rptr
  within : st.rptr ≤ st.eos
  inside : st.eos ≤ size
  logged : Logged size st.log
  spent : st.sent.flatten.length + st.wptr + (st.eos - (st.rptr - back)) + st.input.flatten.length ≤ total

structure Settled (size total : Nat) (result : Result σ) : Prop where
  running : result.outcome ≠ .stuck
  logged : Logged size result.state.log
  spent : result.state.sent.flatten.length + result.state.input.flatten.length ≤ total

/-- Bytes buffered count once and bytes to come twice, so a refill makes progress too. -/
def ahead (st : Machine σ) : Nat := st.eos - st.rptr + 2 * st.input.flatten.length

theorem length_sent_le (st : Machine σ) :
    (if st.reply then st.sent ++ [slice st.buf 0 st.wptr] else st.sent).flatten.length ≤
      st.sent.flatten.length + st.wptr := by
  split
  · simp
  · omega

theorem Held.refilled {size total back : Nat} {st got : Machine σ} (held : Held size total back st)
    (refilled : Refilled size back st got) : Held size total back got ∧ ahead got < ahead st := by
  obtain ⟨behind, within, inside, logged, spent⟩ := held
  have granted := length_grant_le (size - (st.eos - (st.rptr - back))) st.input
  have split := congrArg List.length (grant_flatten (size - (st.eos - (st.rptr - back))) st.input)
  have sent := length_sent_le st
  have some := refilled.some
  have eos := refilled.eos_eq
  rw [List.length_append] at split
  refine ⟨⟨?_, ?_, ?_, refilled.logged logged, ?_⟩, ?_⟩
  · rw [refilled.wptr_eq, refilled.rptr_eq]
    omega
  · rw [refilled.rptr_eq]
    omega
  · omega
  · rw [refilled.sent_eq, refilled.wptr_eq, refilled.rptr_eq, refilled.input_eq, eos]
    omega
  · unfold ahead
    rw [refilled.rptr_eq, refilled.input_eq, eos]
    omega

theorem Held.starved {size total back : Nat} {st dead : Machine σ} (held : Held size total back st)
    (starved : Starved size back st dead) : Settled size total ⟨.kill, dead⟩ := by
  have sent := length_sent_le st
  have spent := held.spent
  refine ⟨by simp, starved.logged held.logged, ?_⟩
  show dead.sent.flatten.length + dead.input.flatten.length ≤ total
  rw [starved.sent_eq, starved.input_eq]
  omega

theorem length_reply_le (p : Port) (bus : Bus σ) (s : Session σ) (r : Record) :
    ((execRecord p bus s r).2.flatMap (Record.encode p)).length ≤ p.recordAlignment + span p r.reads.length := by
  have terminator : (cycleEndRecord.encode p).length = p.recordAlignment := by
    simp [Record.length_encode, cycleEndRecord, Record.total]
  by_cases empty : r.reads.isEmpty = true
  · simp only [execRecord, execReadPart, empty, if_true, List.nil_append]
    split
    · simp only [List.flatMap_cons, List.flatMap_nil, List.append_nil, terminator]
      omega
    · simp
  · have positive : r.reads.length > 0 := by
      cases same : r.reads with
      | nil => simp [same] at empty
      | cons word words => simp
    simp only [execRecord, execReadPart, Bool.eq_false_of_not_eq_true empty, Bool.false_eq_true, if_false,
      execReads_cycleOpen, Bool.not_and_self, List.append_nil, List.flatMap_cons, List.flatMap_nil]
    simp only [Record.length_encode, Record.total, replyRecord, length_execReads, List.length_nil, span,
      if_pos positive]
    simp

theorem Held.record {total : Nat} (p : Port) (bus : Bus σ) (flags select wcount rcount : Byte) (st : Machine σ)
    (held : Held p.bufferSize total p.recordAlignment st)
    (available : st.rptr + (span p wcount.toNat + span p rcount.toNat) ≤ st.eos)
    (ended : st.cycleEnd = (flags &&& recordCyc != 0)) :
    Held p.bufferSize total 0 (st.slaveRecord p bus flags select wcount rcount) ∧
      ahead (st.slaveRecord p bus flags select wcount rcount) ≤ ahead st := by
  obtain ⟨behind, within, inside, logged, spent⟩ := held
  obtain ⟨step, _, _⟩ := slaveRecord_advance p p.bufferSize bus flags select wcount rcount st behind available
    inside ended
  have bound := length_reply_le p bus st.session (recordAt p st.buf flags select wcount rcount st.rptr)
  rw [show (recordAt p st.buf flags select wcount rcount st.rptr).reads.length = rcount.toNat from
    length_words _ _ _ _] at bound
  have rptr := step.rptr_eq
  have wptr := step.wptr_eq
  have eos := step.eos_eq
  refine ⟨⟨by omega, by omega, by omega, step.logged logged, ?_⟩, ?_⟩
  · rw [step.sent_eq, step.input_eq]
    omega
  · unfold ahead
    rw [step.input_eq]
    omega

theorem total_span (p : Port) (wcount rcount : Byte) :
    Machine.recordTotal wcount rcount * p.alignment = span p wcount.toNat + span p rcount.toNat := by
  simp only [Machine.recordTotal, span, pos_iff_toNat]
  ring

theorem record_small (p : Port) (wcount rcount : Byte) :
    p.recordAlignment + (span p wcount.toNat + span p rcount.toNat) ≤ p.bufferSize := by
  have words : ∀ count : Byte, span p count.toNat ≤ 256 * p.word := by
    intro count
    apply Nat.mul_le_mul _ p.alignment_le_word
    have := count.toNat_lt
    split <;> omega
  have := words wcount
  have := words rcount
  have := p.recordAlignment_le
  unfold Port.bufferSize
  omega

theorem Held.readHeader {total : Nat} (p : Port) (st : Machine σ) (held : Held p.bufferSize total 0 st)
    (header : st.rptr + p.recordAlignment ≤ st.eos) :
    Held p.bufferSize total p.recordAlignment (st.readHeader p) := by
  obtain ⟨behind, within, inside, logged, spent⟩ := held
  have four := p.four_le_recordAlignment
  refine ⟨?_, header, inside, logged.push ⟨by omega, inside⟩, ?_⟩
  · show st.wptr + p.recordAlignment ≤ st.rptr + p.recordAlignment
    omega
  · show st.sent.flatten.length + st.wptr + (st.eos - (st.rptr + p.recordAlignment - p.recordAlignment)) +
      st.input.flatten.length ≤ total
    rw [Nat.add_sub_cancel]
    simpa only [Nat.sub_zero] using spent

theorem Held.boundary {size total : Nat} {st : Machine σ} (held : Held size total 0 st) :
    Held size total 0 (st.touch (.boundary st.wptr st.rptr)) :=
  ⟨held.behind, held.within, held.inside, held.logged.push held.behind, held.spent⟩

theorem Held.sent {size total : Nat} {st : Machine σ} (held : Held size total 0 st) (outcome : Outcome)
    (ended : outcome ≠ .stuck) : Settled size total ⟨outcome, st.send⟩ := by
  obtain ⟨behind, within, inside, logged, spent⟩ := held
  have sent := length_sent_le st
  refine ⟨ended, ?_, ?_⟩
  · rw [send_eq]
    dsimp only
    split
    · exact logged.push (show st.wptr ≤ size by omega)
    · exact logged
  · rw [send_eq]
    dsimp only
    omega

theorem slaveLoop_settled (p : Port) (bus : Bus σ) (mtu total fuel : Nat) (st : Machine σ)
    (held : Held p.bufferSize total 0 st) (enough : ahead st < fuel) :
    Settled p.bufferSize total (st.slaveLoop p bus mtu fuel) := by
  induction fuel generalizing st with
  | zero => omega
  | succ fuel ih =>
    have bounded := held.boundary
    have sameAhead : ahead (st.touch (.boundary st.wptr st.rptr)) = ahead st := rfl
    simp only [Machine.slaveLoop]
    generalize st.touch (.boundary st.wptr st.rptr) = st at bounded sameAhead ⊢
    by_cases header : st.rptr + p.recordAlignment ≤ st.eos
    · rw [if_pos header]
      have consumed : ahead (st.readHeader p) < ahead st := by
        have four := p.four_le_recordAlignment
        show st.eos - (st.rptr + p.recordAlignment) + 2 * st.input.flatten.length <
          st.eos - st.rptr + 2 * st.input.flatten.length
        omega
      have small := record_small p (st.buf (st.rptr + 2)) (st.buf (st.rptr + 3))
      have filled := fillRecord_rule p mtu (Machine.recordTotal (st.buf (st.rptr + 2)) (st.buf (st.rptr + 3)))
        (fun got => Held p.bufferSize total p.recordAlignment got ∧ ahead got ≤ ahead (st.readHeader p) ∧
          got.cycleEnd = (st.readHeader p).cycleEnd)
        (fun got holds => ⟨holds.1.behind, holds.1.within, holds.1.inside⟩)
        (by rw [total_span]; exact small)
        (by
          intro now next holds _ _ refilled
          obtain ⟨kept, less⟩ := holds.1.refilled refilled
          exact ⟨kept, by omega, refilled.cycleEnd_eq.trans holds.2.2⟩)
        (st.input.flatten.length + 1) (st.readHeader p) ⟨bounded.readHeader p st header, le_rfl, rfl⟩
        (Nat.lt_succ_self _)
      generalize (st.readHeader p).fillRecord p mtu (Machine.recordTotal (st.buf (st.rptr + 2))
        (st.buf (st.rptr + 3))) (st.input.flatten.length + 1) = attempt at filled ⊢
      cases attempt with
      | error result =>
        obtain ⟨killed, last, holds, _, reason⟩ := filled
        rcases reason with ⟨_, same⟩ | ⟨_, starved⟩
        · have spent := holds.1.spent
          exact ⟨by rw [killed]; simp, by rw [same]; exact holds.1.logged, by rw [same]; omega⟩
        · have settled := holds.1.starved starved
          exact ⟨by rw [killed]; simp, settled.logged, settled.spent⟩
      | ok full =>
        obtain ⟨⟨holds, less, ended⟩, available⟩ := filled
        have within := holds.within
        rw [total_span] at available
        obtain ⟨next, still⟩ := holds.record p bus (st.buf st.rptr) (st.buf (st.rptr + 1)) (st.buf (st.rptr + 2))
          (st.buf (st.rptr + 3)) full (by omega) ended
        exact ih _ next (by omega)
    · rw [if_neg header]
      have cycleEnd : st.send.cycleEnd = st.cycleEnd := by rw [send_eq]
      by_cases opened : st.send.cycleEnd = false
      · rw [if_pos opened]
        by_cases packet : mtu ≠ 0
        · rw [if_pos packet]
          exact bounded.sent .kill (by simp)
        · rw [if_neg packet]
          have within := bounded.within
          have := p.recordAlignment_le
          have refilled := refill_between p st bounded.behind within bounded.inside
            (by unfold Port.bufferSize; have := p.word_size; omega)
          generalize st.send.refill p = attempt at refilled ⊢
          cases attempt with
          | error dead => exact bounded.starved refilled
          | ok got =>
            obtain ⟨kept, less⟩ := bounded.refilled refilled
            exact ih got kept (by omega)
      · rw [if_neg opened]
        split
        · exact bounded.sent .kill (by simp)
        · exact bounded.sent .more (by simp)

variable {socket : Socket}

structure LinkSafe (total : Nat) (link : Link σ socket) : Prop where
  logged : Logged socket.bufferSize link.log
  spent : link.sent.flatten.length + link.input.flatten.length ≤ total

theorem poll_le (size mtu : Nat) (input : List (List Byte)) :
    (poll size mtu input).1.length ≤ size ∧
      (poll size mtu input).1.length + (poll size mtu input).2.flatten.length ≤ input.flatten.length := by
  cases input with
  | nil => exact ⟨Nat.zero_le _, le_rfl⟩
  | cons piece input =>
    refine ⟨List.length_take_le _ _, ?_⟩
    simp only [poll, List.flatten_cons, List.length_append, List.length_take]
    split
    · omega
    · simp only [List.flatten_cons, List.length_append, List.length_drop]
      omega

theorem begin_settled (p : Port) (bus : Bus σ) (mtu total start : Nat) (st : Machine σ)
    (wptr : st.wptr = start) (rptr : st.rptr = start) (cycleEnd : st.cycleEnd = true) (reply : st.reply = false)
    (inside : st.eos ≤ p.bufferSize) (logged : Logged p.bufferSize st.log)
    (spent : st.sent.flatten.length + st.eos + st.input.flatten.length ≤ total) :
    Settled p.bufferSize total (st.slaveLoop p bus mtu st.fuelFor) := by
  by_cases covered : start ≤ st.eos
  · apply slaveLoop_settled
    · refine ⟨by omega, by omega, inside, logged, ?_⟩
      rw [wptr, rptr]
      omega
    · unfold ahead Machine.fuelFor
      omega
  · have positive := p.four_le_recordAlignment
    unfold Machine.fuelFor
    simp only [Machine.slaveLoop]
    rw [if_neg (by simp only [Machine.touch]; omega), send_eq]
    simp only [Machine.touch, cycleEnd, reply, Bool.true_eq_false, Bool.false_eq_true, if_false]
    rw [if_pos (by omega)]
    refine ⟨by simp, logged.push ?_, ?_⟩
    · show st.wptr ≤ st.rptr
      omega
    · show st.sent.flatten.length + st.input.flatten.length ≤ total
      omega

theorem LinkSafe.finish {total : Nat} {link : Link σ socket} (bufferSize : Nat)
    (same : bufferSize = socket.bufferSize) {result : Result σ} (settled : Settled bufferSize total result) :
    LinkSafe total (link.finish result.state) :=
  ⟨same ▸ settled.logged, settled.spent⟩

theorem length_probeAnswer (socketWidths : UInt8) (packet : List Byte) (eight : packet.length = 8) :
    (probeAnswer socketWidths packet).length = 8 := by
  simp [probeAnswer, eight]

theorem ebDeviceSlave_safe (peer : Peer) (mtu total : Nat) (bus : Bus σ) (link : Link σ socket)
    (safe : LinkSafe total link) :
    (ebDeviceSlave socket peer mtu bus link).1 ≠ .stuck ∧
      LinkSafe total (ebDeviceSlave socket peer mtu bus link).2 := by
  obtain ⟨logged, spent⟩ := safe
  obtain ⟨fits, drained⟩ := poll_le socket.bufferSize mtu link.input
  have eight : 8 ≤ socket.bufferSize := by unfold Socket.bufferSize; omega
  have asked : Safe socket.bufferSize (.recv 0 socket.bufferSize) := ⟨by omega, by omega⟩
  unfold ebDeviceSlave
  generalize poll socket.bufferSize mtu link.input = polled at fits drained ⊢
  obtain ⟨bytes, input⟩ := polled
  dsimp only at fits drained ⊢
  have recvLogged := logged.push asked
  have header : Safe socket.bufferSize (.load 0 (min 4 bytes.length) bytes.length) := ⟨by omega, fits⟩
  have readLogged := recvLogged.push header
  split
  · exact ⟨by simp, recvLogged, by dsimp only; omega⟩
  · split
    · exact ⟨by simp, recvLogged, by dsimp only; omega⟩
    · split
      next p _ =>
        have same : p.val.bufferSize = socket.bufferSize := by
          unfold Port.bufferSize Socket.bufferSize
          rw [p.property]
        have settled := begin_settled p.val bus mtu total 0
          (Link.begin { link with input := input, log := link.log ++ [.recv 0 socket.bufferSize] } bytes input 0)
          rfl rfl rfl rfl (by rw [same]; exact fits) (by rw [same]; exact recvLogged)
          (by simp only [Link.begin, Machine.start]; omega)
        exact ⟨settled.running, LinkSafe.finish _ same settled⟩
      next =>
        split
        next => exact ⟨by simp, readLogged, by dsimp only; omega⟩
        next tag widths response =>
          have length := parseHeader_length _ _ _ (Or.inr ⟨tag, widths, response⟩)
          refine ⟨by simp, readLogged.push ⟨by omega, fits⟩, by dsimp only; omega⟩
        next offered probe =>
          have length := parseHeader_length _ _ _ (Or.inl ⟨offered, probe⟩)
          have answer := length_probeAnswer socket.widths bytes length
          have answered : LinkSafe total ({ link with
              input := input
              sent := link.sent ++ [probeAnswer socket.widths bytes]
              log := link.log ++ [.recv 0 socket.bufferSize] ++ [.load 0 (min 4 bytes.length) bytes.length] ++
                [.store 2 2 4, .send 8] } : Link σ socket) := by
            refine ⟨readLogged.append ?_, ?_⟩
            · intro event member
              simp only [List.mem_cons, List.not_mem_nil, or_false] at member
              rcases member with rfl | rfl
              · show 2 + 2 ≤ 4 ∧ 4 ≤ socket.bufferSize
                omega
              · exact eight
            · simp only [List.flatten_append, List.flatten_cons, List.flatten_nil, List.append_nil,
                List.length_append, answer]
              omega
          split
          · refine ⟨by simp, ?_⟩
            dsimp only
            split
            · exact ⟨answered.logged, answered.spent⟩
            · exact answered
          · exact ⟨by simp, answered⟩
        next offered _ =>
          split
          next possible =>
            have settled := begin_settled (socket.port offered possible) bus mtu total
              (socket.port offered possible).headerAlignment
              (Link.beginPacket { link with
                input := input
                log := link.log ++ [.recv 0 socket.bufferSize] ++ [.load 0 (min 4 bytes.length) bytes.length] }
                bytes input (socket.port offered possible).headerAlignment)
              rfl rfl rfl rfl fits (readLogged.push (show Safe _ (.store 2 1 4) from ⟨by omega, by omega⟩))
              (by simp only [Link.beginPacket, Link.begin, Machine.start]; omega)
            exact ⟨settled.running, LinkSafe.finish _ rfl settled⟩
          next => exact ⟨by simp, readLogged, by dsimp only; omega⟩

theorem serve_safe (peer : Peer) (mtu total : Nat) (bus : Bus σ) (calls : Nat) (link : Link σ socket)
    (safe : LinkSafe total link) :
    (serve socket peer mtu bus calls link).1 ≠ .stuck ∧ LinkSafe total (serve socket peer mtu bus calls link).2 := by
  induction calls generalizing link with
  | zero => exact ⟨by simp [serve], safe⟩
  | succ calls ih =>
    obtain ⟨running, after⟩ := ebDeviceSlave_safe peer mtu total bus link safe
    unfold serve
    generalize ebDeviceSlave socket peer mtu bus link = result at running after ⊢
    obtain ⟨outcome, next⟩ := result
    cases outcome with
    | kill =>
      dsimp only
      split
      · exact ih next after
      · exact ⟨by simp, after⟩
    | stuck => exact absurd rfl running
    | more => exact ih next after
    | idle => exact ih next after
    | response tag widths => exact ih next after

/-- Whatever a peer sends and however the transport cuts it up, over any number of calls:
the loops end, every touch of the buffer is safe, the transport is asked for at least one
byte, and the replies are no longer than the requests received so far. -/
theorem ebDeviceSlave_buffer_safe (socket : Socket) (peer : Peer) (mtu : Nat) (bus : Bus σ)
    (negotiated : Option { p : Port // p.word = socket.word }) (start : σ) (input : List (List Byte)) (calls : Nat) :
    (serve socket peer mtu bus calls (Link.fresh negotiated start input)).1 ≠ .stuck ∧
      (∀ event ∈ (serve socket peer mtu bus calls (Link.fresh negotiated start input)).2.log,
        Safe socket.bufferSize event) ∧
      (serve socket peer mtu bus calls (Link.fresh negotiated start input)).2.sent.flatten.length +
        (serve socket peer mtu bus calls (Link.fresh negotiated start input)).2.input.flatten.length ≤
        input.flatten.length := by
  obtain ⟨running, logged, spent⟩ := serve_safe peer mtu input.flatten.length bus calls
    (Link.fresh negotiated start input) ⟨Logged.nil _, by simp [Link.fresh]⟩
  exact ⟨running, logged, spent⟩

end BelProject.Etherbone.SlaveSafety
