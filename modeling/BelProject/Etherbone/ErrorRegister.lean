import BelProject.Etherbone.ConfigSpace
import BelProject.Etherbone.SdbScan
import Mathlib.Data.List.Induction

/-! The error register of a slave. Every operation on the bus shifts its outcome in, whether a
handler, the socket or the record parser decided it; config operations shift nothing. The
register is a variable of one call of `eb_device_slave` and starts from zero in each. -/

namespace BelProject.Etherbone.ErrorRegister
open BelProject.Library Width Wire Header Execute Slave InPlace Refill SlaveSafety Requests Agreement SdbScan

variable {σ : Type}

def outcome (bus : Bus σ) (s : σ) : Request → Option Bool
  | .busWrite width addrB addrL value => some (bus.write s width addrB addrL value).1
  | .busRead width addrB addrL => some (bus.read s width addrB addrL).2.1
  | .badBus => some true
  | .cfgWrite _ _ _ => none
  | .cfgRead _ _ => none
  | .badCfg => none

def outcomes (bus : Bus σ) : Session σ → List Request → List Bool
  | _, [] => []
  | s, request :: requests => (outcome bus s.bus request).toList ++ outcomes bus (perform bus s request).1 requests

def registerOf (outcomes : List Bool) : Nat := outcomes.foldl shiftError 0

theorem perform_error (bus : Bus σ) (s : Session σ) (request : Request) :
    (perform bus s request).1.error = (outcome bus s.bus request).toList.foldl shiftError s.error := by
  cases request <;> rfl

theorem runRequests_error (bus : Bus σ) (s : Session σ) (requests : List Request) :
    (runRequests bus s requests).1.error = (outcomes bus s requests).foldl shiftError s.error := by
  induction requests generalizing s with
  | nil => rfl
  | cons request requests ih =>
    rw [outcomes, List.foldl_append, ← perform_error]
    exact ih (perform bus s request).1

theorem testBit_shiftError (error : Nat) (failed : Bool) (j : Nat) (inside : j < 64) :
    (shiftError error failed).testBit j = if j = 0 then failed else error.testBit (j - 1) := by
  rw [shiftError, Nat.testBit_mod_two_pow, decide_eq_true inside, Bool.true_and, Nat.testBit_or, Nat.testBit_shiftLeft]
  cases j with
  | zero => cases failed <;> simp
  | succ j =>
    have none : failed.toNat.testBit (j + 1) = false := by
      apply Nat.testBit_lt_two_pow
      calc failed.toNat < 2 := failed.toNat_lt
        _ = 2 ^ 1 := rfl
        _ ≤ 2 ^ (j + 1) := Nat.pow_le_pow_right (by decide) (by omega)
    simp [none]

theorem testBit_register (outcomes : List Bool) (j : Nat) (inside : j < 64) :
    (registerOf outcomes).testBit j = (outcomes.reverse[j]?).getD false := by
  induction outcomes using List.reverseRecOn generalizing j with
  | nil => simp [registerOf]
  | append_singleton outcomes failed ih =>
    rw [registerOf, List.foldl_append, List.foldl_cons, List.foldl_nil, testBit_shiftError _ _ _ inside,
      List.reverse_append, List.reverse_singleton]
    cases j with
    | zero => rfl
    | succ j =>
      rw [if_neg (Nat.succ_ne_zero j), Nat.add_sub_cancel]
      exact ih j (by omega)

section
variable (p : Port)

def writeRequests (lanes : Lanes) (wconfig wfifo : Bool) : Nat → Nat → Nat → List Nat → List Request
  | _, _, _, [] => []
  | bwa, bwaB, bwaL, word :: words =>
    writeRequest p lanes wconfig bwa bwaB bwaL word ::
      writeRequests lanes wconfig wfifo (nextAddress p wfifo bwa) (nextAddress p wfifo bwaB)
        (nextAddress p wfifo bwaL) words

def recordRequests (r : Record) : List Request :=
  let lanes := decodeSelect p r.select
  let (bwa, bwaB, bwaL) := baseAddresses p lanes (r.has recordWca) r.bwa
  writeRequests p lanes (r.has recordWca) (r.has recordWff) bwa bwaB bwaL r.writes ++
    r.reads.map (readRequest p lanes (r.has recordRca))

variable {p} (bus : Bus σ)

theorem execWrites_requests (lanes : Lanes) (wconfig wfifo : Bool) (bwa bwaB bwaL : Nat)
    (words : List Nat) (s : Session σ) :
    execWrites p bus lanes wconfig wfifo bwa bwaB bwaL words s =
      (runRequests bus s (writeRequests p lanes wconfig wfifo bwa bwaB bwaL words)).1 := by
  induction words generalizing s bwa bwaB bwaL with
  | nil => rfl
  | cons word words ih =>
    rw [execWrites, ih]
    rfl

theorem execReads_requests (lanes : Lanes) (rconfig : Bool) (words : List Nat) (s : Session σ) :
    (execReads p bus lanes rconfig words s).1 = (runRequests bus s (words.map (readRequest p lanes rconfig))).1 := by
  induction words generalizing s with
  | nil => rfl
  | cons word words ih => exact ih (perform bus s (readRequest p lanes rconfig word)).1

theorem execRecord_requests (s : Session σ) (r : Record) :
    lineless (execRecord p bus s r).1 = (runRequests bus (lineless s) (recordRequests p r)).1 := by
  have written : execWritePart p bus s r = (runRequests bus s
    (writeRequests p (decodeSelect p r.select) (r.has recordWca)
      (r.has recordWff) (baseAddresses p (decodeSelect p r.select) (r.has recordWca) r.bwa).1
      (baseAddresses p (decodeSelect p r.select) (r.has recordWca) r.bwa).2.1
      (baseAddresses p (decodeSelect p r.select) (r.has recordWca) r.bwa).2.2 r.writes)).1 :=
    execWrites_requests bus _ _ _ _ _ _ _ s
  have read : lineless (execReadPart p bus (execWritePart p bus s r) r).1 =
      (runRequests bus (lineless (execWritePart p bus s r))
        (r.reads.map (readRequest p (decodeSelect p r.select) (r.has recordRca)))).1 := by
    rw [execReadPart]
    cases reads : r.reads with
    | nil => rfl
    | cons word words =>
      rw [List.isEmpty_cons, if_neg Bool.false_ne_true]
      simp only
      rw [execReads_requests]
      exact (runRequests_lineless bus _ _).1
  rw [execRecord, recordRequests, runRequests_append]
  change lineless (execReadPart p bus (execWritePart p bus s r) r).1 = _
  rw [read, written, ← (runRequests_lineless bus s _).1]

theorem execRecords_requests (s : Session σ) (records : List Record) :
    lineless (execRecords p bus s records).1 =
      (runRequests bus (lineless s) (records.flatMap (recordRequests p))).1 := by
  induction records generalizing s with
  | nil => rfl
  | cons r records ih =>
    rw [List.flatMap_cons, runRequests_append, ← execRecord_requests]
    exact ih (execRecord p bus s r).1

def executed (p : Port) (bus : Bus σ) (mtu : Nat) : Nat → Machine σ → List Record
  | 0, _ => []
  | fuel + 1, st =>
    let st := st.touch (.boundary st.wptr st.rptr)
    if st.rptr + p.recordAlignment ≤ st.eos then
      let flags := st.buf st.rptr
      let select := st.buf (st.rptr + 1)
      let wcount := st.buf (st.rptr + 2)
      let rcount := st.buf (st.rptr + 3)
      match Machine.fillRecord p mtu (Machine.recordTotal wcount rcount) (st.input.flatten.length + 1)
        (st.readHeader p) with
      | .error _ => []
      | .ok st => recordAt p st.buf flags select wcount rcount st.rptr ::
          executed p bus mtu fuel (st.slaveRecord p bus flags select wcount rcount)
    else
      let st := st.send
      if st.cycleEnd = false then
        if mtu ≠ 0 then []
        else
          match st.refill p with
          | .error _ => []
          | .ok st => executed p bus mtu fuel st
      else []

/-- The pointers are in order, with `back` bytes in front of the read pointer still needed. -/
structure Placed (size back : Nat) (st : Machine σ) : Prop where
  behind : st.wptr + back ≤ st.rptr
  within : st.rptr ≤ st.eos
  inside : st.eos ≤ size

theorem Placed.refilled {size back : Nat} {st got : Machine σ} (placed : Placed size back st)
    (refilled : Refilled size back st got) : Placed size back got := by
  have granted := length_grant_le (size - (st.eos - (st.rptr - back))) st.input
  have some := refilled.some
  have eos := refilled.eos_eq
  obtain ⟨behind, within, inside⟩ := placed
  refine ⟨?_, ?_, by omega⟩
  · rw [refilled.wptr_eq, refilled.rptr_eq, Nat.zero_add]
  · rw [refilled.rptr_eq]
    omega

theorem slaveLoop_session (mtu fuel : Nat) (st : Machine σ) (placed : Placed p.bufferSize 0 st) :
    (st.slaveLoop p bus mtu fuel).state.session = (execRecords p bus st.session (executed p bus mtu fuel st)).1 := by
  induction fuel generalizing st with
  | zero => rfl
  | succ fuel ih =>
    have same : (st.touch (.boundary st.wptr st.rptr)).session = st.session := rfl
    have bounded : Placed p.bufferSize 0 (st.touch (.boundary st.wptr st.rptr)) :=
      ⟨placed.behind, placed.within, placed.inside⟩
    simp only [Machine.slaveLoop, executed]
    generalize st.touch (.boundary st.wptr st.rptr) = st' at same bounded ⊢
    rw [← same]
    clear same placed
    by_cases header : st'.rptr + p.recordAlignment ≤ st'.eos
    · rw [if_pos header, if_pos header]
      have small := record_small p (st'.buf (st'.rptr + 2)) (st'.buf (st'.rptr + 3))
      have start : Placed p.bufferSize p.recordAlignment (st'.readHeader p) :=
        ⟨Nat.add_le_add_right bounded.behind p.recordAlignment, header, bounded.inside⟩
      have filled := fillRecord_rule p mtu (Machine.recordTotal (st'.buf (st'.rptr + 2)) (st'.buf (st'.rptr + 3)))
        (fun got => Placed p.bufferSize p.recordAlignment got ∧ got.session = st'.session ∧
          got.cycleEnd = (st'.readHeader p).cycleEnd)
        (fun got holds => ⟨holds.1.behind, holds.1.within, holds.1.inside⟩)
        (by rw [total_span]; exact small)
        (by
          intro now next holds _ _ refilled
          exact ⟨holds.1.refilled refilled, refilled.session_eq.trans holds.2.1, refilled.cycleEnd_eq.trans holds.2.2⟩)
        (st'.input.flatten.length + 1) (st'.readHeader p) ⟨start, rfl, rfl⟩ (Nat.lt_succ_self _)
      generalize (st'.readHeader p).fillRecord p mtu (Machine.recordTotal (st'.buf (st'.rptr + 2))
        (st'.buf (st'.rptr + 3))) (st'.input.flatten.length + 1) = attempt at filled ⊢
      cases attempt with
      | error result =>
        obtain ⟨_, last, ⟨_, session, _⟩, _, ⟨_, rfl⟩ | ⟨_, starved⟩⟩ := filled
        · exact session
        · exact starved.session_eq.trans session
      | ok full =>
        obtain ⟨⟨holds, session, ended⟩, available⟩ := filled
        rw [total_span] at available
        have within := holds.within
        obtain ⟨step, executes, _⟩ := slaveRecord_advance p p.bufferSize bus (st'.buf st'.rptr) (st'.buf (st'.rptr + 1))
          (st'.buf (st'.rptr + 2)) (st'.buf (st'.rptr + 3)) full holds.behind (by omega) holds.inside ended
        have bound :=
          length_reply_le p bus full.session (recordAt p full.buf (st'.buf st'.rptr) (st'.buf (st'.rptr + 1))
          (st'.buf (st'.rptr + 2)) (st'.buf (st'.rptr + 3)) full.rptr)
        rw [show (recordAt p full.buf (st'.buf st'.rptr) (st'.buf (st'.rptr + 1)) (st'.buf (st'.rptr + 2))
          (st'.buf (st'.rptr + 3)) full.rptr).reads.length = (st'.buf (st'.rptr + 3)).toNat from
            length_words _ _ _ _] at bound
        have rptr := step.rptr_eq
        have wptr := step.wptr_eq
        have eos := step.eos_eq
        have behind := holds.behind
        have inside := holds.inside
        have next := ih (full.slaveRecord p bus (st'.buf st'.rptr) (st'.buf (st'.rptr + 1)) (st'.buf (st'.rptr + 2))
          (st'.buf (st'.rptr + 3))) ⟨by omega, by omega, by omega⟩
        simp only
        rw [next, executes, session]
        rfl
    · rw [if_neg header, if_neg header]
      have session : st'.send.session = st'.session := by rw [send_eq]
      by_cases opened : st'.send.cycleEnd = false
      · rw [if_pos opened, if_pos opened]
        by_cases packet : mtu ≠ 0
        · rw [if_pos packet, if_pos packet]
          exact session
        · rw [if_neg packet, if_neg packet]
          have within := bounded.within
          have := p.recordAlignment_le
          have refilled := refill_between p st' bounded.behind within bounded.inside
            (by unfold Port.bufferSize; have := p.word_size; omega)
          generalize st'.send.refill p = attempt at refilled ⊢
          cases attempt with
          | error dead => exact refilled.session_eq
          | ok got =>
            simp only
            rw [ih got (bounded.refilled refilled), refilled.session_eq]
      · rw [if_neg opened, if_neg opened]
        split <;> exact session

end

section
variable {socket : Socket}

/-- The record loop a call of `eb_device_slave` comes to, unless the header ends it. -/
def entered (socket : Socket) (peer : Peer) (mtu : Nat) (link : Link σ socket) :
    Option ({ p : Port // p.word = socket.word } × Machine σ) :=
  let (bytes, input) := poll socket.bufferSize mtu link.input
  let polled : Link σ socket := { link with input := input, log := link.log ++ [.recv 0 socket.bufferSize] }
  if bytes.length < 2 then none
  else
    match if mtu = 0 then link.negotiated else none with
    | some p => some (p, polled.begin bytes input 0)
    | none =>
      match parseHeader socket.widths peer bytes with
      | .proceed offered =>
        if possible : ebWidthPossible (ebWidthRefine (offered &&& socket.widths)) = true then
          some (⟨socket.port offered possible, socket.port_word offered possible⟩, Link.beginPacket
            { polled with log := polled.log ++ [.load 0 (min 4 bytes.length) bytes.length] } bytes input
            (socket.port offered possible).headerAlignment)
        else none
      | _ => none

theorem ebDeviceSlave_entered (peer : Peer) (mtu : Nat) (bus : Bus σ) (link : Link σ socket) :
    match entered socket peer mtu link with
    | none => (ebDeviceSlave socket peer mtu bus link).2.bus = link.bus ∧
        (ebDeviceSlave socket peer mtu bus link).2.trace = link.trace
    | some (p, st) => st.session = ⟨link.bus, 0, false, link.trace⟩ ∧ st.cycleEnd = true ∧ st.wptr = st.rptr ∧
        st.eos ≤ p.val.bufferSize ∧
        (ebDeviceSlave socket peer mtu bus link).2.bus = (st.slaveLoop p.val bus mtu st.fuelFor).state.session.bus ∧
        (ebDeviceSlave socket peer mtu bus link).2.trace =
        (st.slaveLoop p.val bus mtu st.fuelFor).state.session.trace := by
  obtain ⟨fits, _⟩ := poll_le socket.bufferSize mtu link.input
  unfold entered ebDeviceSlave
  generalize poll socket.bufferSize mtu link.input = polled at fits ⊢
  obtain ⟨bytes, input⟩ := polled
  dsimp only at fits ⊢
  by_cases short : bytes.length < 2
  · rw [if_pos short]
    by_cases empty : bytes.length = 0
    · rw [if_pos empty]
      exact ⟨rfl, rfl⟩
    · rw [if_neg empty, if_pos short]
      exact ⟨rfl, rfl⟩
  · have received : ¬ bytes.length = 0 := by omega
    simp only [if_neg short, if_neg received]
    generalize (if mtu = 0 then link.negotiated else none) = negotiated
    cases negotiated with
    | some p =>
      have same : p.val.bufferSize = socket.bufferSize := by
        unfold Port.bufferSize Socket.bufferSize
        rw [p.property]
      have room : bytes.length ≤ p.val.bufferSize := by rw [same]; exact fits
      exact ⟨rfl, rfl, rfl, room, rfl, rfl⟩
    | none =>
      cases parseHeader socket.widths peer bytes with
      | kill => exact ⟨rfl, rfl⟩
      | response tag widths => exact ⟨rfl, rfl⟩
      | probe offered =>
        dsimp only
        split
        · split <;> exact ⟨rfl, rfl⟩
        · exact ⟨rfl, rfl⟩
      | proceed offered =>
        by_cases possible : ebWidthPossible (ebWidthRefine (offered &&& socket.widths)) = true
        · simp only [dif_pos possible]
          exact ⟨rfl, rfl, rfl, fits, rfl, rfl⟩
        · simp only [dif_neg possible]
          exact ⟨trivial, trivial⟩

theorem slaveLoop_short (p : Port) (bus : Bus σ) (mtu fuel : Nat) (st : Machine σ) (ended : st.cycleEnd = true)
    (short : st.eos < st.rptr) :
    (st.slaveLoop p bus mtu fuel).state.session = st.session ∧ executed p bus mtu fuel st = [] := by
  have header : ¬ st.rptr + p.recordAlignment ≤ st.eos := by omega
  cases fuel with
  | zero => exact ⟨rfl, rfl⟩
  | succ fuel =>
    simp only [Machine.slaveLoop, executed, Machine.touch, send_eq, ended, Bool.true_eq_false, if_false, if_neg header]
    constructor
    · split <;> rfl
    · trivial

/-- What a call does to the register: after the requests it made, bit `j` is the outcome of the
bus operation `j` places before the last one, and a read of the register saw the operations
before it. -/
structure Registered (bus : Bus σ) (start : Session σ) (requests : List Request) (final : Session σ) : Prop where
  bits : ∀ j < 64, final.error.testBit j = ((outcomes bus start requests).reverse[j]?).getD false
  reads : ∀ before width addr after, requests = before ++ .cfgRead width addr :: after →
    ∃ rest, final.trace = (runRequests bus start before).1.trace ++
      ⟨.cfgRead width addr, ebSocketReadConfig width addr (registerOf (outcomes bus start before)), false⟩ :: rest

theorem perform_trace (bus : Bus σ) (s : Session σ) (request : Request) :
    ∃ more, (perform bus s request).1.trace = s.trace ++ more := by
  cases request with
  | busWrite width addrB addrL value => exact ⟨_, rfl⟩
  | busRead width addrB addrL => exact ⟨_, rfl⟩
  | cfgWrite width addr value => exact ⟨_, rfl⟩
  | cfgRead width addr => exact ⟨_, rfl⟩
  | badBus => exact ⟨[], (List.append_nil _).symm⟩
  | badCfg => exact ⟨[], (List.append_nil _).symm⟩

theorem runRequests_trace (bus : Bus σ) (s : Session σ) (requests : List Request) :
    ∃ more, (runRequests bus s requests).1.trace = s.trace ++ more := by
  induction requests generalizing s with
  | nil => exact ⟨[], (List.append_nil _).symm⟩
  | cons request requests ih =>
    obtain ⟨here, first⟩ := perform_trace bus s request
    obtain ⟨later, rest⟩ := ih (perform bus s request).1
    refine ⟨here ++ later, ?_⟩
    rw [← List.append_assoc, ← first]
    exact rest

theorem runRequests_registered (bus : Bus σ) (start : Session σ) (clear : start.error = 0) (requests : List Request) :
    Registered bus start requests (runRequests bus start requests).1 := by
  have register : ∀ requests, (runRequests bus start requests).1.error = registerOf (outcomes bus start requests) := by
    intro requests
    rw [runRequests_error, clear]
    rfl
  constructor
  · intro j inside
    rw [register]
    exact testBit_register _ j inside
  · rintro before width addr after rfl
    have value := register before
    obtain ⟨rest, traced⟩ :=
      runRequests_trace bus (perform bus (runRequests bus start before).1 (.cfgRead width addr)).1 after
    refine ⟨rest, ?_⟩
    rw [runRequests_append]
    change (runRequests bus (perform bus (runRequests bus start before).1 (.cfgRead width addr)).1 after).1.trace = _
    rw [traced, ← value]
    change ((runRequests bus start before).1.trace ++ [_]) ++ rest = _
    rw [List.append_assoc]
    rfl

end

inductive Fails (handlers : List (Handler σ)) (s : σ) : Request → Prop where
  | select : Fails handlers s .badBus
  | readOnly {width : UInt8} {addrB addrL value : Nat} (table : addrB < 0x4000) :
      Fails handlers s (.busWrite width addrB addrL value)
  | unmappedWrite {width : UInt8} {addrB addrL value : Nat} (outside : 0x4000 ≤ addrB)
      (none : ∀ handler ∈ handlers, handler.covers addrB = false) : Fails handlers s (.busWrite width addrB addrL value)
  | unmappedRead {width : UInt8} {addrB addrL : Nat} (outside : 0x4000 ≤ addrB)
      (none : ∀ handler ∈ handlers, handler.covers addrB = false) : Fails handlers s (.busRead width addrB addrL)
  | handlerWrite {width : UInt8} {addrB addrL value : Nat} (outside : 0x4000 ≤ addrB) {handler : Handler σ}
      (mapped : handlers.find? (fun handler => handler.covers addrB) = some handler)
      (error : ∀ write, handler.write = some write →
        (write s (if handler.littleEndian then addrL else addrB) width value).1 = true) :
      Fails handlers s (.busWrite width addrB addrL value)
  | handlerRead {width : UInt8} {addrB addrL : Nat} (outside : 0x4000 ≤ addrB) {handler : Handler σ}
      (mapped : handlers.find? (fun handler => handler.covers addrB) = some handler)
      (error : ∀ read, handler.read = some read →
        (read s (if handler.littleEndian then addrL else addrB) width).2.1 = true) :
      Fails handlers s (.busRead width addrB addrL)

section
variable (build : Sdb.Build) (handlers : List (Handler σ)) (writeConfig : σ → UInt8 → Nat → Nat → σ) (s : σ)

theorem write_fails (width : UInt8) (addrB addrL value : Nat) :
    ((socketBus build handlers writeConfig).write s width addrB addrL value).1 = true ↔
      Fails handlers s (.busWrite width addrB addrL value) := by
  simp only [socketBus]
  by_cases table : addrB < 0x4000
  · rw [if_pos table]
    exact ⟨fun _ => .readOnly table, fun _ => rfl⟩
  rw [if_neg table]
  have outside : 0x4000 ≤ addrB := by omega
  cases mapped : handlers.find? fun handler => handler.covers addrB with
  | none =>
    have none : ∀ handler ∈ handlers, handler.covers addrB = false := by
      intro handler member
      exact Bool.eq_false_iff.mpr (List.find?_eq_none.mp mapped handler member)
    exact ⟨fun _ => .unmappedWrite outside none, fun _ => rfl⟩
  | some handler =>
    have member := List.mem_of_find?_eq_some mapped
    have covers := List.find?_some mapped
    constructor
    · intro failed
      refine .handlerWrite outside mapped ?_
      intro write has
      simpa only [has] using failed
    · intro fails
      cases fails with
      | readOnly inside => exact absurd inside table
      | unmappedWrite _ none => exact absurd covers (Bool.eq_false_iff.mp (none handler member))
      | handlerWrite _ found error =>
        obtain rfl := Option.some.inj (mapped.symm.trans found)
        cases has : handler.write with
        | none => simp only [has]
        | some write => simpa only [has] using error write has

theorem read_fails (width : UInt8) (addrB addrL : Nat) :
    ((socketBus build handlers writeConfig).read s width addrB addrL).2.1 = true ↔
      Fails handlers s (.busRead width addrB addrL) := by
  simp only [socketBus]
  by_cases table : addrB < 0x4000
  · rw [if_pos table]
    constructor
    · intro failed
      cases failed
    · intro fails
      cases fails with
      | unmappedRead outside _ => exact absurd table (not_lt.mpr outside)
      | handlerRead outside _ _ => exact absurd table (not_lt.mpr outside)
  rw [if_neg table]
  have outside : 0x4000 ≤ addrB := by omega
  cases mapped : handlers.find? fun handler => handler.covers addrB with
  | none =>
    have none : ∀ handler ∈ handlers, handler.covers addrB = false := by
      intro handler member
      exact Bool.eq_false_iff.mpr (List.find?_eq_none.mp mapped handler member)
    exact ⟨fun _ => .unmappedRead outside none, fun _ => rfl⟩
  | some handler =>
    have member := List.mem_of_find?_eq_some mapped
    have covers := List.find?_some mapped
    constructor
    · intro failed
      refine .handlerRead outside mapped ?_
      intro read has
      simpa only [has] using failed
    · intro fails
      cases fails with
      | unmappedRead _ none => exact absurd covers (Bool.eq_false_iff.mp (none handler member))
      | handlerRead _ found error =>
        obtain rfl := Option.some.inj (mapped.symm.trans found)
        cases has : handler.read with
        | none => simp only [has]
        | some read => simpa only [has] using error read has

theorem outcome_fails (request : Request) :
    outcome (socketBus build handlers writeConfig) s request = some true ↔ Fails handlers s request := by
  cases request with
  | busWrite width addrB addrL value =>
    rw [← write_fails build handlers writeConfig]
    exact Option.some_inj
  | busRead width addrB addrL =>
    rw [← read_fails build handlers writeConfig]
    exact Option.some_inj
  | badBus => exact ⟨fun _ => .select, fun _ => rfl⟩
  | cfgWrite width addr value => exact ⟨fun same => (Option.some_ne_none _ same.symm).elim, nofun⟩
  | cfgRead width addr => exact ⟨fun same => (Option.some_ne_none _ same.symm).elim, nofun⟩
  | badCfg => exact ⟨fun same => (Option.some_ne_none _ same.symm).elim, nofun⟩

end

/-- The error register of one call: from zero, one bit for each operation on the bus in the
order in which the records of the call ask for them. -/
theorem ebDeviceSlave_register {socket : Socket} (peer : Peer) (mtu : Nat) (build : Sdb.Build)
    (handlers : List (Handler σ))
    (writeConfig : σ → UInt8 → Nat → Nat → σ) (link : Link σ socket) :
    (∀ s request, outcome (socketBus build handlers writeConfig) s request = some true ↔ Fails handlers s request) ∧
      match entered socket peer mtu link with
      | none => (ebDeviceSlave socket peer mtu (socketBus build handlers writeConfig) link).2.bus = link.bus ∧
          (ebDeviceSlave socket peer mtu (socketBus build handlers writeConfig) link).2.trace = link.trace
      | some (p, st) =>
        let bus := socketBus build handlers writeConfig
        let final := (st.slaveLoop p.val bus mtu st.fuelFor).state.session
        (ebDeviceSlave socket peer mtu bus link).2.bus = final.bus ∧
          (ebDeviceSlave socket peer mtu bus link).2.trace = final.trace ∧
          Registered bus ⟨link.bus, 0, false, link.trace⟩
            ((executed p.val bus mtu st.fuelFor st).flatMap (recordRequests p.val)) final := by
  refine ⟨fun s request => outcome_fails build handlers writeConfig s request, ?_⟩
  have call := ebDeviceSlave_entered peer mtu (socketBus build handlers writeConfig) link
  generalize entered socket peer mtu link = loop at call ⊢
  cases loop with
  | none => exact call
  | some entry =>
    obtain ⟨p, st⟩ := entry
    obtain ⟨session, ended, level, inside, left, traced⟩ := call
    have records : (st.slaveLoop p.val (socketBus build handlers writeConfig) mtu st.fuelFor).state.session =
        (execRecords p.val (socketBus build handlers writeConfig) st.session
          (executed p.val (socketBus build handlers writeConfig) mtu st.fuelFor st)).1 := by
      by_cases covered : st.rptr ≤ st.eos
      · exact slaveLoop_session _ mtu st.fuelFor st ⟨by omega, covered, inside⟩
      · obtain ⟨same, none⟩ :=
          slaveLoop_short p.val (socketBus build handlers writeConfig) mtu st.fuelFor st ended (by omega)
        rw [same, none]
        rfl
    have requests := execRecords_requests (p := p.val) (socketBus build handlers writeConfig) st.session
      (executed p.val (socketBus build handlers writeConfig) mtu st.fuelFor st)
    rw [← records, session] at requests
    have registered :=
      runRequests_registered (socketBus build handlers writeConfig) ⟨link.bus, 0, false, link.trace⟩ rfl
      ((executed p.val (socketBus build handlers writeConfig) mtu st.fuelFor st).flatMap (recordRequests p.val))
    refine ⟨left, traced, ?_⟩
    have same : lineless (⟨link.bus, 0, false, link.trace⟩ : Session σ) = ⟨link.bus, 0, false, link.trace⟩ := rfl
    rw [same] at requests
    rw [← requests] at registered
    exact ⟨registered.bits, registered.reads⟩

def packetOf (records : List Record) : List Byte := [0x4e, 0x6f, 0x10, 0x44] ++ stream Port.wishbone32 records

/-- A write to the read-only table; a read of the table and then one of the register. -/
def failingWrite : List Byte := packetOf [⟨recordCyc, 0x0f, 0, [0], 0, []⟩]

def readAndRegister : List Byte :=
  packetOf [⟨0, 0x0f, 0, [], 0, [0]⟩, ⟨recordCyc ||| recordRca, 0x0f, 0, [], 0, [4]⟩]

theorem bare_constrained : constrainWidths 4 0x44 = 0x44 := by decide

theorem bare_possible : ebWidthPossible 0x44 = true := by decide

def bareSocket : Socket := ⟨4, 0x44, Port.wishbone32.word_size, bare_constrained, bare_possible⟩

def bareBus : Bus Unit := socketBus ⟨.big, 4, 0, 0⟩ [] fun s _ _ _ => s

/-- The second packet does not see the failure of the first one. -/
theorem ebDeviceSlave_register_reset :
    (serve bareSocket .passive 1472 bareBus 2 (Link.fresh none () [failingWrite, readAndRegister])).2.trace =
        [⟨.busWrite 0x44 0 0 0, 0, true⟩, ⟨.busRead 0x44 0 0, 0x5344422d, false⟩, ⟨.cfgRead 0x44 4, 0, false⟩] ∧
      ebSocketReadConfig 0x44 4 (registerOf [true, false]) = 2 := by
  decide +kernel

end BelProject.Etherbone.ErrorRegister
