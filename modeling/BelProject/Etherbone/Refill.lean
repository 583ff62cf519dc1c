import BelProject.Etherbone.InPlace

/-! The refill points of `eb_device_slave` on a stream. What is finished is sent, the
unconsumed rest moves to the front and the transport appends to it; the loop that waits
for a whole record follows one invariant rule. -/

namespace BelProject.Etherbone.Refill
open BelProject.Library Memory Width Wire Execute Slave InPlace

variable {σ : Type}

/-- The bytes from `back` before the read pointer to the end of what was received. -/
def held (back : Nat) (st : Machine σ) : List Byte :=
  slice st.buf (st.rptr - back) (st.eos - (st.rptr - back))

theorem length_held (back : Nat) (st : Machine σ) : (held back st).length = st.eos - (st.rptr - back) :=
  length_slice _ _ _

/-- What the transport hands over when asked for at most `asked` bytes. -/
def grant (asked : Nat) : List (List Byte) → List Byte × List (List Byte)
  | [] => ([], [])
  | piece :: input => (piece.take asked, if piece.length ≤ asked then input else piece.drop asked :: input)

theorem grant_flatten (asked : Nat) (input : List (List Byte)) :
    input.flatten = (grant asked input).1 ++ (grant asked input).2.flatten := by
  cases input with
  | nil => rfl
  | cons piece input =>
    simp only [grant]
    split
    next whole => rw [List.take_of_length_le whole, List.flatten_cons]
    next => rw [List.flatten_cons, List.flatten_cons, ← List.append_assoc, List.take_append_drop]

theorem length_grant_le (asked : Nat) (input : List (List Byte)) : (grant asked input).1.length ≤ asked := by
  cases input with
  | nil => exact Nat.zero_le _
  | cons piece input => exact List.length_take_le _ _

theorem recv_eq (st : Machine σ) (offset asked : Nat) :
    st.recv offset asked = if (grant asked st.input).1.length = 0 then none
      else some { st with
        buf := store st.buf offset (grant asked st.input).1
        eos := offset + (grant asked st.input).1.length
        input := (grant asked st.input).2 } := by
  unfold Machine.recv
  cases st.input with
  | nil => rfl
  | cons piece input => rfl

/-- A successful refill, with `back` bytes before the read pointer kept alongside. -/
structure Refilled (size back : Nat) (st got : Machine σ) : Prop where
  session_eq : got.session = st.session
  cycleEnd_eq : got.cycleEnd = st.cycleEnd
  reply_eq : got.reply = st.reply
  wptr_eq : got.wptr = 0
  rptr_eq : got.rptr = back
  eos_eq : got.eos = st.eos - (st.rptr - back) + (grant (size - (st.eos - (st.rptr - back))) st.input).1.length
  input_eq : got.input = (grant (size - (st.eos - (st.rptr - back))) st.input).2
  sent_eq : got.sent = if st.reply then st.sent ++ [slice st.buf 0 st.wptr] else st.sent
  held_eq : held back got = held back st ++ (grant (size - (st.eos - (st.rptr - back))) st.input).1
  some : 0 < (grant (size - (st.eos - (st.rptr - back))) st.input).1.length
  logged : Logged size st.log → Logged size got.log

/-- A refill that failed: nothing but the log has changed, and the link had nothing to give. -/
structure Starved (size back : Nat) (st dead : Machine σ) : Prop where
  none : (grant (size - (st.eos - (st.rptr - back))) st.input).1.length = 0
  session_eq : dead.session = st.session
  input_eq : dead.input = st.input
  sent_eq : dead.sent = if st.reply then st.sent ++ [slice st.buf 0 st.wptr] else st.sent
  logged : Logged size st.log → Logged size dead.log

theorem send_eq (st : Machine σ) : st.send = { st with
    sent := if st.reply then st.sent ++ [slice st.buf 0 st.wptr] else st.sent
    log := if st.reply then st.log ++ [.send st.wptr] else st.log } := by
  unfold Machine.send Machine.touch
  split <;> rfl

theorem refill_eq (p : Port) (st : Machine σ) :
    st.refill p =
      let keep := st.eos - st.rptr
      let log := st.log ++ [.move st.rptr keep] ++ [.recv keep (p.bufferSize - keep)]
      let moved := store st.buf 0 (slice st.buf st.rptr keep)
      let (bytes, input) := grant (p.bufferSize - keep) st.input
      if bytes.length = 0 then .error { st with buf := moved, log := log }
      else .ok { st with
        buf := store moved keep bytes
        wptr := 0
        rptr := 0
        eos := keep + bytes.length
        input := input
        log := log } := by
  simp only [Machine.refill, recv_eq, Machine.touch]
  split
  next none =>
    split at none
    next empty => rw [if_pos empty]
    next => cases none
  next got some =>
    split at some
    next => cases some
    next full =>
      cases some
      rw [if_neg full]

theorem slice_moved (m : Mem) (offset keep : Nat) (bytes : List Byte) :
    slice (store (store m 0 (slice m offset keep)) keep bytes) 0 (keep + bytes.length) =
      slice m offset keep ++ bytes := by
  have appended := slice_store_append (store m 0 (slice m offset keep)) 0 keep bytes
  have front := slice_store m 0 (slice m offset keep)
  rw [length_slice] at front
  rw [Nat.zero_add, front] at appended
  exact appended

theorem refill_spec (p : Port) (back : Nat) (st : Machine σ) (behind : st.wptr + back ≤ st.rptr)
    (within : st.rptr ≤ st.eos) (inside : st.eos ≤ p.bufferSize)
    (room : st.eos - (st.rptr - back) < p.bufferSize) :
    match ({ st with rptr := st.rptr - back } : Machine σ).send.refill p with
    | .error dead => Starved p.bufferSize back st dead
    | .ok got => Refilled p.bufferSize back st { got with rptr := back } := by
  have logged : Logged p.bufferSize st.log → Logged p.bufferSize
      ((if st.reply then st.log ++ [.send st.wptr] else st.log) ++
        [.move (st.rptr - back) (st.eos - (st.rptr - back))] ++
        [.recv (st.eos - (st.rptr - back)) (p.bufferSize - (st.eos - (st.rptr - back)))]) := by
    intro before
    apply Logged.push
    · apply Logged.push
      · split
        · exact before.push (show st.wptr ≤ p.bufferSize by omega)
        · exact before
      · show st.rptr - back + (st.eos - (st.rptr - back)) ≤ p.bufferSize
        omega
    · show 0 < p.bufferSize - (st.eos - (st.rptr - back)) ∧
        st.eos - (st.rptr - back) + (p.bufferSize - (st.eos - (st.rptr - back))) ≤ p.bufferSize
      omega
  rw [refill_eq, send_eq]
  dsimp only
  by_cases empty : (grant (p.bufferSize - (st.eos - (st.rptr - back))) st.input).1.length = 0
  · rw [if_pos empty]
    exact ⟨empty, rfl, rfl, rfl, logged⟩
  · rw [if_neg empty]
    refine ⟨rfl, rfl, rfl, rfl, rfl, rfl, rfl, rfl, ?_, Nat.pos_of_ne_zero empty, logged⟩
    simp only [held, Nat.sub_self, Nat.sub_zero]
    exact slice_moved st.buf (st.rptr - back) (st.eos - (st.rptr - back)) _

theorem refill_between (p : Port) (st : Machine σ) (behind : st.wptr ≤ st.rptr)
    (within : st.rptr ≤ st.eos) (inside : st.eos ≤ p.bufferSize) (room : st.eos - st.rptr < p.bufferSize) :
    match st.send.refill p with
    | .error dead => Starved p.bufferSize 0 st dead
    | .ok got => Refilled p.bufferSize 0 st got := by
  have refilled := refill_spec p 0 st behind within inside room
  simp only [Nat.sub_zero] at refilled
  generalize attempt : st.send.refill p = outcome at refilled ⊢
  cases outcome with
  | error dead => exact refilled
  | ok got =>
    have front : got.rptr = 0 := by
      rw [refill_eq] at attempt
      dsimp only at attempt
      split at attempt
      · cases attempt
      · cases attempt
        rfl
    have same : ({ got with rptr := 0 } : Machine σ) = got := by rw [← front]
    change Refilled p.bufferSize 0 st { got with rptr := 0 } at refilled
    rw [same] at refilled
    exact refilled

/-- Rule for the inner loop: what every refill of an incomplete record preserves holds when
the record is complete, and holds at the last attempt when the link fails. -/
theorem fillRecord_rule (p : Port) (mtu total : Nat) (P : Machine σ → Prop)
    (bounds : ∀ st, P st → st.wptr + p.recordAlignment ≤ st.rptr ∧ st.rptr ≤ st.eos ∧ st.eos ≤ p.bufferSize)
    (small : p.recordAlignment + total * p.alignment ≤ p.bufferSize)
    (step : ∀ st got, P st → total * p.alignment > st.eos - st.rptr → mtu = 0 →
      Refilled p.bufferSize p.recordAlignment st got → P got)
    (fuel : Nat) (st : Machine σ) (start : P st) (enough : st.input.flatten.length < fuel) :
    match st.fillRecord p mtu total fuel with
    | .ok st' => P st' ∧ total * p.alignment ≤ st'.eos - st'.rptr
    | .error result => result.outcome = .kill ∧ ∃ st', P st' ∧ total * p.alignment > st'.eos - st'.rptr ∧
        ((mtu ≠ 0 ∧ result.state = st') ∨
          (mtu = 0 ∧ Starved p.bufferSize p.recordAlignment st' result.state)) := by
  induction fuel generalizing st with
  | zero => omega
  | succ fuel ih =>
    obtain ⟨behind, within, inside⟩ := bounds st start
    unfold Machine.fillRecord
    by_cases missing : total * p.alignment > st.eos - st.rptr
    · rw [if_pos missing]
      by_cases packet : mtu ≠ 0
      · rw [if_pos packet]
        exact ⟨rfl, st, start, missing, Or.inl ⟨packet, rfl⟩⟩
      · rw [if_neg packet]
        have stream : mtu = 0 := not_not.mp packet
        have refilled := refill_spec p p.recordAlignment st behind within inside (by omega)
        generalize attempt : ({ st with rptr := st.rptr - p.recordAlignment } : Machine σ).send.refill p = outcome
        rw [attempt] at refilled
        cases outcome with
        | error dead => exact ⟨rfl, st, start, missing, Or.inr ⟨stream, refilled⟩⟩
        | ok got =>
          apply ih
          · exact step st _ start missing stream refilled
          · have shorter := congrArg List.length (grant_flatten
              (p.bufferSize - (st.eos - (st.rptr - p.recordAlignment))) st.input)
            rw [List.length_append] at shorter
            have some := refilled.some
            have rest := refilled.input_eq
            dsimp only at rest ⊢
            rw [rest]
            omega
    · rw [if_neg missing]
      exact ⟨start, not_lt.mp missing⟩

end BelProject.Etherbone.Refill
