import BelProject.Etherbone.Answers
import BelProject.Etherbone.Transfer

/-! A whole run of replies. Every word is either the value of the next read or the status of
the bus operations since the last one; the run keeps the two cursors in step with the words
still to come, so that the callback is made with the last of them. -/

namespace BelProject.Etherbone.ReplyRun
open BelProject.Library Width Operations Format Flush Reply Requests Execute Segmentation Agreement Transfer Answers

theorem failures_cons (one : Operation × Access) (served : List (Operation × Access)) :
    failures (one :: served) = if one.1.cfgSpace then failures served else one.2.failed :: failures served := by
  unfold failures
  cases space : one.1.cfgSpace with
  | true => rw [List.filter_cons_of_neg (by simp [space]), if_pos rfl]
  | false => rw [List.filter_cons_of_pos (by simp [space]), List.map_cons, if_neg (by decide)]

theorem failures_append (first second : List (Operation × Access)) :
    failures (first ++ second) = failures first ++ failures second := by
  rw [failures, List.filter_append, List.map_append]
  rfl

theorem failures_eq_nil {served : List (Operation × Access)} :
    failures served = [] ↔ ∀ one ∈ served, one.1.cfgSpace = true := by
  rw [failures, List.map_eq_nil_iff, List.filter_eq_nil_iff]
  simp only [Bool.not_eq_true', Bool.not_eq_false]

theorem exists_first_bus {window : List (Operation × Access)} (due : failures window ≠ []) :
    ∃ skipped one more, window = skipped ++ one :: more ∧ one.1.cfgSpace = false ∧
      ∀ other ∈ skipped, other.1.cfgSpace = true := by
  induction window with
  | nil => exact absurd rfl due
  | cons one window ih =>
    cases space : one.1.cfgSpace with
    | false => exact ⟨[], one, window, rfl, space, by simp⟩
    | true =>
      rw [failures_cons, space, if_pos rfl] at due
      obtain ⟨skipped, first, more, same, bus, config⟩ := ih due
      exact ⟨one :: skipped, first, more, by rw [same]; rfl, bus, List.forall_mem_cons.mpr ⟨space, config⟩⟩

theorem map_answer_config (check : Bool) {served : List (Operation × Access)}
    (config : ∀ one ∈ served, one.1.cfgSpace = true) : served.map (answer check) = served.map valued := by
  apply List.map_congr_left
  intro one member
  exact answer_config check (config one member)

theorem countStatus_window {maxops : Nat} (window : List (Operation × Access)) (rest : List Operation) (ops : Nat)
    (started : ops < maxops) (room : ops + (failures window).length ≤ maxops)
    (full : ops + (failures window).length = maxops ∨ rest = []) :
    countStatus maxops ops (window.map valued ++ rest) = ops + (failures window).length := by
  induction window generalizing ops with
  | nil =>
    have none : rest = [] := by
      rcases full with full | none
      · exact absurd full started.ne
      · exact none
    rw [none]
    rfl
  | cons one window ih =>
    have space := (valued_fields one).1
    rw [List.map_cons, List.cons_append, countStatus, space]
    rw [failures_cons] at room full ⊢
    cases config : one.1.cfgSpace with
    | true =>
      simp only [config, if_true] at room full ⊢
      exact ih ops started room full
    | false =>
      simp only [config, Bool.false_eq_true, if_false, List.length_cons] at room full ⊢
      by_cases last : ops + 1 = maxops
      · rw [if_pos last]
        omega
      · have behind : ops + 1 + (failures window).length = maxops ∨ rest = [] := by
          rcases full with full | none
          · exact Or.inl (by omega)
          · exact Or.inr none
        rw [if_neg last, ih (ops + 1) (by omega) (by omega) behind]
        omega

theorem markStatus_window {value : Nat} (window : List (Operation × Access)) (rest : List Operation)
    (bits : bitsOf (failures window).length value = failures window) :
    ∃ visited left, window = visited ++ left ∧ (∀ one ∈ left, one.1.cfgSpace = true) ∧
      markStatus value (failures window).length (window.map valued ++ rest) =
        (visited.map (answer true), left.map valued ++ rest) := by
  induction window with
  | nil =>
    have none : markStatus value 0 rest = ([], rest) := by cases rest <;> rfl
    exact ⟨[], [], rfl, by simp, none⟩
  | cons one window ih =>
    have space := (valued_fields one).1
    cases config : one.1.cfgSpace with
    | true =>
      have same : failures (one :: window) = failures window := by rw [failures_cons, config, if_pos rfl]
      rw [same] at bits ⊢
      obtain ⟨visited, left, split, quiet, marked⟩ := ih bits
      cases count : (failures window).length with
      | zero =>
        have all := failures_eq_nil.mp (List.length_eq_zero_iff.mp count)
        exact ⟨[], one :: window, rfl, List.forall_mem_cons.mpr ⟨config, all⟩, rfl⟩
      | succ n =>
        rw [count] at marked
        refine ⟨one :: visited, left, by rw [split]; rfl, quiet, ?_⟩
        rw [List.map_cons, List.cons_append, markStatus, if_pos (space.trans config), marked, List.map_cons,
          answer_config true config]
    | false =>
      have same : failures (one :: window) = one.2.failed :: failures window := by
        rw [failures_cons, config, if_neg (by decide)]
      rw [same, List.length_cons, bitsOf, List.cons.injEq] at bits
      obtain ⟨bit, bits⟩ := bits
      obtain ⟨visited, left, split, quiet, marked⟩ := ih bits
      refine ⟨one :: visited, left, by rw [split]; rfl, quiet, ?_⟩
      have answered : { valued one with error := (valued one).error || value.testBit (failures window).length } =
          answer true one := by
        rw [answer, (valued_fields one).2.2, bit, config]
        rfl
      rw [same, List.map_cons, List.cons_append, List.length_cons, markStatus,
        if_neg (by rw [space, config]; decide), marked, List.map_cons, answered]

section
variable {p : Port} {check : Bool} {maxops : Nat} {done window : List (Operation × Access)} {rest : List Operation}
  {response : Response}

theorem awaiting_of_cursors
    (operations : response.operations = done.map (answer check) ++ (window.map valued ++ rest))
    (write : response.writeCursor =
      (rest.findIdx? fun op => !op.isWrite).map (done.length + window.length + ·))
    (status : response.statusCursor = if check then
      ((window.map valued ++ rest).findIdx? fun op => !op.cfgSpace).map (done.length + ·) else none) :
    Awaiting check done window rest response := by
  have reads := ebFindRead_append (done.map (answer check) ++ window.map valued) rest
  have buses := ebFindBus_append (done.map (answer check)) (window.map valued ++ rest)
  rw [length_front, List.append_assoc, ← operations] at reads
  rw [List.length_map, ← operations] at buses
  exact ⟨operations, write.trans reads.symm, by rw [status, buses]⟩

theorem status_word (awaiting : Awaiting true done window rest response) (due : failures window ≠ [])
    (room : (failures window).length ≤ maxops) (full : (failures window).length = maxops ∨ rest = [])
    {widths : UInt8} (width : (widths &&& ebDataX).toNat * 8 = maxops) {addr value : Nat} (odd : addr % 2 = 1)
    (bits : bitsOf (failures window).length value = failures window) :
    let updated := update response widths addr value
    updated.fail = false ∧ updated.stored = none ∧ Awaiting true (done ++ window) [] rest updated.response := by
  obtain ⟨skipped, first, more, rfl, bus, config⟩ := exists_first_bus due
  have same : failures (skipped ++ first :: more) = failures (first :: more) := by
    rw [failures_append, failures_eq_nil.mpr config, List.nil_append]
  have positive : 0 < (failures (first :: more)).length := by
    rw [← same]
    exact List.length_pos_iff.mpr due
  rw [same] at room full bits
  have settled := map_answer_config true config
  -- what lies before the status cursor, and what behind it
  have operations : response.operations =
      (done ++ skipped).map (answer true) ++ ((first :: more).map valued ++ rest) := by
    rw [awaiting.operations_eq, List.map_append, List.map_append, settled]
    simp only [List.append_assoc]
  have length : ((done ++ skipped).map (answer true)).length = done.length + skipped.length := by
    rw [List.length_map, List.length_append]
  have cursor : response.statusCursor = some (done.length + skipped.length) := by
    have quiet : ∀ op ∈ skipped.map valued, (!op.cfgSpace) = false := by
      intro op member
      obtain ⟨one, inside, rfl⟩ := List.mem_map.mp member
      rw [(valued_fields one).1, config one inside]
      rfl
    rw [awaiting.status_cursor rfl, List.map_append, List.append_assoc, findIdx?_skip _ _ _ quiet, List.map_cons,
      List.cons_append, List.findIdx?_cons, (valued_fields first).1, bus, List.length_map]
    rfl
  have behind : response.operations.drop (done.length + skipped.length) = (first :: more).map valued ++ rest := by
    rw [operations, ← length, List.drop_left]
  have before : response.operations.take (done.length + skipped.length) = (done ++ skipped).map (answer true) := by
    rw [operations, ← length, List.take_left]
  have count : countStatus maxops 0 ((first :: more).map valued ++ rest) = (failures (first :: more)).length := by
    have counted : countStatus maxops 0 ((first :: more).map valued ++ rest) = 0 + (failures (first :: more)).length :=
      countStatus_window (first :: more) rest 0 (by omega) (by omega) (full.imp_left fun full => by omega)
    rw [counted, Nat.zero_add]
  obtain ⟨visited, left, split, quiet, marked⟩ := markStatus_window (first :: more) rest bits
  have answered : (done ++ skipped).map (answer true) ++ visited.map (answer true) ++ (left.map valued ++ rest) =
      (done ++ (skipped ++ first :: more)).map
      (answer true) ++ (([] : List (Operation × Access)).map valued ++ rest) := by
    rw [split, ← map_answer_config true quiet]
    simp only [List.map_append, List.append_assoc, List.map_nil, List.nil_append]
  have even : ¬addr % 2 = 0 := by omega
  rw [update, if_neg even, writeStatus, cursor, width]
  simp only [behind, before, count, marked, answered, List.length_map]
  refine ⟨decide_eq_false positive.ne', trivial, awaiting_of_cursors rfl ?_ ?_⟩
  · rw [List.length_append, List.length_nil, Nat.add_zero]
    exact awaiting.write_cursor
  · have searched := ebFindBus_append ((done ++ skipped).map (answer true) ++ visited.map (answer true))
      (left.map valued ++ rest)
    have unbothered : ∀ op ∈ left.map valued, (!op.cfgSpace) = false := by
      intro op member
      obtain ⟨one, inside, rfl⟩ := List.mem_map.mp member
      rw [(valued_fields one).1, quiet one inside]
      rfl
    have lengths := congrArg List.length split
    simp only [List.length_append, List.length_cons] at lengths
    rw [answered, List.length_append, List.length_map, List.length_map, List.length_append,
      findIdx?_skip _ _ _ unbothered, List.length_map] at searched
    rw [if_pos rfl, List.length_append, List.length_append, List.length_cons, lengths]
    refine searched.trans ?_
    rw [show done.length + skipped.length + visited.length + left.length =
      done.length + (skipped.length + (visited.length + left.length)) by omega]
    rfl

theorem reply_none_iff (p : Port) (rba : Nat) (exchange : Item × Access) :
    reply p rba exchange = none ↔ ∃ op, exchange.1 = .operation op ∧ op.isWrite = true := by
  obtain ⟨item, access⟩ := exchange
  cases item with
  | operation op =>
    simp only [reply, Item.operation.injEq, exists_eq_left']
    cases op.isWrite <;> simp
  | status => simp [reply]

variable {pending : Nat}

variable {items : List Item}

theorem Asks.silent {operations : List Operation}
    (asks : Asks check maxops pending operations items) :
    (∀ item ∈ items, ∃ op, item = .operation op ∧ op.isWrite = true) ↔ (∀ op ∈ operations, op.isWrite = true) ∧
        (check = true → pending = 0 ∧ ∀ op ∈ operations, op.cfgSpace = true) := by
  induction asks with
  | finished settled => exact ⟨fun _ => ⟨by simp, fun checked => ⟨settled checked, by simp⟩⟩, fun _ => by simp⟩
  | @operation pending op operations items room rest ih =>
    have counted : bump op.cfgSpace pending = 0 ↔ pending = 0 ∧ op.cfgSpace = true := by
      unfold bump
      cases op.cfgSpace <;> simp
    rw [List.forall_mem_cons, ih, counted]
    simp only [List.forall_mem_cons, Item.operation.injEq, exists_eq_left']
    tauto
  | status checked due full rest ih =>
    constructor
    · intro all
      obtain ⟨op, same, _⟩ := all .status List.mem_cons_self
      cases same
    · rintro ⟨_, quiet⟩
      exact absurd (quiet checked).1 due.ne'

variable {exchanges : List (Item × Access)}

theorem Awaiting.settled_iff (rba : Nat)
    (awaiting : Awaiting check done window rest response)
    (asks : Asks check maxops pending rest (exchanges.map Prod.fst))
    (counted : check = true → pending = (failures window).length) :
    exchanges.filterMap (reply p rba) = [] ↔
      response.writeCursor.isNone = true ∧ response.statusCursor.isNone = true := by
  obtain ⟨write, status⟩ := awaiting.cursors
  have config : (∀ op ∈ window.map valued ++ rest, op.cfgSpace = true) ↔
      failures window = [] ∧ ∀ op ∈ rest, op.cfgSpace = true := by
    rw [List.forall_mem_append, failures_eq_nil, List.forall_mem_map]
    simp only [(valued_fields _).1]
  have silent := Asks.silent asks
  rw [List.forall_mem_map] at silent
  rw [List.filterMap_eq_nil_iff, write, status]
  simp only [reply_none_iff, config]
  rw [silent]
  constructor
  · rintro ⟨writes, quiet⟩
    exact ⟨writes, fun checked => ⟨List.length_eq_zero_iff.mp ((counted checked).symm.trans (quiet checked).1),
      (quiet checked).2⟩⟩
  · rintro ⟨writes, quiet⟩
    exact ⟨writes, fun checked => ⟨(counted checked).trans (List.length_eq_zero_iff.mpr (quiet checked).1),
      (quiet checked).2⟩⟩

theorem asks_operations {operations : List Operation}
    (asks : Asks check maxops pending operations items) : items.filterMap Item.operation? = operations := by
  induction asks with
  | finished _ => rfl
  | operation _ _ ih => rw [List.filterMap_cons, Item.operation?, ih]
  | status _ _ _ _ ih => exact ih

theorem own_operations (exchanges : List (Item × Access)) :
    (own exchanges).map Prod.fst = (exchanges.map Prod.fst).filterMap Item.operation? := by
  induction exchanges with
  | nil => rfl
  | cons exchange exchanges ih =>
    obtain ⟨item, access⟩ := exchange
    cases item with
    | operation op => exact congrArg (op :: ·) ih
    | status => exact ih

theorem delivered_silent {rba : Nat}
    (silent : exchanges.filterMap (reply p rba) = []) : (own exchanges).filterMap delivered = [] := by
  rw [List.filterMap_eq_nil_iff] at silent ⊢
  intro one member
  obtain ⟨exchange, inside, made⟩ := List.mem_filterMap.mp member
  obtain ⟨op, same, isWrite⟩ := (reply_none_iff p rba exchange).mp (silent exchange inside)
  rw [same] at made
  have first : op = one.1 := by
    cases made
    rfl
  rw [delivered, if_neg]
  intro pointer
  rw [first, Operation.isWrite, pointer] at isWrite
  cases isWrite

theorem answer_unchecked (served : Operation × Access) : answer false served = valued served := by
  rw [answer, Bool.false_and, Bool.false_and, Bool.or_false, ← (valued_fields served).2.2]

theorem Awaiting.settled_operations (rba : Nat)
    (awaiting : Awaiting check done window rest response)
    (asks : Asks check maxops pending rest (exchanges.map Prod.fst))
    (counted : check = true → pending = (failures window).length) (silent : exchanges.filterMap (reply p rba) = []) :
    response.operations = (done ++ window ++ own exchanges).map (answer check) := by
  obtain ⟨write, status⟩ := (Awaiting.settled_iff rba awaiting asks counted).mp silent
  have own_rest : (own exchanges).map Prod.fst = rest := by rw [own_operations, asks_operations asks]
  have writes := awaiting.cursors.1.mp write
  have quiet := awaiting.cursors.2.mp status
  have plain : ∀ one ∈ own exchanges, valued one = one.1 := by
    intro one member
    have isWrite : one.1.isWrite = true := writes one.1 (own_rest ▸ List.mem_map_of_mem member)
    apply if_neg
    intro read
    rw [Operation.isWrite, read] at isWrite
    cases isWrite
  have values : (own exchanges).map valued = rest := by
    rw [← own_rest]
    exact List.map_congr_left plain
  have answers : (window ++ own exchanges).map (answer check) = (window ++ own exchanges).map valued := by
    cases checked : check with
    | false => exact List.map_congr_left fun one _ => answer_unchecked one
    | true =>
      apply map_answer_config
      intro one member
      have space := (valued_fields one).1
      rw [← space]
      apply quiet checked
      rw [← values, ← List.map_append]
      exact List.mem_map_of_mem member
  rw [awaiting.operations_eq, List.append_assoc, List.map_append, answers, List.map_append, values]

theorem bitsOf_shiftError (error : Nat) (failed : Bool) {n : Nat} (room : n + 1 ≤ 64) :
    bitsOf (n + 1) (shiftError error failed) = bitsOf n error ++ [failed] := by
  have lowest : (shiftError error failed).testBit 0 = failed := by
    rw [shiftError, Nat.testBit_mod_two_pow, Nat.testBit_or, Nat.testBit_shiftLeft]
    cases failed <;> rfl
  have shifted : ∀ i, i + 1 < 64 → (shiftError error failed).testBit (i + 1) = error.testBit i := by
    intro i below
    have single : failed.toNat.testBit (i + 1) = false := by
      cases failed with
      | false => exact Nat.zero_testBit _
      | true => simp [Nat.testBit_succ]
    rw [shiftError, Nat.testBit_mod_two_pow, Nat.testBit_or, Nat.testBit_shiftLeft, single]
    simp [below]
  induction n with
  | zero =>
    show [(shiftError error failed).testBit 0] = [failed]
    rw [lowest]
  | succ n ih => rw [bitsOf, shifted n (by omega), ih (by omega), bitsOf, List.cons_append]

theorem bitsOf_mod (value : Nat) {n width : Nat} (within : n ≤ width) :
    bitsOf n (value % 2 ^ width) = bitsOf n value := by
  induction n with
  | zero => rfl
  | succ n ih =>
    have below : n < width := within
    rw [bitsOf, bitsOf, ih (by omega), Nat.testBit_mod_two_pow, decide_eq_true below, Bool.true_and]

/-- The accesses were made for their items, and a status word says what the register held. -/
def Truthful (p : Port) : Nat → List (Item × Access) → Prop
  | _, [] => True
  | error, (item, access) :: rest =>
    access.request = carriedRequest p item ∧
      (item = .status → access.value % 2 ^ (8 * p.data) = error % 2 ^ (8 * p.data)) ∧
      Truthful p (register error access) rest

theorem carried_fields (p : Port) (op : Operation) : (carried p op).cfgSpace = op.cfgSpace ∧
    (carried p op).isWrite = op.isWrite ∧ (carried p op).format = op.format := by
  unfold carried
  split
  · exact ⟨rfl, rfl, rfl⟩
  · exact ⟨rfl, rfl, rfl⟩

theorem shifts_operation (p : Port) (op : Operation) :
    shifts (operationRequest p op) = if op.cfgSpace then 0 else 1 := by
  unfold operationRequest
  cases op.isWrite <;> cases op.cfgSpace <;> rfl

/-- The register knows how the operations of the window went. -/
structure Recorded (check : Bool) (maxops pending error : Nat) (window : List (Operation × Access)) : Prop where
  pending_eq : check = true → pending = (failures window).length
  pending_le : check = true → pending ≤ maxops
  bits_eq : check = true → bitsOf pending error = failures window

theorem Recorded.operation {pending error : Nat} {op : Operation} {access : Access}
    (recorded : Recorded check maxops pending error window) (width : check = true → maxops ≤ 64)
    (room : bump op.cfgSpace pending ≤ maxops) (made : access.request = carriedRequest p (.operation op)) :
    Recorded check maxops (bump op.cfgSpace pending) (register error access) (window ++ [(op, access)]) := by
  have space : shifts access.request = if op.cfgSpace then 0 else 1 := by
    rw [made, carriedRequest, shifts_operation, (carried_fields p op).1]
  have failed : failures (window ++ [(op, access)]) =
      failures window ++ if op.cfgSpace then [] else [access.failed] := by
    rw [failures_append, failures_cons]
    cases op.cfgSpace <;> rfl
  cases config : op.cfgSpace with
  | true =>
    rw [config, if_pos rfl] at space
    rw [config, if_pos rfl, List.append_nil] at failed
    have same : register error access = error := if_pos space
    rw [same]
    exact ⟨fun checked => by rw [failed]; exact recorded.pending_eq checked, recorded.pending_le,
      fun checked => by rw [failed]; exact recorded.bits_eq checked⟩
  | false =>
    rw [config, if_neg (by decide)] at space failed
    have shifted : register error access = shiftError error access.failed := if_neg (by rw [space]; decide)
    have more : bump false pending = pending + 1 := rfl
    rw [config, more] at room
    rw [shifted, more]
    refine ⟨fun checked => ?_, fun _ => room, fun checked => ?_⟩
    · rw [failed, recorded.pending_eq checked, List.length_append, List.length_singleton]
    · rw [failed, bitsOf_shiftError _ _ (room.trans (width checked)), recorded.bits_eq checked]

theorem Recorded.fresh (check : Bool) (maxops error : Nat) : Recorded check maxops 0 error [] :=
  ⟨fun _ => rfl, fun _ => Nat.zero_le _, fun _ => rfl⟩

variable {front back : List Response}

theorem ebSocketWriteConfig_at {inbox : Inbox} (write : ConfigWrite)
    (queued : inbox.queue = front ++ response :: back) (others : ∀ other ∈ front, other.address ≠ response.address)
    (named : write.addr &&& 0xFFFE = response.address) :
    let updated := update response write.widths write.addr write.value
    inbox.ebSocketWriteConfig write =
      { queue := front ++ if updated.complete then back else updated.response :: back
        stored := inbox.stored ++ (updated.stored.bind pointer?).toList
        calls := inbox.calls ++ if updated.complete then
          [(response.handle, updated.response.operations, updated.status)] else [] } := by
  have missed : front.findIdx? (fun other => other.address == write.addr &&& 0xFFFE) = none := by
    rw [List.findIdx?_eq_none_iff]
    intro other member
    rw [named]
    exact beq_false_of_ne (others other member)
  have found : inbox.queue.findIdx? (fun other => other.address == write.addr &&& 0xFFFE) = some front.length := by
    rw [queued, List.findIdx?_append, missed, Option.none_or, List.findIdx?_cons, named, beq_self_eq_true, if_pos rfl]
    simp
  have here : inbox.queue[front.length]? = some response := by
    rw [queued, List.getElem?_append_right le_rfl, Nat.sub_self]
    rfl
  have erased : inbox.queue.eraseIdx front.length = front ++ back := by
    rw [queued, List.eraseIdx_append_of_length_le le_rfl, Nat.sub_self]
    rfl
  have replaced : ∀ next, inbox.queue.set front.length next = front ++ next :: back := by
    intro next
    rw [queued, List.set_append_right _ _ le_rfl, Nat.sub_self]
    rfl
  simp only [Inbox.ebSocketWriteConfig, found, here, erased, replaced]
  generalize update response write.widths write.addr write.value = updated
  cases updated.complete with
  | true => rfl
  | false => simp only [Bool.false_eq_true, if_false, List.append_nil]

/-- The status a cycle is called back with. -/
def verdict (operations : List Operation) : Status := if operations.any Operation.error then .segfault else .ok

def Inbox.completed (inbox : Inbox) (front back : List Response) (handle : Nat) (check : Bool)
    (served : List (Operation × Access)) (news : List (Nat × Nat)) : Inbox :=
  { queue := front ++ back
    stored := inbox.stored ++ news
    calls := inbox.calls ++ [(handle, served.map (answer check), verdict (served.map (answer check)))] }

/-- The words complete the response, and none but the last of them calls back. -/
structure Completes (check : Bool) (front back : List Response) (handle : Nat) (inbox : Inbox)
    (writes : List ConfigWrite) (served : List (Operation × Access)) (news : List (Nat × Nat)) : Prop where
  completed : writes.foldl Inbox.ebSocketWriteConfig inbox = Inbox.completed inbox front back handle check served news
  silent : ∀ early late, writes = early ++ late → late ≠ [] →
    (early.foldl Inbox.ebSocketWriteConfig inbox).calls = inbox.calls

theorem word_completes {pending rba handle : Nat} {inbox : Inbox}
    (write : ConfigWrite) {news : Option (Nat × Nat)}
    (queued : inbox.queue = front ++ response :: back) (others : ∀ other ∈ front, other.address ≠ rba)
    (claimed : response.address = rba) (named : write.addr &&& 0xFFFE = rba) (owner : response.handle = handle)
    (accepted : (update response write.widths write.addr write.value).fail = false)
    (stored : (update response write.widths write.addr write.value).stored.bind pointer? = news)
    (awaiting : Awaiting check done window rest (update response write.widths write.addr write.value).response)
    (asks : Asks check maxops pending rest (exchanges.map Prod.fst))
    (counted : check = true → pending = (failures window).length)
    (onward : exchanges.filterMap (reply p rba) ≠ [] → ∀ inbox : Inbox,
      inbox.queue = front ++ (update response write.widths write.addr write.value).response :: back →
      Completes check front back handle inbox (exchanges.filterMap (reply p rba)) (done ++ window ++ own exchanges)
        ((own exchanges).filterMap delivered)) :
    Completes check front back handle inbox (write :: exchanges.filterMap (reply p rba))
      (done ++ window ++ own exchanges) (news.toList ++ (own exchanges).filterMap delivered) := by
  have stepped := ebSocketWriteConfig_at write queued (claimed ▸ others) (named.trans claimed.symm)
  have complete_iff := Awaiting.settled_iff (p := p) rba awaiting asks counted
  have settled := Awaiting.settled_operations (p := p) rba awaiting asks counted
  rw [owner] at stepped
  generalize update response write.widths write.addr write.value = updated at *
  by_cases last : exchanges.filterMap (reply p rba) = []
  · have complete : updated.complete = true := by
      obtain ⟨noRead, noStatus⟩ := complete_iff.mp last
      rw [Updated.complete, noRead, noStatus, Bool.and_self, Bool.or_true]
    have operations := settled last
    have status : updated.status = verdict updated.response.operations := by
      rw [Updated.status, accepted, if_neg (by decide)]
      rfl
    constructor
    · rw [last, List.foldl_cons, List.foldl_nil, stepped, stored, delivered_silent last, List.append_nil]
      simp only [complete, if_true, status, operations]
      rfl
    · intro early late split some
      cases early with
      | nil => rfl
      | cons first early =>
        rw [last, List.cons_append, List.cons.injEq] at split
        exact absurd (List.append_eq_nil_iff.mp split.2.symm).2 some
  · have running : updated.complete = false := by
      have unsettled := mt complete_iff.mpr last
      rw [Updated.complete, accepted, Bool.false_or]
      cases read : updated.response.writeCursor.isNone with
      | false => rfl
      | true =>
        cases status : updated.response.statusCursor.isNone with
        | false => rfl
        | true => exact absurd ⟨read, status⟩ unsettled
    simp only [running, Bool.false_eq_true, if_false, List.append_nil] at stepped
    have later := onward last (inbox.ebSocketWriteConfig write) (by rw [stepped])
    constructor
    · rw [List.foldl_cons, later.completed, stepped, stored]
      simp only [Inbox.completed, List.append_assoc]
    · intro early late split some
      cases early with
      | nil => rfl
      | cons first early =>
        rw [List.cons_append, List.cons.injEq] at split
        obtain ⟨rfl, split⟩ := split
        rw [List.foldl_cons, later.silent early late split some, stepped]

theorem address_named {rba : Nat} (even : rba % 2 = 0) (small : rba < 2 ^ 16) :
    rba &&& 0xFFFE = rba ∧ (rba ||| 1) &&& 0xFFFE = rba ∧ (rba ||| 1) % 2 = 1 := by
  have masked : ∀ word < 2 ^ 16, word &&& 0xFFFE = word - word % 2 := by
    intro word below
    have kept := Bits.and_mask_range word (by decide : 1 ≤ 16)
    rw [Nat.mod_eq_of_lt below] at kept
    exact kept
  have odd : rba ||| 1 = rba + 1 := by
    have joined : (rba - rba % 2 ^ 1) ||| 1 = rba - rba % 2 ^ 1 + 1 := Bits.or_lane (by decide)
    rw [pow_one, even] at joined
    exact joined
  have below : rba + 1 < 2 ^ 16 := by omega
  rw [odd, masked rba small, masked (rba + 1) below]
  omega

theorem run_completes {pending rba handle : Nat} (asks : Asks check maxops pending rest items)
    (width : check = true → maxops = p.data * 8)
    {error : Nat} {inbox : Inbox} (same : exchanges.map Prod.fst = items) (truthful : Truthful p error exchanges)
    (awaiting : Awaiting check done window rest response) (recorded : Recorded check maxops pending error window)
    (queued : inbox.queue = front ++ response :: back) (others : ∀ other ∈ front, other.address ≠ rba)
    (claimed : response.address = rba) (owner : response.handle = handle) (even : rba % 2 = 0) (small : rba < 2 ^ 16)
    (some : exchanges.filterMap (reply p rba) ≠ []) :
    Completes check front back handle inbox (exchanges.filterMap (reply p rba)) (done ++ window ++ own exchanges)
      ((own exchanges).filterMap delivered) := by
  have eight := p.data_le_eight
  obtain ⟨named, namedStatus, odd⟩ := address_named even small
  induction asks generalizing exchanges error done window response inbox with
  | finished _ =>
    rw [List.map_eq_nil_iff.mp same] at some
    exact absurd rfl some
  | @operation pending op operations items room rest ih =>
    obtain ⟨⟨item, access⟩, exchanges, rfl, item_eq, tail⟩ := List.map_eq_cons_iff.mp same
    have item_eq : item = .operation op := item_eq
    subst item_eq
    obtain ⟨made, _, onward⟩ := truthful
    have own_cons : own ((.operation op, access) :: exchanges) = (op, access) :: own exchanges := rfl
    have recorded' := recorded.operation (fun checked => by rw [width checked]; omega) room made
    have split : done ++ window ++ (op, access) :: own exchanges = done ++ (window ++ [(op, access)]) ++
      own exchanges := by
      simp only [List.append_assoc, List.singleton_append]
    cases isWrite : op.isWrite with
    | true =>
      have unanswered : reply p rba (.operation op, access) = none := if_pos isWrite
      have kept : delivered (op, access) = none := by
        apply if_neg
        intro pointer
        rw [Operation.isWrite, show op.kind = .readPtr from pointer] at isWrite
        cases isWrite
      rw [List.filterMap_cons, unanswered] at some ⊢
      rw [own_cons, split, List.filterMap_cons, kept]
      exact ih tail onward (awaiting.pass isWrite access) recorded' queued claimed owner some
    | false =>
      have answered : reply p rba (.operation op, access) =
          Option.some ⟨UInt8.ofNat (p.addr * 16 + op.size), rba, access.value % 2 ^ (8 * op.size)⟩ :=
        if_neg (by rw [isWrite]; decide)
      obtain ⟨accepted, stored, advanced⟩ := awaiting.read isWrite (UInt8.ofNat (p.addr * 16 + op.size)) even access
      obtain ⟨handle', address'⟩ := update_handle response (UInt8.ofNat (p.addr * 16 + op.size)) rba
        (access.value % 2 ^ (8 * op.size))
      have onwards := word_completes ⟨_, _, _⟩ queued others claimed named owner accepted stored advanced
        (tail ▸ rest) recorded'.pending_eq fun more inbox' queued' =>
          ih tail onward advanced recorded' queued' (address'.trans claimed) (handle'.trans owner) more
      rw [List.filterMap_cons, answered, own_cons, split, List.filterMap_cons]
      cases kept : delivered (op, access) with
      | none => rw [kept] at onwards; exact onwards
      | some word => rw [kept] at onwards; exact onwards
  | @status pending operations items checked due full rest ih =>
    obtain ⟨⟨item, access⟩, exchanges, rfl, item_eq, tail⟩ := List.map_eq_cons_iff.mp same
    have item_eq : item = .status := item_eq
    subst item_eq
    obtain ⟨made, told, onward⟩ := truthful
    subst checked
    have count := recorded.pending_eq rfl
    have room := recorded.pending_le rfl
    have answered : reply p rba (.status, access) =
        Option.some ⟨UInt8.ofNat (p.addr * 16 + p.data), rba ||| 1, access.value % 2 ^ (8 * p.data)⟩ := rfl
    have unchanged : register error access = error := by
      rw [register, made]
      rfl
    have bits : bitsOf (failures window).length (access.value % 2 ^ (8 * p.data)) = failures window := by
      rw [told rfl, bitsOf_mod error (by rw [← count, Nat.mul_comm, ← width rfl]; exact room), ← count]
      exact recorded.bits_eq rfl
    have size : (UInt8.ofNat (p.addr * 16 + p.data) &&& ebDataX).toNat * 8 = maxops := by
      rw [width rfl]
      exact congrArg (· * 8) (sizes_widths p).1
    obtain ⟨accepted, stored, advanced⟩ := status_word awaiting
      (List.length_pos_iff.mp (by omega)) (by omega) (by rw [← count]; exact full) size odd bits
    obtain ⟨handle', address'⟩ := update_handle response (UInt8.ofNat (p.addr * 16 + p.data)) (rba ||| 1)
      (access.value % 2 ^ (8 * p.data))
    rw [unchanged] at onward
    have onwards := word_completes ⟨_, _, _⟩ queued others claimed namedStatus owner accepted
      (show _ = none from congrArg (Option.bind · pointer?) stored) advanced (tail ▸ rest)
      (fun _ => rfl) fun more inbox' queued' =>
        ih tail onward advanced (Recorded.fresh true maxops error) queued' (address'.trans claimed)
          (handle'.trans owner)
          more
    rw [List.append_nil] at onwards
    rw [List.filterMap_cons, answered]
    exact onwards

end

end BelProject.Etherbone.ReplyRun
