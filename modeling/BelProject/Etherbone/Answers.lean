import BelProject.Etherbone.Agreement
import BelProject.Etherbone.Glue

/-! From replies to callbacks. The words of a reply are config writes to the address the
cycle claimed, one for each read and one for each window of bus operations whose status
was asked for. The two cursors of the response walk over the operations in the same
order, so that the last word, and none before it, completes the cycle. -/

namespace BelProject.Etherbone.Answers
open Width Operations Format Flush Reply Requests Execute Agreement

/-- A call of `eb_socket_write_config`. -/
structure ConfigWrite where
  widths : UInt8
  addr : Nat
  value : Nat
  deriving DecidableEq, Repr

/-- What replies change: the responses in flight, the words stored through the pointers of
reads and the callbacks made, in order. -/
structure Inbox where
  queue : List Response
  stored : List (Nat × Nat)
  calls : List (Nat × List Operation × Status)
  deriving DecidableEq

def pointer? : Store → Option (Nat × Nat)
  | .pointer destination value => some (destination, value)
  | .operation _ _ => none

/-- `eb_socket_write_config` on the responses themselves. -/
def Inbox.ebSocketWriteConfig (inbox : Inbox) (write : ConfigWrite) : Inbox :=
  match inbox.queue.findIdx? fun response => response.address == write.addr &&& 0xFFFE with
  | none => inbox
  | some i =>
    match inbox.queue[i]? with
    | none => inbox
    | some response =>
      let updated := update response write.widths write.addr write.value
      let stored := inbox.stored ++ (updated.stored.bind pointer?).toList
      if updated.complete then
        { queue := inbox.queue.eraseIdx i
          stored := stored
          calls := inbox.calls ++ [(response.handle, updated.response.operations, updated.status)] }
      else { inbox with queue := inbox.queue.set i updated.response, stored := stored }

section
variable (p : Port)

def carried (op : Operation) : Operation :=
  if op.isWrite then op else { op with address := op.address % 2 ^ (8 * p.addr) }

def carriedRequest : Item → Request
  | .operation op => operationRequest p (carried p op)
  | .status => Item.status.request p

def reply (rba : Nat) : Item × Access → Option ConfigWrite
  | (.operation op, access) =>
    if op.isWrite then none
    else some ⟨UInt8.ofNat (p.addr * 16 + op.size), rba, access.value % 2 ^ (8 * op.size)⟩
  | (.status, access) => some ⟨UInt8.ofNat (p.addr * 16 + p.data), rba ||| 1, access.value % 2 ^ (8 * p.data)⟩

def own (exchanges : List (Item × Access)) : List (Operation × Access) :=
  exchanges.filterMap fun exchange => exchange.1.operation?.map fun op => (op, exchange.2)

def valued (served : Operation × Access) : Operation :=
  if served.1.kind = .readVal then { served.1 with unValue := served.2.value % 2 ^ (8 * served.1.size) } else served.1

/-- An operation whose status has arrived, too, if it has one. -/
def answer (check : Bool) (served : Operation × Access) : Operation :=
  { valued served with error := served.1.error || (check && !served.1.cfgSpace && served.2.failed) }

def delivered (served : Operation × Access) : Option (Nat × Nat) :=
  if served.1.kind = .readPtr then some (served.1.unValue, served.2.value % 2 ^ (8 * served.1.size)) else none

def failures (served : List (Operation × Access)) : List Bool :=
  (served.filter fun one => !one.1.cfgSpace).map fun one => one.2.failed

/-- The lowest `n` bits of a register, the oldest first. -/
def bitsOf : Nat → Nat → List Bool
  | 0, _ => []
  | n + 1, value => value.testBit n :: bitsOf n value

/-- How flush asks for status words: whenever a register could be full, and at the end. -/
inductive Asks (check : Bool) (maxops : Nat) : Nat → List Operation → List Item → Prop
  | finished {pending : Nat} (settled : check = true → pending = 0) : Asks check maxops pending [] []
  | operation {pending : Nat} {op : Operation} {operations : List Operation} {items : List Item}
      (room : bump op.cfgSpace pending ≤ maxops) (rest : Asks check maxops (bump op.cfgSpace pending) operations items) :
      Asks check maxops pending (op :: operations) (.operation op :: items)
  | status {pending : Nat} {operations : List Operation} {items : List Item} (checked : check = true)
      (due : 0 < pending) (full : pending = maxops ∨ operations = []) (rest : Asks check maxops 0 operations items) :
      Asks check maxops pending operations (.status :: items)

/-- A response some of whose replies have arrived. The status of `done` is known, that of
`window` is not. -/
structure Awaiting (check : Bool) (done window : List (Operation × Access)) (rest : List Operation)
    (response : Response) : Prop where
  operations_eq : response.operations = done.map (answer check) ++ (window.map valued ++ rest)
  write_eq : response.writeCursor = ebFindRead response.operations (done.length + window.length)
  status_eq : response.statusCursor = if check then ebFindBus response.operations done.length else none

end

theorem valued_fields (served : Operation × Access) : (valued served).cfgSpace = served.1.cfgSpace ∧
    (valued served).isWrite = served.1.isWrite ∧ (valued served).error = served.1.error := by
  unfold valued
  split
  · exact ⟨rfl, rfl, rfl⟩
  · exact ⟨rfl, rfl, rfl⟩

theorem answer_config (check : Bool) {served : Operation × Access} (config : served.1.cfgSpace = true) :
    answer check served = valued served := by
  have error := (valued_fields served).2.2
  rw [answer, config, Bool.not_true, Bool.and_false, Bool.false_and, Bool.or_false, ← error]

theorem ebFindRead_append (front rest : List Operation) :
    ebFindRead (front ++ rest) front.length = (rest.findIdx? fun op => !op.isWrite).map (front.length + ·) := by
  rw [ebFindRead, List.drop_left]

theorem ebFindBus_append (front rest : List Operation) :
    ebFindBus (front ++ rest) front.length = (rest.findIdx? fun op => !op.cfgSpace).map (front.length + ·) := by
  rw [ebFindBus, List.drop_left]

theorem findIdx?_skip {α : Type} (wanted : α → Bool) (skipped rest : List α) (none : ∀ x ∈ skipped, wanted x = false)
    (base : Nat) : ((skipped ++ rest).findIdx? wanted).map (base + ·) =
      (rest.findIdx? wanted).map (base + skipped.length + ·) := by
  have quiet : skipped.findIdx? wanted = Option.none := by
    rw [List.findIdx?_eq_none_iff]
    exact none
  rw [List.findIdx?_append, quiet, Option.none_or, Option.map_map]
  congr 1
  funext i
  show base + (i + skipped.length) = base + skipped.length + i
  omega

section
variable {p : Port} {check : Bool} {done window : List (Operation × Access)} {rest : List Operation}
  {response : Response} {op : Operation} {access : Access}

theorem length_front (check : Bool) (done window : List (Operation × Access)) :
    (done.map (answer check) ++ window.map valued).length = done.length + window.length := by
  rw [List.length_append, List.length_map, List.length_map]

section
variable (awaiting : Awaiting check done window rest response)
include awaiting

theorem Awaiting.write_cursor :
    response.writeCursor = (rest.findIdx? fun op => !op.isWrite).map (done.length + window.length + ·) := by
  have search := ebFindRead_append (done.map (answer check) ++ window.map valued) rest
  rw [length_front] at search
  rw [awaiting.write_eq, awaiting.operations_eq, ← List.append_assoc, search]

theorem Awaiting.status_cursor (checked : check = true) :
    response.statusCursor = ((window.map valued ++ rest).findIdx? fun op => !op.cfgSpace).map (done.length + ·) := by
  have search := ebFindBus_append (done.map (answer check)) (window.map valued ++ rest)
  rw [List.length_map] at search
  rw [awaiting.status_eq, if_pos checked, awaiting.operations_eq, search]

theorem Awaiting.cursors :
    (response.writeCursor.isNone = true ↔ ∀ op ∈ rest, op.isWrite = true) ∧ (response.statusCursor.isNone = true ↔
        (check = true → ∀ op ∈ window.map valued ++ rest, op.cfgSpace = true)) := by
  constructor
  · rw [awaiting.write_cursor, Option.isNone_map, Option.isNone_iff_eq_none, List.findIdx?_eq_none_iff]
    simp
  · cases checked : check with
    | false =>
      rw [awaiting.status_eq, checked]
      simp
    | true =>
      rw [awaiting.status_cursor checked, Option.isNone_map, Option.isNone_iff_eq_none, List.findIdx?_eq_none_iff]
      simp only [Bool.not_eq_false', forall_const]

end

theorem Awaiting.pass (awaiting : Awaiting check done window (op :: rest) response) (isWrite : op.isWrite = true)
    (access : Access) : Awaiting check done (window ++ [(op, access)]) rest response := by
  have same : valued (op, access) = op := by
    have kind : op.kind ≠ .readVal := by
      intro read
      rw [Operation.isWrite, read] at isWrite
      cases isWrite
    exact if_neg kind
  have operations : response.operations = done.map (answer check) ++ ((window ++ [(op, access)]).map valued ++ rest) := by
    rw [awaiting.operations_eq, List.map_append, List.map_singleton, same, List.append_assoc]
    rfl
  refine ⟨operations, ?_, awaiting.status_eq⟩
  have search := ebFindRead_append (done.map (answer check) ++ (window ++ [(op, access)]).map valued) rest
  rw [length_front, List.append_assoc, ← operations] at search
  rw [search, awaiting.write_cursor]
  have skip := findIdx?_skip (fun op : Operation => !op.isWrite) [op] rest (by simp [isWrite]) (done.length + window.length)
  rw [List.length_append]
  exact skip

theorem Awaiting.read (awaiting : Awaiting check done window (op :: rest) response) (isRead : op.isWrite = false)
    (widths : UInt8) {addr : Nat} (even : addr % 2 = 0) (access : Access) :
    let updated := update response widths addr (access.value % 2 ^ (8 * op.size))
    updated.fail = false ∧ updated.stored.bind pointer? = delivered (op, access) ∧
      Awaiting check done (window ++ [(op, access)]) rest updated.response := by
  have cursor : response.writeCursor = some (done.length + window.length) := by
    rw [awaiting.write_cursor, List.findIdx?_cons, isRead, Bool.not_false, if_pos rfl]
    rfl
  have length := length_front check done window
  have here : response.operations[done.length + window.length]? = some op := by
    rw [awaiting.operations_eq, ← List.append_assoc, ← length, List.getElem?_append_right (le_refl _), Nat.sub_self]
    rfl
  have next : ebFindRead response.operations (done.length + window.length + 1) =
      (rest.findIdx? fun op => !op.isWrite).map (done.length + (window ++ [(op, access)]).length + ·) := by
    have search := ebFindRead_append (done.map (answer check) ++ window.map valued ++ [op]) rest
    rw [List.length_append, length, List.append_assoc, List.append_assoc] at search
    rw [awaiting.operations_eq, List.length_append]
    exact search
  have moved : ∀ operations, operations = done.map (answer check) ++ ((window ++ [(op, access)]).map valued ++ rest) →
      ebFindRead response.operations (done.length + window.length + 1) =
        ebFindRead operations (done.length + (window ++ [(op, access)]).length) := by
    intro operations same
    have search := ebFindRead_append (done.map (answer check) ++ (window ++ [(op, access)]).map valued) rest
    rw [length_front, List.append_assoc, ← same] at search
    rw [next, search]
  have status : ∀ operations, operations = done.map (answer check) ++ ((window ++ [(op, access)]).map valued ++ rest) →
      response.statusCursor = if check then ebFindBus operations done.length else none := by
    intro operations same
    cases checked : check with
    | false => rw [awaiting.status_eq, checked]; rfl
    | true =>
      have search := ebFindBus_append (done.map (answer check)) ((window ++ [(op, access)]).map valued ++ rest)
      rw [List.length_map, ← same] at search
      rw [if_pos rfl, search, awaiting.status_cursor checked]
      congr 1
      rw [List.map_append, List.append_assoc, List.findIdx?_append, @List.findIdx?_append _ (window.map valued)]
      congr 2
      have field := (valued_fields (op, access)).1
      rw [List.map_singleton, List.singleton_append, List.findIdx?_cons, List.findIdx?_cons, field]
  rw [update, if_pos even, writeValue, cursor]
  dsimp only
  rw [here]
  dsimp only
  by_cases pointer : op.kind = .readPtr
  · have same : valued (op, access) = op := by
      apply if_neg
      rw [pointer]
      decide
    have operations : response.operations = done.map (answer check) ++
        ((window ++ [(op, access)]).map valued ++ rest) := by
      rw [awaiting.operations_eq, List.map_append, List.map_singleton, same, List.append_assoc]
      rfl
    rw [if_pos pointer]
    refine ⟨rfl, ?_, ?_, ?_, ?_⟩
    · rw [delivered, if_pos pointer]
      rfl
    · exact operations
    · exact moved _ operations
    · exact status _ operations
  · have kind : op.kind = .readVal := by
      cases kind : op.kind with
      | write => rw [Operation.isWrite, kind] at isRead; cases isRead
      | readPtr => exact absurd kind pointer
      | readVal => rfl
    have value : valued (op, access) = { op with unValue := access.value % 2 ^ (8 * op.size) } := if_pos kind
    have operations : response.operations.set (done.length + window.length)
        { op with unValue := access.value % 2 ^ (8 * op.size) } =
        done.map (answer check) ++ ((window ++ [(op, access)]).map valued ++ rest) := by
      rw [awaiting.operations_eq, ← List.append_assoc, ← length, List.set_append_right _ _ (le_refl _), Nat.sub_self,
        List.set_cons_zero, List.map_append, List.map_singleton, value, List.append_assoc, List.append_assoc]
      rfl
    rw [if_neg pointer]
    refine ⟨rfl, ?_, ?_, ?_, ?_⟩
    · rw [delivered, if_neg pointer]
      rfl
    · exact operations
    · exact moved _ operations
    · exact status _ operations

end

end BelProject.Etherbone.Answers
