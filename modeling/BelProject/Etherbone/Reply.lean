import BelProject.Etherbone.Flush

/-! What a write into the config space does to the response it is addressed to: a value for
the next read, or a word of status bits for the next bus operations. When both cursors have
run off the end, the cycle is complete. -/

namespace BelProject.Etherbone.Reply
open Operations Flush

/-- Count how many operations need a status update, at most `maxops`. -/
def countStatus (maxops : Nat) : Nat → List Operation → Nat
  | ops, [] => ops
  | ops, op :: next =>
    -- skip config ops
    if op.cfgSpace then countStatus maxops ops next
    else if ops + 1 = maxops then ops + 1
    else countStatus maxops (ops + 1) next

/-- Hand out `count` status bits of a word, the oldest operation gets the highest of them;
what is left behind the last one. -/
def markStatus (value : Nat) : Nat → List Operation → List Operation × List Operation
  | 0, next => ([], next)
  | _ + 1, [] => ([], [])
  | i + 1, op :: next =>
    if op.cfgSpace then
      let (marked, rest) := markStatus value (i + 1) next
      (op :: marked, rest)
    else
      let (marked, rest) := markStatus value i next
      ({ op with error := op.error || value.testBit i } :: marked, rest)

/-- Where a reply puts a value: the word a read was given to fill in, or the operation itself. -/
inductive Store where
  | pointer (destination value : Nat)
  | operation (index value : Nat)
  deriving DecidableEq

structure Updated where
  response : Response
  stored : Option Store
  fail : Bool

def writeValue (response : Response) (value : Nat) : Updated :=
  match response.writeCursor with
  | none => ⟨response, none, true⟩
  | some i =>
    match response.operations[i]? with
    | none => ⟨response, none, true⟩
    | some op =>
      let after := { response with writeCursor := ebFindRead response.operations (i + 1) }
      if op.kind = .readPtr then ⟨after, some (.pointer op.unValue value), false⟩
      else ⟨{ after with operations := response.operations.set i { op with unValue := value } },
        some (.operation i value), false⟩

def writeStatus (response : Response) (maxops value : Nat) : Updated :=
  match response.statusCursor with
  | none => ⟨response, none, true⟩
  | some i =>
    let ops := countStatus maxops 0 (response.operations.drop i)
    let (marked, rest) := markStatus value ops (response.operations.drop i)
    let operations := response.operations.take i ++ marked ++ rest
    ⟨{ response with
        operations := operations
        statusCursor := ebFindBus operations (i + marked.length) }, none, ops = 0⟩

/-- The part of `eb_socket_write_config` behind the walk. -/
def update (response : Response) (widths : UInt8) (addr value : Nat) : Updated :=
  if addr % 2 = 0 then writeValue response value
  else writeStatus response ((widths &&& ebDataX).toNat * 8) value

def Updated.complete (u : Updated) : Bool :=
  u.fail || (u.response.writeCursor.isNone && u.response.statusCursor.isNone)

def Updated.status (u : Updated) : Status :=
  if u.fail then .fail else if u.response.operations.any Operation.error then .segfault else .ok

theorem update_handle (response : Response) (widths : UInt8) (addr value : Nat) :
    (update response widths addr value).response.handle = response.handle ∧
      (update response widths addr value).response.address = response.address := by
  unfold update
  split
  · unfold writeValue
    split
    · exact ⟨rfl, rfl⟩
    · split
      · exact ⟨rfl, rfl⟩
      · dsimp only
        split
        · exact ⟨rfl, rfl⟩
        · exact ⟨rfl, rfl⟩
  · unfold writeStatus
    split
    · exact ⟨rfl, rfl⟩
    · exact ⟨rfl, rfl⟩

end BelProject.Etherbone.Reply
