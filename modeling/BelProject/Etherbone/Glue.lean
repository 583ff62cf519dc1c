import BelProject.Etherbone.Reply
import BelProject.Library.LinkedList

/-! Devices, cycles and operations of a socket, as the library keeps them. A user callback may
call the library again, so a function that calls back is cut there: `resume` takes it up
where the callback returned. A handle is not handed out twice, a step that would follow a
dead one is not defined. -/

namespace BelProject.Etherbone.Glue
open BelProject.Library LinkedList Width Operations Flush Reply
open Function (update)

/-- `EB_NULL`. -/
abbrev null : Nat := 0

inductive Slot where
  | unused | operation | cycle | device | response | freed
  deriving DecidableEq

/-- A response in flight. The operations of its cycle are those of the response by now;
`claim` counts the responses before it. -/
structure Entry where
  slot : Nat
  cycle : Nat
  response : Response
  claim : Nat

/-- A library function interrupted by a callback, or the callback itself. -/
inductive Frame where
  /-- the loop of `eb_device_flush`, at `nextp` -/
  | flush (devicep nextp : Nat) (pack : Pack)
  /-- a callback, and what is freed behind it -/
  | callback (cyclep handle : Nat) (responsep : Option Nat)
  /-- `eb_device_close` in its kill loop, with `firstp` still to come -/
  | kill (devicep : Nat) (bad : List Entry) (firstp : Nat)
  /-- the last loop of `eb_device_close` -/
  | drain (devicep nextp : Nat)

def Frame.device? : Frame → Option Nat
  | .flush devicep _ _ => some devicep
  | .callback _ _ _ => none
  | .kill devicep _ _ => some devicep
  | .drain devicep _ => some devicep

structure World where
  fresh : Nat
  slot : Nat → Slot
  -- operations
  opNext : Nat → Nat
  operation : Nat → Operation
  -- cycles; `unOps` is the first operation or the cycle itself, `unLink` the next ready cycle
  -- or the device
  unOps : Nat → Nat
  unLink : Nat → Nat
  -- devices; `ready` is the device itself on a server link
  ready : Nat → Nat
  unready : Nat → UInt8
  up : Nat → Bool
  port : Nat → Port
  mtu : Nat → Nat
  -- the socket
  queue : List Entry
  rba : Nat
  claims : Nat
  stack : List Frame
  -- what has happened so far
  devices : List Nat
  opened : List Nat
  closed : List Nat
  home : Nat → Nat
  owner : Nat → Nat
  calls : List Nat

def World.start : World :=
  { fresh := 1
    slot := fun _ => .unused
    opNext := fun _ => null
    operation := fun _ => ⟨0, 0, .write, false, false, false, 0⟩
    unOps := fun _ => null
    unLink := fun _ => null
    ready := fun _ => null
    unready := fun _ => 0
    up := fun _ => false
    port := fun _ => .wishbone32
    mtu := fun _ => 0
    queue := []
    rba := 0x8000
    claims := 0
    stack := []
    devices := []
    opened := []
    closed := []
    home := fun _ => null
    owner := fun _ => null
    calls := [] }

namespace World

def allocate (w : World) (slot : Slot) : World :=
  { w with fresh := w.fresh + 1, slot := update w.slot w.fresh slot }

def free (w : World) (handle : Nat) : World := { w with slot := update w.slot handle .freed }

/-- The operations `eb_operation_next` meets from a handle on. -/
def walkOps (w : World) : Nat → Nat → Option (List Nat)
  | 0, _ => none
  | fuel + 1, handle =>
    if handle = null then some []
    else if w.slot handle = .operation then (walkOps w fuel (w.opNext handle)).map (handle :: ·)
    else none

def operations (w : World) (cyclep : Nat) : Option (List Nat) := w.walkOps (w.fresh + 1) (w.unOps cyclep)

/-- `eb_device_open` or a server link. -/
def ebDeviceOpen (w : World) (passive : Bool) (port : Port) (mtu : Nat) : World :=
  { w.allocate .device with
    ready := update w.ready w.fresh (if passive then w.fresh else null)
    unready := update w.unready w.fresh 0
    up := update w.up w.fresh true
    port := update w.port w.fresh port
    mtu := update w.mtu w.fresh mtu
    devices := w.fresh :: w.devices }

def ebCycleOpen (w : World) (devicep : Nat) (granted : Bool) : World × Status :=
  if granted then
    -- is the device closing?
    if w.ready devicep = devicep then (w.allocate .freed, .fail)
    else ({ w.allocate .cycle with
      unOps := update w.unOps w.fresh null
      unLink := update w.unLink w.fresh devicep
      unready := update w.unready devicep (w.unready devicep + 1)
      opened := w.fresh :: w.opened
      home := update w.home w.fresh devicep }, .ok)
  else (w, .oom)

def ebCycleDestroy (w : World) (cyclep : Nat) : Option World :=
  if w.unOps cyclep = cyclep then some { w with unOps := update w.unOps cyclep null }
  else (w.operations cyclep).map fun handles => { w with
    slot := fun handle => if handle ∈ handles then .freed else w.slot handle
    unOps := update w.unOps cyclep null }

/-- `eb_cycle_doop` with the fields its callers fill in. -/
def ebCycleDoop (w : World) (cyclep : Nat) (op : Operation) (granted : Bool) : Option World :=
  if granted then
    -- already ran OOM on this cycle
    if w.unOps cyclep = cyclep then some (w.allocate .freed)
    else some { w.allocate .operation with
      operation := update w.operation w.fresh op
      opNext := update w.opNext w.fresh (w.unOps cyclep)
      unOps := update w.unOps cyclep w.fresh
      owner := update w.owner w.fresh cyclep }
  else
    -- record out-of-memory with a self-pointer
    (w.ebCycleDestroy cyclep).map fun w => { w with unOps := update w.unOps cyclep cyclep }

def ebCycleAbort (w : World) (cyclep : Nat) : Option World :=
  let devicep := w.unLink cyclep
  ({ w with unready := update w.unready devicep (w.unready devicep - 1) } : World).ebCycleDestroy cyclep
    |>.map fun w => { w.free cyclep with opened := w.opened.erase cyclep }

def ebRawCycleClose (w : World) (cyclep : Nat) : Option World :=
  let devicep := w.unLink cyclep
  let queued (opNext unOps : Nat → Nat) : World := { w with
    opNext := opNext
    unOps := unOps
    unLink := update w.unLink cyclep (w.ready devicep)
    ready := update w.ready devicep cyclep
    unready := update w.unready devicep (w.unready devicep - 1)
    opened := w.opened.erase cyclep
    closed := cyclep :: w.closed }
  if w.unOps cyclep = cyclep then some (queued w.opNext w.unOps)
  else (flip null (w.fresh + 1) w.opNext (w.unOps cyclep) null).map fun (opNext, first) =>
    queued opNext (update w.unOps cyclep first)

/-- `eb_cycle_close` and `eb_cycle_close_silently`. -/
def ebCycleClose (w : World) (cyclep : Nat) (silently : Bool) : Option World :=
  (w.ebRawCycleClose cyclep).map fun w =>
    if silently = false ∧ w.unOps cyclep ≠ null ∧ w.unOps cyclep ≠ cyclep then
      let first := { w.operation (w.unOps cyclep) with checked := true }
      { w with operation := update w.operation (w.unOps cyclep) first }
    else w

/-- Run a callback: the handle it gets and what is freed behind it. -/
def call (w : World) (cyclep handle : Nat) (responsep : Option Nat) (stack : List Frame) : Option World :=
  if w.slot cyclep = .cycle then
    some { w with calls := cyclep :: w.calls, stack := .callback cyclep handle responsep :: stack }
  else none

def cycleAt (w : World) (cyclep : Nat) : Option (Cycle × List Nat) :=
  if w.unOps cyclep = cyclep then some (⟨cyclep, .dead⟩, [])
  else (w.operations cyclep).map fun handles => (⟨cyclep, .live (handles.map w.operation)⟩, handles)

/-- `eb_device_flush` up to its loop. -/
def ebDeviceFlush (w : World) (devicep : Nat) : Option World :=
  if w.up devicep then
    -- invert the list of cycles
    (flip null (w.fresh + 1) w.unLink (w.ready devicep) null).map fun (unLink, prevp) => { w with
      unLink := unLink
      stack := .flush devicep prevp (Pack.begin (w.port devicep) (w.mtu devicep) w.rba) :: w.stack }
  else some w

/-- A pass of its loop, or its end. `granted` is what the allocator says to a new response. -/
def flushPass (w : World) (granted : Bool) (time devicep nextp : Nat) (pack : Pack) (stack : List Frame) :
    Option World :=
  if nextp = null then some { w with ready := update w.ready devicep null, stack := stack }
  else if w.slot nextp = .cycle then
    let w' : World := { w with unLink := update w.unLink nextp devicep }
    match w'.cycleAt nextp with
    | none => none
    | some (cycle, handles) =>
      let after := flushCycle (w.port devicep) (w.mtu devicep) time (fun _ => granted) { pack with rba := w.rba } cycle
      let flushing : Frame := .flush devicep (w.unLink nextp) after
      match after.effects.getLast? with
      | some (.callback _ rest _) =>
        w'.call nextp ((handles.drop (handles.length - rest.length)).headD null) none (flushing :: stack)
      | some (.respond response) => some { w'.allocate .response with
          rba := after.rba
          claims := w.claims + 1
          queue := w.queue ++ [⟨w.fresh, nextp, response, w.claims⟩]
          stack := flushing :: stack }
      | _ => none
  else none

def ebSocketWriteConfig (w : World) (widths : UInt8) (addr value : Nat) : Option World :=
  match w.queue.findIdx? fun entry => entry.response.address == addr &&& 0xFFFE with
  | none => some w
  | some i =>
    match w.queue[i]? with
    | none => none
    | some entry =>
      let updated := update entry.response widths addr value
      if updated.complete then
        ({ w with queue := w.queue.eraseIdx i } : World).call entry.cycle (w.unOps entry.cycle) (some entry.slot) w.stack
      else some { w with queue := w.queue.set i { entry with response := updated.response } }

def expire (w : World) : Option World :=
  match w.queue with
  | [] => some w
  | entry :: queue =>
    ({ w with queue := queue } : World).call entry.cycle (w.unOps entry.cycle) (some entry.slot) w.stack

/-- `eb_device_close` up to its first callback. -/
def ebDeviceClose (w : World) (devicep : Nat) : World × Status :=
  if w.unready devicep ≠ 0 then (w, .busy)
  else if w.ready devicep ≠ devicep then
    ({ w with
      ready := update w.ready devicep devicep
      queue := w.queue.filter fun entry => !(w.unLink entry.cycle == devicep)
      stack := .kill devicep (w.queue.filter fun entry => w.unLink entry.cycle == devicep) (w.ready devicep) :: w.stack },
      .ok)
  else ({ w with stack := .kill devicep [] null :: w.stack }, .ok)

/-- A pass of the loop over the responses it kills. -/
def killPass (w : World) (devicep : Nat) (bad : List Entry) (firstp : Nat) (stack : List Frame) : Option World :=
  match bad with
  | entry :: bad =>
    w.call entry.cycle (w.unOps entry.cycle) (some entry.slot) (.kill devicep bad firstp :: stack)
  | [] =>
    -- reverse the list so the answers come back 'in order'
    (flip null (w.fresh + 1) w.unLink firstp null).map fun (unLink, prevp) =>
      { w with unLink := unLink, stack := .drain devicep prevp :: stack }

def drainPass (w : World) (devicep nextp : Nat) (stack : List Frame) : Option World :=
  if nextp = null then some { w.free devicep with stack := stack }
  else
    ({ w with unLink := update w.unLink nextp devicep } : World).call nextp (w.unOps nextp) none
      (.drain devicep (w.unLink nextp) :: stack)

/-- Go on with the innermost function, up to its next callback. -/
def resume (w : World) (granted : Bool) (time : Nat) : Option World :=
  match w.stack with
  | [] => none
  | .callback cyclep _ responsep :: stack =>
    (w.ebCycleDestroy cyclep).map fun w =>
      let w := w.free cyclep
      let w := match responsep with
        | none => w
        | some responsep => w.free responsep
      { w with stack := stack }
  | .flush devicep nextp pack :: stack => w.flushPass granted time devicep nextp pack stack
  | .kill devicep bad firstp :: stack => w.killPass devicep bad firstp stack
  | .drain devicep nextp :: stack => w.drainPass devicep nextp stack

end World

inductive Event where
  | openDevice (passive : Bool) (port : Port) (mtu : Nat)
  | openCycle (devicep : Nat) (granted : Bool)
  | doop (cyclep : Nat) (op : Operation) (granted : Bool)
  | close (cyclep : Nat) (silently : Bool)
  | abort (cyclep : Nat)
  | flush (devicep : Nat)
  | reply (widths : UInt8) (addr value : Nat)
  | expire
  | linkDown (devicep : Nat)
  | closeDevice (devicep : Nat)
  | resume (granted : Bool) (time : Nat)

/-- The user only holds handles of open devices and open cycles, and a device is flushed
unless it is closing or a server link. -/
def Holds (w : World) : Event → Prop
  | .openCycle devicep _ => w.slot devicep = .device
  | .doop cyclep _ _ => cyclep ∈ w.opened
  | .close cyclep _ => cyclep ∈ w.opened
  | .abort cyclep => cyclep ∈ w.opened
  | .flush devicep => w.slot devicep = .device ∧ w.ready devicep ≠ devicep
  | .linkDown devicep => w.slot devicep = .device
  | .closeDevice devicep => w.slot devicep = .device
  | _ => True

/-- The library is idle, or in a callback. -/
def UserRuns (w : World) : Prop :=
  match w.stack with
  | [] => True
  | .callback _ _ _ :: _ => True
  | _ => False

def step (w : World) : Event → Option World
  | .openDevice passive port mtu => some (w.ebDeviceOpen passive port mtu)
  | .openCycle devicep granted => some (w.ebCycleOpen devicep granted).1
  | .doop cyclep op granted => w.ebCycleDoop cyclep op granted
  | .close cyclep silently => w.ebCycleClose cyclep silently
  | .abort cyclep => w.ebCycleAbort cyclep
  | .flush devicep => w.ebDeviceFlush devicep
  | .reply widths addr value => w.ebSocketWriteConfig widths addr value
  | .expire => w.expire
  | .linkDown devicep => some { w with up := update w.up devicep false }
  | .closeDevice devicep => some (w.ebDeviceClose devicep).1
  | .resume granted time => w.resume granted time

def Enabled (w : World) (event : Event) : Prop :=
  Holds w event ∧ ((∀ granted time, event ≠ .resume granted time) → UserRuns w)

inductive Reach (condition : World → Event → Prop) : World → Prop
  | start : Reach condition .start
  | event {w w' : World} {event : Event} (before : Reach condition w) (enabled : Enabled w event)
      (met : condition w event) (stepped : step w event = some w') : Reach condition w'

theorem walkOps_slot {w : World} {fuel handle : Nat} {handles : List Nat}
    (walked : w.walkOps fuel handle = some handles) : ∀ other ∈ handles, w.slot other = .operation := by
  induction fuel generalizing handle handles with
  | zero => cases walked
  | succ fuel ih =>
    unfold World.walkOps at walked
    split at walked
    · cases walked
      simp
    · split at walked
      next live =>
        obtain ⟨rest, onward, rfl⟩ := Option.map_eq_some_iff.mp walked
        intro other member
        rcases List.mem_cons.mp member with rfl | later
        · exact live
        · exact ih onward other later
      · cases walked

theorem ebCycleDestroy_cases {w w' : World} {cyclep : Nat} (destroyed : w.ebCycleDestroy cyclep = some w') :
    (w.unOps cyclep = cyclep ∧ w' = { w with unOps := update w.unOps cyclep null }) ∨
      ∃ handles, w.unOps cyclep ≠ cyclep ∧ w.operations cyclep = some handles ∧ w' = { w with
        slot := fun handle => if handle ∈ handles then .freed else w.slot handle
        unOps := update w.unOps cyclep null } := by
  unfold World.ebCycleDestroy at destroyed
  split at destroyed
  next dead => exact Or.inl ⟨dead, (Option.some.inj destroyed).symm⟩
  next live =>
    obtain ⟨handles, walked, same⟩ := Option.map_eq_some_iff.mp destroyed
    exact Or.inr ⟨handles, live, walked, same.symm⟩

theorem call_cases {w w' : World} {cyclep handle : Nat} {responsep : Option Nat} {stack : List Frame}
    (called : w.call cyclep handle responsep stack = some w') : w.slot cyclep = .cycle ∧
      w' = { w with calls := cyclep :: w.calls, stack := .callback cyclep handle responsep :: stack } := by
  unfold World.call at called
  split at called
  next live => exact ⟨live, (Option.some.inj called).symm⟩
  · cases called

end BelProject.Etherbone.Glue
