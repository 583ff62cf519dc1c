import BelProject.Memory.Array
import BelProject.Etherbone.Sdb
import Mathlib.Order.Interval.Set.Disjoint
import Mathlib.Order.CompletePartialOrder

/-! Virtual devices of a socket. `eb_socket_attach` takes two slots of the array, checks the
address range against the devices attached before, and pushes the new one in front of their
list; `eb_socket_detach` unlinks the device it is given. A request on the bus goes to the
first device of the list that covers its address. -/

namespace BelProject.Etherbone.Handlers
open BelProject.Library LinkedList Operations Sdb
open BelProject.Memory.Array

/-- `struct eb_handler`. Pointers are numbers, a method that is missing is null. -/
structure EbHandler where
  device : Nat
  data : Nat
  read : Nat
  write : Nat
  deriving DecidableEq

/-- `struct eb_handler_address`, `struct eb_handler_callback`, or another object of the array. -/
inductive Obj where
  | handlerAddress (device callback next : Nat)
  | handlerCallback (data read write : Nat)
  | other (contents : Nat)

def deviceOf : Item Obj → Nat
  | .object (.handlerAddress device _ _) => device
  | _ => 0

def callbackOf : Item Obj → Nat
  | .object (.handlerAddress _ callback _) => callback
  | _ => 0

def nextOf : Item Obj → Nat
  | .object (.handlerAddress _ _ next) => next
  | _ => ebNull

def setNext (next : Nat) : Item Obj → Item Obj
  | .object (.handlerAddress device callback _) => .object (.handlerAddress device callback next)
  | item => item

/-- The array with the slots handed out, and the head of the handler list. -/
structure Socket where
  pool : Pool Obj
  firstHandler : Nat

/-- What surrounds a call: how the link of an object reads, the descriptors the user owns, and
the bytes of `eb_address_t`. -/
structure World where
  overlay : Obj → Nat
  sdb : Nat → SdbDevice
  address : Nat

variable (w : World)

def newItem (granted : Bool) (pool : Pool Obj) : Nat × Pool Obj :=
  let (item, arena) := ebNewMemoryItem w.overlay granted pool.arena
  (item, ⟨arena, if item = ebNull then pool.live else item :: pool.live⟩)

def freeItem (item : Nat) (pool : Pool Obj) : Pool Obj := ⟨ebFreeMemoryItem item pool.arena, pool.live.erase item⟩

def store (item : Nat) (value : Obj) (pool : Pool Obj) : Pool Obj :=
  { pool with arena := { pool.arena with items := Function.update pool.arena.items item (.object value) } }

/-- Both ends of the range of a device, as far as `eb_address_t` holds them. -/
def devFirst (device : Nat) : Nat := (w.sdb device).sdbComponent.addrFirst.toNat % 2 ^ (8 * w.address)

def devLast (device : Nat) : Nat := (w.sdb device).sdbComponent.addrLast.toNat % 2 ^ (8 * w.address)

/-- Is the address range supported by our bus size? -/
def Supported (device : Nat) : Prop :=
  devFirst w device = (w.sdb device).sdbComponent.addrFirst.toNat ∧
    devLast w device = (w.sdb device).sdbComponent.addrLast.toNat

instance (device : Nat) : Decidable (Supported w device) := inferInstanceAs (Decidable (_ ∧ _))

def passes : Nat := 65537

def overlaps (items : Nat → Item Obj) (newFirst newLast first : Nat) : Option Bool :=
  (seek ebNull (fun i => decide (newFirst ≤ devLast w (deviceOf (items i)) ∧ devFirst w (deviceOf (items i)) ≤ newLast))
    (fun i => nextOf (items i)) first passes none).map Option.isSome

/-- `eb_socket_attach`; `granted` is what the system says if an allocation has to grow the array. -/
def ebSocketAttach (granted : Bool × Bool) (handler : EbHandler) (s : Socket) : Option (Socket × Status) :=
  let (addressp, pool) := newItem w granted.1 s.pool
  if addressp = ebNull then some ({ s with pool := pool }, .oom)
  else
    let (callbackp, pool) := newItem w granted.2 pool
    if callbackp = ebNull then some ({ s with pool := freeItem addressp pool }, .oom)
    else if ¬Supported w handler.device then some ({ s with pool := pool }, .address)
    else if devFirst w handler.device < 0x4000 then some ({ s with pool := pool }, .address)
    else
      match overlaps w pool.arena.items (devFirst w handler.device) (devLast w handler.device) s.firstHandler with
      | none => none
      | some true => some ({ s with pool := freeItem addressp (freeItem callbackp pool) }, .address)
      | some false => some (⟨store addressp (.handlerAddress handler.device callbackp s.firstHandler)
          (store callbackp (.handlerCallback handler.data handler.read handler.write) pool), addressp⟩, .ok)

def search (items : Nat → Item Obj) (first device : Nat) : Option (Option (Option Nat × Nat)) :=
  seek ebNull (fun i => decide (deviceOf (items i) = device)) (fun i => nextOf (items i)) first passes none

/-- Store into the link a loop has reached. -/
def storeLink (ptr : Option Nat) (target : Nat) (s : Socket) : Socket :=
  match ptr with
  | none => { s with firstHandler := target }
  | some item => { s with pool := { s.pool with arena := { s.pool.arena with
      items := Function.update s.pool.arena.items item (setNext target (s.pool.arena.items item)) } } }

def ebSocketDetach (device : Nat) (s : Socket) : Option (Socket × Status) :=
  match search s.pool.arena.items s.firstHandler device with
  | none => none
  | some none => some (s, .address)
  | some (some (ptr, i)) =>
    let s := storeLink ptr (nextOf (s.pool.arena.items i)) s
    some ({ s with pool := freeItem i (freeItem (callbackOf (s.pool.arena.items i)) s.pool) }, .ok)

/-- The loop of `eb_socket_read` and `eb_socket_write`: the record that covers an address. -/
def findHandler (items : Nat → Item Obj) (first addrB : Nat) : Option (Option Nat) :=
  (seek ebNull (fun i => decide (devFirst w (deviceOf (items i)) ≤ addrB ∧ addrB ≤ devLast w (deviceOf (items i))))
    (fun i => nextOf (items i)) first passes none).map fun found => found.map Prod.snd

/-! ### Runs -/

/-- Attach, detach, and what the rest of the library does to the array. -/
inductive Event where
  | attach (granted : Bool × Bool) (handler : EbHandler)
  | detach (device : Nat)
  | other (event : Memory.Array.Event Obj)

/-- The rest of the library only releases and writes objects of its own. -/
def Foreign (s : Socket) : Memory.Array.Event Obj → Prop
  | .new _ => True
  | .free item => ∀ object, s.pool.arena.items item = .object object → ∃ contents, object = .other contents
  | .write item value => (∀ object, s.pool.arena.items item = .object object → ∃ contents, object = .other contents) ∧
      ∃ contents, value = .other contents

def step (s : Socket) : Event → Option Socket
  | .attach granted handler => (ebSocketAttach w granted handler s).map Prod.fst
  | .detach device => (ebSocketDetach device s).map Prod.fst
  | .other event => (Memory.Array.step w.overlay s.pool event).map fun pool => { s with pool := pool }

inductive Reach : Socket → Prop
  | start (garbage : Nat → Item Obj) : Reach ⟨⟨Arena.start garbage, []⟩, ebNull⟩
  | event {s s' : Socket} (event : Event) (before : Reach s)
      (foreign : ∀ inner, event = .other inner → Foreign s inner) (stepped : step w s event = some s') : Reach s'

/-! ### Two slots -/

/-- Whether the array grows when it has to. -/
def Grows (granted : Bool) (arena : Arena Obj) : Prop := granted = true ∧ arena.size ≠ 65536

/-- The two slots of a device are not there. -/
def Starved (granted : Bool × Bool) (arena : Arena Obj) : Prop :=
  (arena.free = ebNull ∧ ¬Grows granted.1 arena) ∨
    (arena.free ≠ ebNull ∧ (arena.items arena.free).next w.overlay = ebNull ∧ ¬Grows granted.2 arena)

def Roomy (arena : Arena Obj) : Prop :=
  arena.free ≠ ebNull ∧ (arena.items arena.free).next w.overlay ≠ ebNull

def freeSlots (pool : Pool Obj) : Set Nat :=
  {item | ∃ free, Chain ebNull (fun item => (pool.arena.items item).next w.overlay) pool.arena.free free ∧ item ∈ free}

variable {w}

variable {free : List Nat} {pool : Pool Obj} {item : Nat} {before : List Nat} {entries : List Entry} {entry : Entry}
  {s : Socket} {addressp callbackp : Nat}

theorem mem_freeSlots (sound : Sound w.overlay pool free) (item : Nat) :
    item ∈ freeSlots w pool ↔ item ∈ free := by
  constructor
  · rintro ⟨other, chain, member⟩
    rw [sound.chain.unique chain]
    exact member
  · intro member
    exact ⟨free, sound.chain, member⟩

theorem newItem_take (sound : Sound w.overlay pool (item :: free))
    (granted : Bool) : ∃ arena, newItem w granted pool = (item, ⟨arena, item :: pool.live⟩) ∧
      Sound w.overlay ⟨arena, item :: pool.live⟩ free ∧ arena.items = pool.arena.items ∧ arena.size = pool.arena.size ∧
      item ≠ ebNull ∧ item ∉ pool.live := by
  obtain ⟨same, next⟩ := sound.take
  obtain ⟨first, real, _⟩ := sound.chain
  have fresh := List.disjoint_left.mp sound.apart List.mem_cons_self
  refine ⟨(takeItem w.overlay pool.arena).2, ?_, next, rfl, rfl, real, fresh⟩
  have taken : ebNewMemoryItem w.overlay granted pool.arena = (item, (takeItem w.overlay pool.arena).2) := by
    unfold ebNewMemoryItem
    rw [if_neg (by rw [first]; exact real)]
    exact Prod.ext same rfl
  unfold newItem
  rw [taken]
  simp only [if_neg real]

theorem newItem_denied (sound : Sound w.overlay pool []) {granted : Bool}
    (denied : ¬Grows granted pool.arena) : newItem w granted pool = (ebNull, pool) := by
  have expanded : ebExpandArray granted pool.arena = none := by
    unfold ebExpandArray
    by_cases full : pool.arena.size = 65536
    · rw [if_pos full]
    · rw [if_neg full, if_neg fun yes => denied ⟨yes, full⟩]
  have failed : ebNewMemoryItem w.overlay granted pool.arena = (ebNull, pool.arena) := by
    unfold ebNewMemoryItem
    rw [if_pos (show pool.arena.free = ebNull from sound.chain), expanded]
  unfold newItem
  rw [failed]
  rfl

theorem newItem_grown (sound : Sound w.overlay pool []) {granted : Bool}
    (grows : Grows granted pool.arena) : ∃ item free arena, newItem w granted pool =
    (item, ⟨arena, item :: pool.live⟩) ∧
      Sound w.overlay ⟨arena, item :: pool.live⟩ free ∧
        (∀ other ∈ pool.live, arena.items other = pool.arena.items other) ∧
      item ≠ ebNull ∧ item ∉ pool.live ∧ ∃ new ∈ free, ∃ other ∈ free, new ≠ other ∧ pool.arena.size ≤ new ∧
        pool.arena.size ≤ other := by
  have size : (ebNewMemoryItem w.overlay granted pool.arena).2.size = pool.arena.size + pool.arena.size ∧
      (ebNewMemoryItem w.overlay granted pool.arena).2.present = true := by
    unfold ebNewMemoryItem ebExpandArray
    rw [if_pos (show pool.arena.free = ebNull from sound.chain), if_neg grows.2, if_pos grows.1]
    exact ⟨rfl, rfl⟩
  rcases sound.new granted with ⟨_, _, denied⟩ | ⟨item, free, arena, got, real, _, fresh, _, kept, next⟩
  · exact absurd denied (by rintro (no | full); exacts [Bool.false_ne_true (no ▸ grows.1), grows.2 full])
  rw [got] at size
  have taken : newItem w granted pool = (item, ⟨arena, item :: pool.live⟩) := by
    unfold newItem
    rw [got]
    simp only [if_neg real]
  refine ⟨item, free, arena, taken, next, kept, real, fresh, ?_⟩
  -- three neighbours in the new half: two of them were not taken
  obtain ⟨k, small, power⟩ := sound.sizes
  have half : 128 ≤ pool.arena.size ∧ pool.arena.size ≤ 32768 := by
    have less : k ≤ 8 := by
      by_contra more
      have nine : k = 9 := by omega
      rw [nine] at power
      exact grows.2 power
    have low := Nat.pow_le_pow_right (show 0 < 2 by decide) (Nat.zero_le k)
    have high := Nat.pow_le_pow_right (show 0 < 2 by decide) less
    omega
  have inside : ∀ other ∈ pool.live, other < pool.arena.size := by
    intro other member
    exact ((sound.covers other).mpr (Or.inr member)).2.2.1
  have found : ∀ slot, pool.arena.size ≤ slot → slot ≤ pool.arena.size + 2 → slot ≠ item → slot ∈ free := by
    intro slot low high different
    have managed : Managed arena slot := ⟨size.2, by omega, by rw [size.1]; omega, by unfold ebNull; omega⟩
    rcases (next.covers slot).mp managed with member | member
    · exact member
    · rcases List.mem_cons.mp member with same | old
      · exact absurd same different
      · have := inside slot old
        omega
  by_cases first : item = pool.arena.size
  · exact ⟨_, found (pool.arena.size + 1) (by omega) (by omega) (by omega),
      _, found (pool.arena.size + 2) (by omega) le_rfl (by omega), by omega, by omega, by omega⟩
  by_cases second : item = pool.arena.size + 1
  · exact ⟨_, found pool.arena.size le_rfl (by omega) (by omega),
      _, found (pool.arena.size + 2) (by omega) le_rfl (by omega), by omega, le_rfl, by omega⟩
  · exact ⟨_, found pool.arena.size le_rfl (by omega) (by omega),
      _, found (pool.arena.size + 1) (by omega) (by omega) (by omega), by omega, le_rfl, by omega⟩

theorem head_free (sound : Sound w.overlay pool (item :: free)) :
    pool.arena.free ≠ ebNull ∧ ((pool.arena.items pool.arena.free).next w.overlay = ebNull ↔ free = []) := by
  obtain ⟨first, real, rest⟩ := sound.chain
  rw [first]
  exact ⟨real, rest.head_eq⟩

structure Taken (pool pool' : Pool Obj) (addressp callbackp : Nat) (free : List Nat) : Prop where
  sound : Sound w.overlay pool' free
  live : pool'.live = callbackp :: addressp :: pool.live
  kept : ∀ item ∈ pool.live, pool'.arena.items item = pool.arena.items item
  addressp_real : addressp ≠ ebNull
  callbackp_real : callbackp ≠ ebNull

structure Single (pool pool' : Pool Obj) (addressp : Nat) (before : List Nat) : Prop where
  sound : Sound w.overlay (freeItem addressp pool') before
  live : (freeItem addressp pool').live = pool.live
  kept : ∀ item ∈ pool.live, (freeItem addressp pool').arena.items item = pool.arena.items item
  addressp_real : addressp ≠ ebNull

theorem kept_free {items : Nat → Item Obj} {live : List Nat}
    (kept : ∀ other ∈ live, pool.arena.items other = items other) (fresh : item ∉ live) :
    ∀ other ∈ live, (freeItem item pool).arena.items other = items other := by
  intro other member
  rw [← kept other member]
  apply Function.update_of_ne
  rintro rfl
  exact fresh member

theorem newItem_twice (sound : Sound w.overlay pool before) (granted : Bool × Bool) :
    (Starved w granted pool.arena ∧ (newItem w granted.1 pool = (ebNull, pool) ∨
        ∃ addressp pool', newItem w granted.1 pool = (addressp, pool') ∧ newItem w granted.2 pool' = (ebNull, pool') ∧
          Single (w := w) pool pool' addressp before)) ∨
      (¬Starved w granted pool.arena ∧ ∃ addressp callbackp mid pool' free, newItem w granted.1 pool = (addressp, mid) ∧
        newItem w granted.2 mid = (callbackp, pool') ∧ Taken (w := w) pool pool' addressp callbackp free ∧
          (Roomy w pool.arena → before = addressp :: callbackp :: free) ∧
          (¬Roomy w pool.arena → ∃ new ∈ free, new ∉ before)) := by
  have old : ∀ item ∈ before, item < pool.arena.size := by
    intro item member
    exact ((sound.covers item).mpr (Or.inl member)).2.2.1
  cases before with
  | nil =>
    have empty : pool.arena.free = ebNull := sound.chain
    have cramped : ¬Roomy w pool.arena := fun roomy => roomy.1 empty
    by_cases grows : Grows granted.1 pool.arena
    · right
      obtain ⟨addressp, free, arena, got, next, kept, real, fresh, new, member, other, member', different, _⟩ :=
        newItem_grown sound grows
      obtain ⟨callbackp, free, rfl⟩ := List.exists_cons_of_ne_nil (List.ne_nil_of_mem member)
      obtain ⟨arena', got', next', items', _, real', _⟩ := newItem_take next granted.2
      refine ⟨?_, addressp, callbackp, _, _, free, got, got', ⟨next', rfl, ?_, real, real'⟩,
        fun roomy => absurd roomy cramped, fun _ => ?_⟩
      · rintro (⟨_, denied⟩ | ⟨some, _⟩)
        exacts [denied grows, some empty]
      · intro item member
        exact (congrFun items' item).trans (kept item member)
      -- one of the two new slots is taken next, and the other one is left
      · rcases List.mem_cons.mp member with rfl | left
        · rcases List.mem_cons.mp member' with same | left
          · exact absurd same.symm different
          · exact ⟨other, left, List.not_mem_nil⟩
        · exact ⟨new, left, List.not_mem_nil⟩
    · left
      exact ⟨Or.inl ⟨empty, grows⟩, Or.inl (newItem_denied sound grows)⟩
  | cons addressp before =>
    obtain ⟨arena, got, next, items, size, real, fresh⟩ := newItem_take sound granted.1
    obtain ⟨head, last⟩ := head_free sound
    have second : arena.free = ebNull ↔ before = [] := next.chain.head_eq
    cases before with
    | nil =>
      have cramped : ¬Roomy w pool.arena := fun roomy => roomy.2 (last.mpr rfl)
      by_cases grows : Grows granted.2 arena
      · right
        obtain ⟨callbackp, free, arena', got', next', kept, real', fresh', new, member, _, _, _, beyond, _⟩ :=
          newItem_grown next grows
        refine ⟨?_, addressp, callbackp, _, _, free, got, got', ⟨next', rfl, ?_, real, real'⟩,
          fun roomy => absurd roomy cramped, fun _ => ⟨new, member, ?_⟩⟩
        · rintro (⟨none, _⟩ | ⟨_, _, denied⟩)
          exacts [head none, denied ⟨grows.1, size ▸ grows.2⟩]
        · intro item member
          rw [kept item (List.mem_cons_of_mem _ member), items]
        · intro again
          have small := old new again
          change arena.size ≤ new at beyond
          omega
      · left
        have denied : ¬Grows granted.2 pool.arena := fun more => grows ⟨more.1, size.symm ▸ more.2⟩
        refine ⟨Or.inr ⟨head, last.mpr rfl, denied⟩, Or.inr ⟨addressp, _, got, newItem_denied next grows, ?_⟩⟩
        refine ⟨next.free List.mem_cons_self, List.erase_cons_head _ _, ?_, real⟩
        exact kept_free (fun item _ => congrFun items item) fresh
    | cons callbackp free =>
      right
      obtain ⟨arena', got', next', items', size', real', fresh'⟩ := newItem_take next granted.2
      have roomy : (pool.arena.items pool.arena.free).next w.overlay ≠ ebNull := fun none => by cases last.mp none
      refine ⟨?_, addressp, callbackp, _, _, free, got, got', ⟨next', rfl, ?_, real, real'⟩, fun _ => rfl, ?_⟩
      · rintro (⟨none, _⟩ | ⟨_, none, _⟩)
        exacts [head none, roomy none]
      · intro item _
        exact congrFun (items'.trans items) item
      · exact fun cramped => absurd ⟨head, roomy⟩ cramped

/-! ### The list in memory -/

/-- An attached device: the slot of its record, the slot of its methods, and what the user passed. -/
structure Entry where
  slot : Nat
  callback : Nat
  handler : EbHandler

def Entry.slots (entry : Entry) : List Nat := [entry.slot, entry.callback]

variable (w) in
def range (device : Nat) : Set Nat := Set.Icc (devFirst w device) (devLast w device)

def reserved : Set Nat := Set.Iio 0x4000

structure Listed (s : Socket) (entries : List Entry) : Prop where
  chain : Chain ebNull (fun item => nextOf (s.pool.arena.items item)) s.firstHandler (entries.map Entry.slot)
  record : ∀ entry ∈ entries, ∃ next,
    s.pool.arena.items entry.slot = .object (.handlerAddress entry.handler.device entry.callback next)
  methods : ∀ entry ∈ entries, s.pool.arena.items entry.callback =
    .object (.handlerCallback entry.handler.data entry.handler.read entry.handler.write)
  live : ∀ entry ∈ entries, entry.slot ∈ s.pool.live ∧ entry.callback ∈ s.pool.live
  nodup : (entries.flatMap Entry.slots).Nodup

variable (w) in
/-- No two devices share an address, and none has one of the table. -/
structure Apart (entries : List Entry) : Prop where
  pairwise : entries.Pairwise fun one other => Disjoint (range w one.handler.device) (range w other.handler.device)
  reserved : ∀ entry ∈ entries, Disjoint (range w entry.handler.device) reserved

variable (w) in
structure Attached (s : Socket) (entries : List Entry) : Prop extends Listed s entries, Apart w entries where
  sound : ∃ free, Sound w.overlay s.pool free

theorem mem_slots (member : entry ∈ entries) :
    entry.slot ∈ entries.flatMap Entry.slots ∧ entry.callback ∈ entries.flatMap Entry.slots := by
  constructor
  · exact List.mem_flatMap.mpr ⟨entry, member, List.mem_cons_self⟩
  · exact List.mem_flatMap.mpr ⟨entry, member, List.mem_cons_of_mem _ List.mem_cons_self⟩

theorem Listed.slots_live (listed : Listed s entries) :
    ∀ item ∈ entries.flatMap Entry.slots, item ∈ s.pool.live := by
  intro item member
  obtain ⟨entry, inside, slot⟩ := List.mem_flatMap.mp member
  rcases List.mem_cons.mp slot with rfl | slot
  · exact (listed.live entry inside).1
  · rw [List.mem_singleton.mp slot]
    exact (listed.live entry inside).2

theorem Listed.frame {s s' : Socket} (listed : Listed s entries) (first : s'.firstHandler = s.firstHandler)
    (kept : ∀ item ∈ entries.flatMap Entry.slots, s'.pool.arena.items item = s.pool.arena.items item)
    (live : ∀ item ∈ entries.flatMap Entry.slots, item ∈ s'.pool.live) : Listed s' entries := by
  have slot : ∀ entry ∈ entries, s'.pool.arena.items entry.slot = s.pool.arena.items entry.slot :=
    fun entry member => kept _ (mem_slots member).1
  refine ⟨?_, ?_, ?_, ?_, listed.nodup⟩
  · rw [first]
    apply listed.chain.congr
    intro item member
    obtain ⟨entry, inside, rfl⟩ := List.mem_map.mp member
    rw [slot entry inside]
  · intro entry member
    rw [slot entry member]
    exact listed.record entry member
  · intro entry member
    rw [kept _ (mem_slots member).2]
    exact listed.methods entry member
  · exact fun entry member => ⟨live _ (mem_slots member).1, live _ (mem_slots member).2⟩

theorem Listed.unique {others : List Entry} (listed : Listed s entries) (listed' : Listed s others) :
    entries = others := by
  have slots := listed.chain.unique listed'.chain
  have same : ∀ entry ∈ entries, ∀ other ∈ others, entry.slot = other.slot → entry = other := by
    rintro ⟨slot, callback, device, data, read, write⟩ member ⟨_, _, _, _, _, _⟩ member' rfl
    obtain ⟨_, record⟩ := listed.record _ member
    obtain ⟨_, record'⟩ := listed'.record _ member'
    have methods := listed.methods _ member
    rw [record'] at record
    cases record
    have methods' := listed'.methods _ member'
    dsimp only at methods methods'
    rw [methods'] at methods
    cases methods
    rfl
  apply List.ext_get
  · simpa using congrArg List.length slots
  · intro k inside inside'
    apply same _ (List.get_mem _ _) _ (List.get_mem _ _)
    have at_k := congrArg (·[k]?) slots
    simpa [List.getElem?_map, inside, inside'] using at_k

theorem Listed.length_lt (listed : Listed s entries)
    (sound : Sound w.overlay s.pool free) : (entries.map Entry.slot).length < passes := by
  have chained := listed.chain.nodup
  have inside : entries.map Entry.slot ⊆ s.pool.live := by
    intro item member
    obtain ⟨entry, here, rfl⟩ := List.mem_map.mp member
    exact (listed.live entry here).1
  have fewer := (List.subperm_of_subset chained inside).length_le
  have room := sound.live_lt
  unfold passes
  omega

theorem Listed.deviceOf_eq (listed : Listed s entries)
    (member : entry ∈ entries) : deviceOf (s.pool.arena.items entry.slot) = entry.handler.device := by
  obtain ⟨next, record⟩ := listed.record entry member
  rw [record]
  rfl

theorem Listed.seek_eq (listed : Listed s entries) (sound : Sound w.overlay s.pool free) (chosen : Nat → Bool) :
    (seek ebNull (fun i => chosen (deviceOf (s.pool.arena.items i))) (fun i => nextOf (s.pool.arena.items i))
        s.firstHandler passes none = some none ∧ ∀ entry ∈ entries, chosen entry.handler.device = false) ∨
      ∃ before entry after, entries = before ++ entry :: after ∧ chosen entry.handler.device = true ∧
        (∀ other ∈ before, chosen other.handler.device = false) ∧
        seek ebNull (fun i => chosen (deviceOf (s.pool.arena.items i))) (fun i => nextOf (s.pool.arena.items i))
          s.firstHandler passes none = some (some ((before.map Entry.slot).getLast?, entry.slot)) := by
  have found := seek_spec (fun i => chosen (deviceOf (s.pool.arena.items i))) passes
    (show Chain ebNull _ s.firstHandler ([] ++ entries.map Entry.slot) from listed.chain) (listed.length_lt sound)
  rcases found with ⟨stop, none⟩ | ⟨passed, item, after, split, yes, no, stop⟩
  · left
    refine ⟨stop, ?_⟩
    intro entry member
    rw [← listed.deviceOf_eq member]
    exact none _ (List.mem_map_of_mem member)
  · right
    obtain ⟨before, rest, rfl, rfl, tail⟩ := List.map_eq_append_iff.mp split
    obtain ⟨entry, after, rfl, rfl, rfl⟩ := List.map_eq_cons_iff.mp tail
    have here : entry ∈ before ++ entry :: after := List.mem_append_right _ List.mem_cons_self
    refine ⟨before, entry, after, rfl, ?_, ?_, stop⟩
    · rw [← listed.deviceOf_eq here]
      exact yes
    · intro other member
      rw [← listed.deviceOf_eq (List.mem_append_left _ member)]
      exact no _ (List.mem_map_of_mem member)

end BelProject.Etherbone.Handlers
