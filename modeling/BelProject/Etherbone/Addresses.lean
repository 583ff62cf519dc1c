import BelProject.Etherbone.Accounting
import BelProject.Etherbone.Packets

/-! The addresses replies are written to. `aux->rba` hands them out in turn, two config
addresses a response, and starts again after 16384 responses whether or not the old ones have
been answered. -/

namespace BelProject.Etherbone.Addresses
open BelProject.Library LinkedList Width Operations Format Flush Packets Reply Glue Accounting
open Function (update update_of_ne update_self)

/-- The address of the `n`-th response. -/
def addressOf (n : Nat) : Nat := 0x8000 + 2 * (n % 16384)

theorem nextRba_addressOf (n : Nat) : nextRba (addressOf n) = addressOf (n + 1) := by
  have high : ∀ x, x < 2 ^ 15 → 0x8000 ||| (0x8000 + x) = 0x8000 + x := by
    intro x small
    have apart := Nat.two_pow_add_eq_or_of_lt small 1
    rw [show (0x8000 : Nat) = 2 ^ 15 * 1 by norm_num, apart, ← Nat.or_assoc, Nat.or_self]
  unfold nextRba addressOf
  by_cases last : n % 16384 = 16383
  · rw [last, show (n + 1) % 16384 = 0 by omega]
    rfl
  · rw [show (n + 1) % 16384 = n % 16384 + 1 by omega,
      show 0x8000 + 2 * (n % 16384) + 2 = 0x8000 + 2 * (n % 16384 + 1) by ring, high _ (by omega)]
    omega

theorem addressOf_inj {a b : Nat} : addressOf a = addressOf b ↔ a % 16384 = b % 16384 := by
  unfold addressOf
  omega

/-- The addresses `eb_socket_write_config` takes for a response. -/
def Covers (entry : Entry) (addr : Nat) : Prop := addr &&& 0xFFFE = entry.response.address

theorem addressOf_even (n : Nat) : addressOf n &&& 0xFFFE = addressOf n := by
  have half : addressOf n = (0x4000 + n % 16384) <<< 1 := by
    unfold addressOf
    rw [Nat.shiftLeft_eq]
    omega
  rw [half, show (0xFFFE : Nat) = (2 ^ 15 - 1) <<< 1 from rfl, ← Nat.shiftLeft_and_distrib,
    Nat.and_two_pow_sub_one_eq_mod, Nat.mod_eq_of_lt (by omega)]

/-- The responses in flight in the order of their numbers, each with the address of its number. -/
structure Numbered (w : World) : Prop where
  rba_eq : w.rba = addressOf w.claims
  address_eq : ∀ entry ∈ w.queue, entry.response.address = addressOf entry.claim
  claim_lt : ∀ entry ∈ w.queue, entry.claim < w.claims
  sorted : w.queue.Pairwise fun older newer => older.claim < newer.claim

theorem numbered_start : Numbered .start :=
  ⟨rfl, by simp [World.start], by simp [World.start], List.Pairwise.nil⟩

namespace Numbered
variable {w : World}

section
variable (numbered : Numbered w)
include numbered

variable {w' : World}

theorem sublist (rba : w'.rba = w.rba) (claims : w'.claims = w.claims)
    (fewer : w'.queue.Sublist w.queue) : Numbered w' := by
  constructor
  · rw [rba, claims]
    exact numbered.rba_eq
  · exact fun entry member => numbered.address_eq entry (fewer.mem member)
  · intro entry member
    rw [claims]
    exact numbered.claim_lt entry (fewer.mem member)
  · exact numbered.sorted.sublist fewer

theorem same (rba : w'.rba = w.rba) (claims : w'.claims = w.claims)
    (queue : w'.queue = w.queue) : Numbered w' :=
  numbered.sublist rba claims (queue ▸ List.Sublist.refl _)

theorem destroy {c : Nat} (destroyed : w.ebCycleDestroy c = some w') : Numbered w' := by
  rcases ebCycleDestroy_cases destroyed with ⟨_, rfl⟩ | ⟨handles, _, _, rfl⟩
  · exact numbered.same rfl rfl rfl
  · exact numbered.same rfl rfl rfl

theorem call {w₁ w' : World} {c handle : Nat} {responsep : Option Nat} {stack : List Frame}
    (called : w₁.call c handle responsep stack = some w') (rba : w₁.rba = w.rba) (claims : w₁.claims = w.claims)
    (fewer : w₁.queue.Sublist w.queue) : Numbered w' := by
  obtain ⟨_, rfl⟩ := call_cases called
  exact numbered.sublist rba claims fewer

theorem setEntry {i : Nat} {entry : Entry} (found : w.queue[i]? = some entry) {response : Response}
    (address : response.address = entry.response.address) :
    Numbered { w with queue := w.queue.set i { entry with response := response } } := by
  have member := List.mem_of_getElem? found
  have claims : (w.queue.set i { entry with response := response }).map Entry.claim = w.queue.map Entry.claim := by
    rw [List.map_set]
    apply List.ext_getElem?
    intro j
    rw [List.getElem?_set, List.getElem?_map]
    split
    next here =>
      subst here
      rw [found]
      split <;> simp_all
    · rfl
  constructor
  · exact numbered.rba_eq
  · intro other here
    rcases List.mem_or_eq_of_mem_set here with before | rfl
    · exact numbered.address_eq other before
    · exact address.trans (numbered.address_eq entry member)
  · intro other here
    rcases List.mem_or_eq_of_mem_set here with before | rfl
    · exact numbered.claim_lt other before
    · exact numbered.claim_lt entry member
  · have sorted := numbered.sorted
    rw [← List.pairwise_map (f := Entry.claim)] at sorted ⊢
    rw [claims]
    exact sorted

theorem respond {entry : Entry} (queue : w'.queue = w.queue ++ [entry])
    (claims : w'.claims = w.claims + 1) (rba : w'.rba = nextRba w.rba) (claim : entry.claim = w.claims)
    (address : entry.response.address = w.rba) : Numbered w' := by
  constructor
  · rw [rba, claims, numbered.rba_eq]
    exact nextRba_addressOf w.claims
  · intro other member
    rw [queue] at member
    rcases List.mem_append.mp member with before | new
    · exact numbered.address_eq other before
    · rw [List.mem_singleton.mp new, address, claim]
      exact numbered.rba_eq
  · intro other member
    rw [queue] at member
    rw [claims]
    rcases List.mem_append.mp member with before | new
    · exact Nat.lt_succ_of_lt (numbered.claim_lt other before)
    · rw [List.mem_singleton.mp new, claim]
      exact Nat.lt_succ_self _
  · rw [queue, List.pairwise_append]
    refine ⟨numbered.sorted, List.pairwise_singleton _ _, ?_⟩
    intro older before newer new
    rw [List.mem_singleton.mp new, claim]
    exact numbered.claim_lt older before

end

end Numbered

theorem flushCycle_respond {p : Port} {mtu time : Nat} {alloc : Nat → Bool} {pack : Pack}
    {cycle : Cycle} {response : Response}
    (sent : (flushCycle p mtu time alloc pack cycle).effects.getLast? = some (.respond response)) :
    response.address = pack.rba ∧ (flushCycle p mtu time alloc pack cycle).rba = nextRba pack.rba := by
  unfold flushCycle at sent ⊢
  split at sent
  · rw [Pack.emit, List.getLast?_concat] at sent
    cases sent
  next operations screened =>
    have frame := records_frame p mtu pack.rba (formatCycle p operations) pack
    dsimp only at sent ⊢
    split at sent
    · rw [Pack.emit, List.getLast?_concat] at sent
      cases sent
    next written result =>
      rw [result] at frame
      split at sent
      next reads =>
        rw [if_pos reads]
        rw [Pack.emit, List.getLast?_concat] at sent
        obtain rfl := Effect.respond.inj (Option.some.inj sent)
        exact ⟨frame.2, congrArg nextRba frame.2⟩
      · rw [Pack.emit, List.getLast?_concat] at sent
        cases sent

theorem Numbered.flushPass {w w' : World} (numbered : Numbered w) {granted : Bool}
    {time devicep nextp : Nat} {pack : Pack}
    {stack : List Frame} (stepped : w.flushPass granted time devicep nextp pack stack = some w') : Numbered w' := by
  unfold World.flushPass at stepped
  split at stepped
  · rw [← Option.some.inj stepped]
    exact numbered.same rfl rfl rfl
  · split at stepped
    · dsimp only at stepped
      split at stepped
      · cases stepped
      · split at stepped
        · exact numbered.call stepped rfl rfl (List.Sublist.refl _)
        next response sent =>
          rw [← Option.some.inj stepped]
          obtain ⟨address, rba⟩ := flushCycle_respond sent
          exact numbered.respond rfl rfl rba rfl address
        · cases stepped
    · cases stepped

theorem Numbered.resume {w w' : World} (numbered : Numbered w) {granted : Bool} {time : Nat}
    (stepped : w.resume granted time = some w') : Numbered w' := by
  unfold World.resume at stepped
  split at stepped
  · cases stepped
  next cyclep handle responsep stack _ =>
    obtain ⟨w₁, destroyed, rfl⟩ := Option.map_eq_some_iff.mp stepped
    cases responsep with
    | none => exact (numbered.destroy destroyed).same rfl rfl rfl
    | some responsep => exact (numbered.destroy destroyed).same rfl rfl rfl
  · exact numbered.flushPass stepped
  next devicep entries firstp stack _ =>
    cases entries with
    | cons entry entries => exact numbered.call stepped rfl rfl (List.Sublist.refl _)
    | nil =>
      obtain ⟨⟨unLink, prevp⟩, _, rfl⟩ := Option.map_eq_some_iff.mp stepped
      exact numbered.same rfl rfl rfl
  next devicep nextp stack _ =>
    unfold World.drainPass at stepped
    split at stepped
    · rw [← Option.some.inj stepped]
      exact numbered.same rfl rfl rfl
    · exact numbered.call stepped rfl rfl (List.Sublist.refl _)

theorem Numbered.reply {w w' : World} (numbered : Numbered w) {widths : UInt8} {addr value : Nat}
    (stepped : w.ebSocketWriteConfig widths addr value = some w') : Numbered w' := by
  unfold World.ebSocketWriteConfig at stepped
  split at stepped
  · rw [← Option.some.inj stepped]
    exact numbered
  · split at stepped
    · cases stepped
    next entry found =>
      dsimp only at stepped
      split at stepped
      · exact numbered.call stepped rfl rfl (List.eraseIdx_sublist _ _)
      · rw [← Option.some.inj stepped]
        exact numbered.setEntry found (update_handle entry.response widths addr value).2

theorem Numbered.closeCycle {w w' : World} (numbered : Numbered w) {c : Nat} {silently : Bool}
    (stepped : w.ebCycleClose c silently = some w') : Numbered w' := by
  unfold World.ebCycleClose at stepped
  obtain ⟨w₁, raw, rfl⟩ := Option.map_eq_some_iff.mp stepped
  have closed : Numbered w₁ := by
    unfold World.ebRawCycleClose at raw
    split at raw
    · rw [← Option.some.inj raw]
      exact numbered.same rfl rfl rfl
    · obtain ⟨⟨opNext, first⟩, _, rfl⟩ := Option.map_eq_some_iff.mp raw
      exact numbered.same rfl rfl rfl
  split
  · exact closed.same rfl rfl rfl
  · exact closed

theorem Numbered.step {w w' : World} (numbered : Numbered w) {event : Event} (stepped : Glue.step w event = some w') :
    Numbered w' := by
  cases event with
  | openDevice passive port mtu => exact Option.some.inj stepped ▸ numbered.same rfl rfl rfl
  | openCycle devicep granted =>
    rw [← Option.some.inj stepped]
    unfold World.ebCycleOpen
    split
    · split
      · exact numbered.same rfl rfl rfl
      · exact numbered.same rfl rfl rfl
    · exact numbered
  | doop cyclep op granted =>
    have stepped : w.ebCycleDoop cyclep op granted = some w' := stepped
    unfold World.ebCycleDoop at stepped
    split at stepped
    · split at stepped
      · rw [← Option.some.inj stepped]
        exact numbered.same rfl rfl rfl
      · rw [← Option.some.inj stepped]
        exact numbered.same rfl rfl rfl
    · obtain ⟨w₁, destroyed, rfl⟩ := Option.map_eq_some_iff.mp stepped
      exact (numbered.destroy destroyed).same rfl rfl rfl
  | close cyclep silently => exact numbered.closeCycle stepped
  | abort cyclep =>
    obtain ⟨w₁, destroyed, rfl⟩ := Option.map_eq_some_iff.mp stepped
    have started : Numbered { w with unready := update w.unready (w.unLink cyclep) (w.unready (w.unLink cyclep) - 1) } :=
      numbered.same rfl rfl rfl
    exact (started.destroy destroyed).same rfl rfl rfl
  | flush devicep =>
    have stepped : w.ebDeviceFlush devicep = some w' := stepped
    unfold World.ebDeviceFlush at stepped
    split at stepped
    · obtain ⟨⟨unLink, prevp⟩, _, rfl⟩ := Option.map_eq_some_iff.mp stepped
      exact numbered.same rfl rfl rfl
    · rw [← Option.some.inj stepped]
      exact numbered
  | reply widths addr value => exact numbered.reply stepped
  | expire =>
    have stepped : w.expire = some w' := stepped
    unfold World.expire at stepped
    split at stepped
    · rw [← Option.some.inj stepped]
      exact numbered
    next entry queue queued => exact numbered.call stepped rfl rfl (queued ▸ List.sublist_cons_self entry queue)
  | linkDown devicep => exact Option.some.inj stepped ▸ numbered.same rfl rfl rfl
  | closeDevice devicep =>
    rw [← Option.some.inj stepped]
    unfold World.ebDeviceClose
    split
    · exact numbered
    · split
      · exact numbered.sublist rfl rfl List.filter_sublist
      · exact numbered.same rfl rfl rfl
  | resume granted time => exact numbered.resume stepped

theorem Numbered.reach {condition : World → Event → Prop} {w : World} (run : Reach condition w) : Numbered w := by
  induction run with
  | start => exact numbered_start
  | event _ _ _ stepped ih => exact ih.step stepped

/-- No address belongs to two responses in flight, and a write to an address of a response
reaches that response. -/
def Unique (w : World) : Prop :=
  w.queue.Pairwise (fun a b => ∀ addr, ¬ (Covers a addr ∧ Covers b addr)) ∧
    ∀ (i : Nat) (entry : Entry), w.queue[i]? = some entry → ∀ addr, Covers entry addr →
      (w.queue.findIdx? fun other => other.response.address == addr &&& 0xFFFE) = some i

theorem Numbered.unique {w : World} (numbered : Numbered w) :
    Unique w ↔ w.queue.Pairwise fun older newer => ¬ 16384 ∣ newer.claim - older.claim := by
  have meet : ∀ a ∈ w.queue, ∀ b ∈ w.queue, a.claim < b.claim →
      (16384 ∣ b.claim - a.claim ↔ a.response.address = b.response.address) := by
    intro a first b second before
    rw [numbered.address_eq a first, numbered.address_eq b second, addressOf_inj]
    omega
  constructor
  · intro unique
    apply (unique.1.and numbered.sorted).imp_of_mem
    intro a b first second facts apart
    have same := (meet a first b second facts.2).mp apart
    have own : Covers a a.response.address := by
      unfold Covers
      rw [numbered.address_eq a first]
      exact addressOf_even a.claim
    exact facts.1 a.response.address ⟨own, own.trans same⟩
  · intro apart
    have disjoint : w.queue.Pairwise fun a b => ∀ addr, ¬ (Covers a addr ∧ Covers b addr) := by
      apply (apart.and numbered.sorted).imp_of_mem
      intro a b first second facts addr covers
      exact facts.1 ((meet a first b second facts.2).mpr (covers.1.symm.trans covers.2))
    refine ⟨disjoint, ?_⟩
    intro i entry found addr covers
    obtain ⟨short, rfl⟩ := List.getElem?_eq_some_iff.mp found
    apply List.findIdx?_eq_some_iff_getElem.mpr
    refine ⟨short, by simpa [Covers] using covers.symm, ?_⟩
    intro j earlier
    have other := List.pairwise_iff_getElem.mp disjoint j i (Nat.lt_trans earlier short) short earlier addr
    simp only [beq_iff_eq]
    exact fun same => other ⟨same.symm, covers⟩

/-- In every run, two responses in flight share no address exactly as long as their numbers are
not a multiple of 16384 apart. -/
theorem addresses_unique {w : World} (run : Reach (fun _ _ => True) w) :
    Unique w ↔ w.queue.Pairwise fun older newer => ¬ 16384 ∣ newer.claim - older.claim :=
  (Numbered.reach run).unique

def readOne : Operation := ⟨0, 0, .readVal, false, false, false, 4⟩

/-- A device with `n` unanswered responses. -/
structure Station (w : World) (n : Nat) : Prop where
  run : Reach (fun _ _ => True) w
  device : w.slot 1 = .device
  up : w.up 1 = true
  port : w.port 1 = .wishbone32
  mtu : w.mtu 1 = 0
  claims : w.claims = n
  queue : w.queue.map Entry.claim = List.range n

theorem flip_one {fuel : Nat} {next : Nat → Nat} {item : Nat} (nonnull : item ≠ null) (last : next item = null) :
    flip null (fuel + 2) next item null = some (update next item null, item) := by
  rw [LinkedList.flip, if_neg nonnull, last, LinkedList.flip, if_pos rfl]

theorem walkOps_one {w : World} {fuel handle : Nat} (nonnull : handle ≠ null) (slot : w.slot handle = .operation)
    (last : w.opNext handle = null) : w.walkOps (fuel + 2) handle = some [handle] := by
  rw [World.walkOps, if_neg nonnull, if_pos slot, last, World.walkOps, if_pos rfl]
  rfl

theorem flushCycle_readOne (time c rba rba' : Nat) :
    ∃ response, (flushCycle .wishbone32 0 time (fun _ => true) { Pack.begin .wishbone32 0 rba with rba := rba' }
      ⟨c, .live [readOne]⟩).effects.getLast? = some (.respond response) := ⟨_, rfl⟩

theorem userRuns_idle {w : World} (idle : w.stack = []) : UserRuns w := by
  unfold UserRuns
  rw [idle]
  trivial

structure Reading (w : World) (c op : Nat) : Prop where
  cycle : w.slot c = .cycle
  first : w.unOps c = op
  different : op ≠ c
  operation_ne : op ≠ null
  cycle_ne : c ≠ null
  slot : w.slot op = .operation
  last : w.opNext op = null
  read : w.operation op = readOne
  fresh : 2 ≤ w.fresh

theorem Station.opens {w : World} {n : Nat} (station : Station w n) (idle : w.stack = []) (ready : w.ready 1 = null) :
    ∃ w' c op, Station w' n ∧ Reading w' c op ∧ w'.stack = [] ∧ w'.ready 1 = null ∧ c ∈ w'.opened ∧
      w'.unLink c = 1 := by
  have used : 1 < w.fresh := (Counted.reach station.run).lt_fresh (by rw [station.device]; decide)
  have one : (1 : Nat) ≠ w.fresh := Nat.ne_of_lt used
  have two : (1 : Nat) ≠ w.fresh + 1 := Nat.ne_of_lt (Nat.lt_succ_of_lt used)
  have next : w.fresh ≠ w.fresh + 1 := Nat.ne_of_lt (Nat.lt_succ_self _)
  have nonnull : w.fresh ≠ null := Nat.ne_of_gt (Nat.lt_trans Nat.one_pos used)
  -- the cycle is `w.fresh`, its operation the handle behind it
  have opened : step w (.openCycle 1 true) = some { w.allocate .cycle with
      unOps := update w.unOps w.fresh null
      unLink := update w.unLink w.fresh 1
      unready := update w.unready 1 (w.unready 1 + 1)
      opened := w.fresh :: w.opened
      home := update w.home w.fresh 1 } := by
    show some (w.ebCycleOpen 1 true).1 = _
    unfold World.ebCycleOpen
    rw [if_pos rfl, if_neg (by rw [ready]; decide)]
  have first := Reach.event station.run ⟨show Glue.Holds w (.openCycle 1 true) from station.device,
    fun _ => userRuns_idle idle⟩ trivial opened
  have empty : update w.unOps w.fresh null w.fresh = null := update_self _ _ _
  have added := @Reach.event (fun _ _ => True) _ _ (.doop w.fresh readOne true) first
    ⟨List.mem_cons_self, fun _ => userRuns_idle idle⟩ trivial
    (if_neg (show update w.unOps w.fresh null w.fresh ≠ w.fresh by rw [empty]; exact nonnull.symm))
  have device : update (update w.slot w.fresh .cycle) (w.fresh + 1) .operation 1 = .device := by
    rw [update_of_ne two, update_of_ne one]
    exact station.device
  have cycle : update (update w.slot w.fresh .cycle) (w.fresh + 1) .operation w.fresh = .cycle := by
    rw [update_of_ne next, update_self]
  refine ⟨_, w.fresh, w.fresh + 1, ⟨added, device, station.up, station.port, station.mtu,
    station.claims, station.queue⟩,
    ⟨cycle, update_self _ _ _, next.symm, Nat.succ_ne_zero _, nonnull, update_self _ _ _,
      (update_self _ _ _).trans empty, update_self _ _ _, ?_⟩, idle, ready, List.mem_cons_self,
    update_self _ _ _⟩
  show 2 ≤ w.fresh + 1 + 1
  omega

theorem Station.closes {w : World} {n c op : Nat} (station : Station w n) (reading : Reading w c op)
    (idle : w.stack = [])
    (ready : w.ready 1 = null) (opened : c ∈ w.opened) (home : w.unLink c = 1) :
    ∃ w', Station w' n ∧ Reading w' c op ∧ w'.stack = [] ∧ w'.ready 1 = c ∧ w'.unLink c = null := by
  obtain ⟨fuel, enough⟩ := Nat.exists_eq_add_of_le reading.fresh
  have closed : step w (.close c true) = some { w with
      opNext := update w.opNext op null
      unOps := update w.unOps c op
      unLink := update w.unLink c null
      ready := update w.ready 1 c
      unready := update w.unready 1 (w.unready 1 - 1)
      opened := w.opened.erase c
      closed := c :: w.closed } := by
    show w.ebCycleClose c true = _
    unfold World.ebCycleClose World.ebRawCycleClose
    rw [home, reading.first, if_neg reading.different, ready, show w.fresh + 1 = (fuel + 1) + 2 by omega,
      flip_one reading.operation_ne reading.last]
    rfl
  have run := Reach.event station.run ⟨show Glue.Holds w (.close c true) from opened, fun _ =>
    userRuns_idle idle⟩ trivial closed
  exact ⟨_, ⟨run, station.device, station.up, station.port, station.mtu, station.claims, station.queue⟩,
    ⟨reading.cycle, update_self _ _ _, reading.different, reading.operation_ne, reading.cycle_ne, reading.slot,
      update_self _ _ _, reading.read, reading.fresh⟩, idle, update_self 1 c w.ready, update_self _ _ _⟩

theorem Station.flushes {w : World} {n c op : Nat} (station : Station w n) (reading : Reading w c op)
    (idle : w.stack = [])
    (ready : w.ready 1 = c) (alone : w.unLink c = null) :
    ∃ w', Station w' n ∧ Reading w' c op ∧ w'.stack = [.flush 1 c (Pack.begin .wishbone32 0 w'.rba)] ∧
      w'.unLink c = null := by
  obtain ⟨fuel, enough⟩ := Nat.exists_eq_add_of_le reading.fresh
  have other : c ≠ 1 := by
    rintro rfl
    have cycle := reading.cycle
    rw [station.device] at cycle
    cases cycle
  have flushed : step w (.flush 1) = some { w with
      unLink := update w.unLink c null
      stack := [.flush 1 c (Pack.begin .wishbone32 0 w.rba)] } := by
    show w.ebDeviceFlush 1 = _
    unfold World.ebDeviceFlush
    rw [if_pos station.up, ready, show w.fresh + 1 =
      (fuel + 1) + 2 by omega, flip_one reading.cycle_ne alone, station.port,
      station.mtu, idle]
    rfl
  have run := Reach.event station.run ⟨show Glue.Holds w (.flush 1) from ⟨station.device, by rw [ready]; exact other⟩,
    fun _ => userRuns_idle idle⟩ trivial flushed
  exact ⟨_, ⟨run, station.device, station.up, station.port, station.mtu, station.claims, station.queue⟩,
    ⟨reading.cycle, reading.first, reading.different, reading.operation_ne, reading.cycle_ne,
      reading.slot, reading.last,
      reading.read, reading.fresh⟩, rfl, update_self _ _ _⟩

theorem Station.sends {w : World} {n c op : Nat} (station : Station w n) (reading : Reading w c op)
    (stack : w.stack = [.flush 1 c (Pack.begin .wishbone32 0 w.rba)]) (alone : w.unLink c = null) :
    ∃ w' pack, Station w' (n + 1) ∧ w'.stack = [.flush 1 null pack] := by
  obtain ⟨fuel, enough⟩ := Nat.exists_eq_add_of_le reading.fresh
  obtain ⟨response, sent⟩ := flushCycle_readOne 0 c w.rba w.rba
  have used : 1 < w.fresh := (Counted.reach station.run).lt_fresh (by rw [station.device]; decide)
  have walked : ({ w with unLink := update w.unLink c 1 } : World).operations c = some [op] := by
    show World.walkOps _ (w.fresh + 1) (w.unOps c) = _
    rw [reading.first, show w.fresh + 1 = (fuel + 1) + 2 by omega]
    exact walkOps_one reading.operation_ne reading.slot reading.last
  have seen : ({ w with unLink := update w.unLink c 1 } : World).cycleAt c = some (⟨c, .live [readOne]⟩, [op]) := by
    unfold World.cycleAt
    rw [if_neg (show w.unOps c ≠ c by rw [reading.first]; exact reading.different), walked]
    show some (Cycle.mk c (.live [w.operation op]), [op]) = _
    rw [reading.read]
  have resumed : ∃ w', step w (.resume true 0) = some w' ∧ w'.slot = update w.slot w.fresh .response ∧
      w'.up = w.up ∧ w'.port = w.port ∧ w'.mtu = w.mtu ∧ w'.claims = w.claims + 1 ∧
      w'.queue = w.queue ++ [⟨w.fresh, c, response, w.claims⟩] ∧ ∃ pack, w'.stack = [.flush 1 (w.unLink c) pack] := by
    show ∃ w', w.resume true 0 = some w' ∧ _
    unfold World.resume
    rw [stack]
    dsimp only
    unfold World.flushPass
    rw [if_neg reading.cycle_ne, if_pos reading.cycle]
    dsimp only
    rw [seen, station.port, station.mtu]
    dsimp only
    rw [sent]
    exact ⟨_, rfl, rfl, rfl, station.port.symm ▸ rfl, rfl, rfl, rfl, _, rfl⟩
  obtain ⟨w', stepped, slot, up, port, mtu, claims, queue, pack, stacked⟩ := resumed
  have run := Reach.event station.run ⟨show Glue.Holds w (.resume true 0) from trivial, fun no =>
    absurd rfl (no true 0)⟩
    trivial stepped
  refine ⟨w', pack, ⟨run, ?_, ?_, ?_, ?_, ?_, ?_⟩, ?_⟩
  · rw [slot, update_of_ne (Nat.ne_of_lt used)]
    exact station.device
  · rw [up]
    exact station.up
  · rw [port]
    exact station.port
  · rw [mtu]
    exact station.mtu
  · rw [claims, station.claims]
  · rw [queue, List.map_append, station.queue, List.range_succ, List.map_cons, List.map_nil, station.claims]
  · rw [stacked, alone]

theorem Station.next {w : World} {n : Nat} (station : Station w n) (idle : w.stack = []) (ready : w.ready 1 = null) :
    ∃ w', Station w' (n + 1) ∧ w'.stack = [] ∧ w'.ready 1 = null := by
  obtain ⟨w₁, c, op, station, reading, idle, ready, opened, home⟩ := station.opens idle ready
  obtain ⟨w₂, station, reading, idle, ready, alone⟩ := station.closes reading idle ready opened home
  obtain ⟨w₃, station, reading, stack, alone⟩ := station.flushes reading idle ready alone
  obtain ⟨w₄, pack, station, stack⟩ := station.sends reading stack alone
  have ended : step w₄ (.resume true 0) = some { w₄ with ready := update w₄.ready 1 null, stack := [] } := by
    show w₄.resume true 0 = _
    unfold World.resume
    rw [stack]
    rfl
  have run := Reach.event station.run ⟨show Glue.Holds w₄ (.resume true 0) from trivial, fun no =>
    absurd rfl (no true 0)⟩
    trivial ended
  exact ⟨_, ⟨run, station.device, station.up, station.port, station.mtu, station.claims, station.queue⟩, rfl,
    update_self 1 null w₄.ready⟩

theorem station_reach (n : Nat) : ∃ w, Station w n ∧ w.stack = [] ∧ w.ready 1 = null := by
  induction n with
  | zero =>
    have run := @Reach.event (fun _ _ => True) .start _ (.openDevice false .wishbone32 0) .start
      ⟨trivial, fun _ => trivial⟩ trivial rfl
    exact ⟨_, ⟨run, rfl, rfl, rfl, rfl, rfl, rfl⟩, rfl, rfl⟩
  | succ n ih =>
    obtain ⟨w, station, idle, ready⟩ := ih
    exact station.next idle ready

/-- Two responses in flight have different addresses. -/
theorem addresses_unique_two : ∃ w, w.queue.length = 2 ∧ Unique w := by
  obtain ⟨w, station, _⟩ := station_reach 2
  have length : w.queue.length = 2 := by
    have same := congrArg List.length station.queue
    rwa [List.length_map] at same
  refine ⟨w, length, (addresses_unique station.run).mpr ?_⟩
  have apart : (w.queue.map Entry.claim).Pairwise fun a b => ¬ 16384 ∣ b - a := by
    rw [station.queue]
    decide
  exact List.pairwise_map.mp apart

/-- With 16385 of them the first address is in use twice. -/
theorem addresses_wrap : ∃ w, Reach (fun _ _ => True) w ∧ w.queue.length = 16385 ∧ ¬ Unique w := by
  obtain ⟨w, station, _⟩ := station_reach 16385
  have length : w.queue.length = 16385 := by
    have same := congrArg List.length station.queue
    rwa [List.length_map, List.length_range] at same
  refine ⟨w, station.run, length, ?_⟩
  intro unique
  have apart : (w.queue.map Entry.claim).Pairwise fun a b => ¬ 16384 ∣ b - a :=
    List.pairwise_map.mpr ((Numbered.reach station.run).unique.mp unique)
  rw [station.queue] at apart
  have first := List.pairwise_iff_getElem.mp apart 0 16384 (by rw [List.length_range]; omega)
    (by rw [List.length_range]; omega) (by omega)
  rw [List.getElem_range, List.getElem_range] at first
  exact first (by decide)

end BelProject.Etherbone.Addresses
