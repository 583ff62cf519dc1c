import BelProject.Etherbone.HandlerList

/-! What `eb_socket_attach` does to the handler list: it puts the device in front of the others, or
refuses and gives the slots back. -/

namespace BelProject.Etherbone.Handlers
open BelProject.Library LinkedList Operations Sdb
open BelProject.Memory.Array

variable {w : World} {free : List Nat} {pool : Pool Obj} {item : Nat} {before : List Nat}
  {entries : List Entry} {entry : Entry}
  {s : Socket} {addressp callbackp : Nat}

variable (w) in
/-- A range the early checks refuse. -/
def Blocked (device : Nat) : Prop := ¬Supported w device ∨ devFirst w device < 0x4000

instance (device : Nat) : Decidable (Blocked w device) := inferInstanceAs (Decidable (_ ∨ _))

variable (w) in
def Overlap (new old : Nat) : Prop := devFirst w new ≤ devLast w old ∧ devFirst w old ≤ devLast w new

instance (new old : Nat) : Decidable (Overlap w new old) := inferInstanceAs (Decidable (_ ∧ _))

theorem range_disjoint {new old : Nat} (apart : ¬Overlap w new old) : Disjoint (range w new) (range w old) := by
  apply Set.disjoint_left.mpr
  intro address inside inside'
  apply apart
  exact ⟨inside.1.trans inside'.2, inside'.1.trans inside.2⟩

variable (w) in
structure Restored (s s' : Socket) (before : List Nat) : Prop where
  firstHandler : s'.firstHandler = s.firstHandler
  live : s'.pool.live = s.pool.live
  kept : ∀ item ∈ s.pool.live, s'.pool.arena.items item = s.pool.arena.items item
  sound : Sound w.overlay s'.pool before

def putBack (addressp callbackp : Nat) (s : Socket) (pool : Pool Obj) : Socket :=
  { s with pool := freeItem addressp (freeItem callbackp pool) }

def linked (addressp callbackp : Nat) (handler : EbHandler) (s : Socket) (pool : Pool Obj) : Socket :=
  ⟨store addressp (.handlerAddress handler.device callbackp s.firstHandler)
    (store callbackp (.handlerCallback handler.data handler.read handler.write) pool), addressp⟩

inductive Ends (s : Socket) (entries : List Entry) (handler : EbHandler) (addressp callbackp : Nat) (pool : Pool Obj) :
    Socket → Status → Prop
  | blocked (blocked : Blocked w handler.device) :
      Ends s entries handler addressp callbackp pool { s with pool := pool } .address
  | conflict (open' : ¬Blocked w handler.device) (entry : Entry) (member : entry ∈ entries)
      (overlap : Overlap w handler.device entry.handler.device) :
      Ends s entries handler addressp callbackp pool (putBack addressp callbackp s pool) .address
  | attached (open' : ¬Blocked w handler.device)
      (apart : ∀ entry ∈ entries, ¬Overlap w handler.device entry.handler.device) :
      Ends s entries handler addressp callbackp pool (linked addressp callbackp handler s pool) .ok

theorem Single.restored {pool' : Pool Obj} {addressp : Nat} (single : Single (w := w) s.pool pool' addressp before) :
    Restored w s { s with pool := freeItem addressp pool' } before :=
  ⟨rfl, single.live, single.kept, single.sound⟩

theorem Taken.listed {pool' : Pool Obj}
    (taken : Taken (w := w) s.pool pool' addressp callbackp free) (listed : Listed s entries) :
    Listed { s with pool := pool' } entries := by
  have live := listed.slots_live
  apply listed.frame
  · rfl
  · exact fun item member => taken.kept item (live item member)
  · intro item member
    rw [taken.live]
    exact List.mem_cons_of_mem _ (List.mem_cons_of_mem _ (live item member))

theorem attach_cases (listed : Listed s entries)
    (sound : Sound w.overlay s.pool before) (granted : Bool × Bool) (handler : EbHandler) :
    ∃ s' status, ebSocketAttach w granted handler s = some (s', status) ∧
      ((Starved w granted s.pool.arena ∧ status = .oom ∧ Restored w s s' before) ∨
        (¬Starved w granted s.pool.arena ∧ ∃ addressp callbackp pool free,
          Taken (w := w) s.pool pool addressp callbackp free ∧
          (Roomy w s.pool.arena → before = addressp :: callbackp :: free) ∧
          (¬Roomy w s.pool.arena → ∃ new ∈ free, new ∉ before) ∧
          Ends (w := w) s entries handler addressp callbackp pool s' status)) := by
  unfold ebSocketAttach
  rcases newItem_twice sound granted with ⟨starved, none | ⟨addressp, mid, got, none, single⟩⟩ |
    ⟨fed, addressp, callbackp, mid, pool, free, got, got', taken, roomy, cramped⟩
  · rw [none]
    exact ⟨_, _, rfl, Or.inl ⟨starved, rfl, rfl, rfl, fun _ _ => rfl, sound⟩⟩
  · rw [got]
    dsimp only
    rw [if_neg single.addressp_real, none]
    exact ⟨_, _, rfl, Or.inl ⟨starved, rfl, single.restored⟩⟩
  rw [got]
  dsimp only
  rw [if_neg taken.addressp_real, got']
  dsimp only
  rw [if_neg taken.callbackp_real]
  by_cases supported : Supported w handler.device
  swap
  · rw [if_pos supported]
    exact ⟨_, _, rfl, Or.inr ⟨fed, _, _, _, free, taken, roomy, cramped, .blocked (Or.inl supported)⟩⟩
  rw [if_neg (not_not.mpr supported)]
  by_cases low : devFirst w handler.device < 0x4000
  · rw [if_pos low]
    exact ⟨_, _, rfl, Or.inr ⟨fed, _, _, _, free, taken, roomy, cramped, .blocked (Or.inr low)⟩⟩
  have unblocked : ¬Blocked w handler.device := by
    rintro (no | no)
    exacts [no supported, low no]
  rw [if_neg low]
  rcases (taken.listed listed).seek_eq taken.sound (fun device => decide (Overlap w handler.device device)) with
    ⟨stop, none⟩ | ⟨passed, entry, after, split, yes, _, stop⟩
  · have clear : overlaps w pool.arena.items (devFirst w handler.device) (devLast w handler.device) s.firstHandler =
        some false := congrArg (Option.map Option.isSome) stop
    rw [clear]
    refine ⟨_, _, rfl, Or.inr ⟨fed, _, _, _, free, taken, roomy, cramped, .attached unblocked ?_⟩⟩
    exact fun entry member => of_decide_eq_false (none entry member)
  · have met : overlaps w pool.arena.items (devFirst w handler.device) (devLast w handler.device) s.firstHandler =
        some true := congrArg (Option.map Option.isSome) stop
    have member : entry ∈ entries := split ▸ List.mem_append_right _ List.mem_cons_self
    rw [met]
    exact ⟨_, _, rfl, Or.inr ⟨fed, _, _, _, free, taken, roomy, cramped,
      .conflict unblocked entry member (of_decide_eq_true yes)⟩⟩

theorem Taken.putBack_restored (taken : Taken (w := w) s.pool pool addressp callbackp free) :
    Restored w s (putBack addressp callbackp s pool) (addressp :: callbackp :: free) := by
  have callback : callbackp ∈ pool.live := taken.live ▸ List.mem_cons_self
  have released := taken.sound.free callback
  have live : (freeItem callbackp pool).live = addressp :: s.pool.live := by
    change pool.live.erase callbackp = _
    rw [taken.live]
    exact List.erase_cons_head _ _
  have address : addressp ∈ (freeItem callbackp pool).live := live ▸ List.mem_cons_self
  have nodup := taken.sound.nodup
  rw [taken.live] at nodup
  have freshCallback : callbackp ∉ s.pool.live := fun member =>
    (List.nodup_cons.mp nodup).1 (List.mem_cons_of_mem _ member)
  have freshAddress : addressp ∉ s.pool.live := (List.nodup_cons.mp (List.nodup_cons.mp nodup).2).1
  refine ⟨rfl, ?_, kept_free (kept_free taken.kept freshCallback) freshAddress, released.free address⟩
  change (freeItem callbackp pool).live.erase addressp = _
  rw [live]
  exact List.erase_cons_head _ _

variable (w) in
/-- A call that left no trace: the list, every object, and the set of free slots. -/
structure Unchanged (s s' : Socket) : Prop where
  firstHandler : s'.firstHandler = s.firstHandler
  objects : ∀ item ∈ s.pool.live, s'.pool.arena.items item = s.pool.arena.items item
  freeSlots : freeSlots w s'.pool = freeSlots w s.pool

theorem freeSlots_eq {pool pool' : Pool Obj} {free free' : List Nat} (sound : Sound w.overlay pool free)
    (sound' : Sound w.overlay pool' free') :
    Handlers.freeSlots w pool' = Handlers.freeSlots w pool ↔ ∀ item, item ∈ free' ↔ item ∈ free := by
  simp only [Set.ext_iff, mem_freeSlots sound, mem_freeSlots sound']

theorem Restored.unchanged {s s' : Socket} (restored : Restored w s s' before)
    (sound : Sound w.overlay s.pool before) : Unchanged w s s' :=
  ⟨restored.firstHandler, restored.kept, (freeSlots_eq sound restored.sound).mpr fun _ => Iff.rfl⟩

/-- A socket whose list is in order: attach undoes its two allocations when the range overlaps
a device, but not when an earlier check refuses it. -/
theorem attach_unchanged (listed : Listed s entries)
    (sound : Sound w.overlay s.pool before) (granted : Bool × Bool) (handler : EbHandler) :
    ∃ s' status, ebSocketAttach w granted handler s = some (s', status) ∧ (status ≠ .ok →
      (Unchanged w s s' ↔ Starved w granted s.pool.arena ∨ (¬Blocked w handler.device ∧ Roomy w s.pool.arena))) := by
  obtain ⟨s', status, called, ⟨starved, rfl, restored⟩ | ⟨fed, addressp, callbackp, pool, free, taken, roomy, cramped,
    ends⟩⟩ := attach_cases listed sound granted handler
  · exact ⟨s', _, called, fun _ => ⟨fun _ => Or.inl starved, fun _ => restored.unchanged sound⟩⟩
  refine ⟨s', status, called, fun failed => ?_⟩
  have chain := taken.putBack_restored.sound.chain.nodup
  cases ends with
  | attached => exact absurd rfl failed
  | blocked refused =>
    have lost : ¬Unchanged w s { s with pool := pool } := by
      intro unchanged
      have same := (freeSlots_eq sound taken.sound).mp unchanged.freeSlots
      by_cases room : Roomy w s.pool.arena
      · have inside : addressp ∈ free := (same addressp).mpr (roomy room ▸ List.mem_cons_self)
        exact (List.nodup_cons.mp chain).1 (List.mem_cons_of_mem _ inside)
      · obtain ⟨new, member, absent⟩ := cramped room
        exact absent ((same new).mp member)
    constructor
    · exact fun unchanged => absurd unchanged lost
    · rintro (starved | ⟨open', _⟩)
      exacts [absurd starved fed, absurd refused open']
  | conflict open' =>
    constructor
    · intro unchanged
      right
      refine ⟨open', ?_⟩
      by_contra room
      have same := (freeSlots_eq sound taken.putBack_restored.sound).mp unchanged.freeSlots
      obtain ⟨new, member, absent⟩ := cramped room
      exact absent ((same new).mp (List.mem_cons_of_mem _ (List.mem_cons_of_mem _ member)))
    · rintro (starved | ⟨_, room⟩)
      · exact absurd starved fed
      · have restored := taken.putBack_restored
        rw [← roomy room] at restored
        exact restored.unchanged sound

theorem Taken.linked_attached {handler : EbHandler} (taken : Taken (w := w) s.pool pool addressp callbackp free)
    (attached : Attached w s entries) (open' : ¬Blocked w handler.device)
    (apart : ∀ entry ∈ entries, ¬Overlap w handler.device entry.handler.device) :
    Attached w (linked addressp callbackp handler s pool) (⟨addressp, callbackp, handler⟩ :: entries) := by
  have listed := attached.toListed
  have nodup := taken.sound.nodup
  rw [taken.live] at nodup
  have different : callbackp ≠ addressp := fun same => (List.nodup_cons.mp nodup).1 (same ▸ List.mem_cons_self)
  have freshCallback : callbackp ∉ s.pool.live := fun member =>
    (List.nodup_cons.mp nodup).1 (List.mem_cons_of_mem _ member)
  have freshAddress : addressp ∉ s.pool.live := (List.nodup_cons.mp (List.nodup_cons.mp nodup).2).1
  have address : (linked addressp callbackp handler s pool).pool.arena.items addressp =
      .object (.handlerAddress handler.device callbackp s.firstHandler) := Function.update_self _ _ _
  have callback : (linked addressp callbackp handler s pool).pool.arena.items callbackp =
      .object (.handlerCallback handler.data handler.read handler.write) := by
    apply (Function.update_of_ne different _ _).trans
    exact Function.update_self _ _ _
  have kept : ∀ item ∈ s.pool.live,
      (linked addressp callbackp handler s pool).pool.arena.items item = s.pool.arena.items item := by
    intro item member
    have notAddress : item ≠ addressp := fun same => freshAddress (same ▸ member)
    have notCallback : item ≠ callbackp := fun same => freshCallback (same ▸ member)
    rw [← taken.kept item member]
    apply (Function.update_of_ne notAddress _ _).trans
    exact Function.update_of_ne notCallback _ _
  have live : (linked addressp callbackp handler s pool).pool.live = callbackp :: addressp :: s.pool.live := taken.live
  have slots := listed.slots_live
  have old : Listed ⟨(linked addressp callbackp handler s pool).pool, s.firstHandler⟩ entries := by
    apply listed.frame
    · rfl
    · exact fun item member => kept item (slots item member)
    · intro item member
      rw [live]
      exact List.mem_cons_of_mem _ (List.mem_cons_of_mem _ (slots item member))
  have written := (taken.sound.write (taken.live ▸ List.mem_cons_self : callbackp ∈ pool.live)
    (Obj.handlerCallback handler.data handler.read handler.write)).write
    (taken.live ▸ List.mem_cons_of_mem _ List.mem_cons_self : addressp ∈ pool.live)
    (Obj.handlerAddress handler.device callbackp s.firstHandler)
  refine ⟨⟨⟨rfl, taken.addressp_real, ?_⟩, ?_, ?_, ?_, ?_⟩, ⟨?_, ?_⟩, ⟨free, written⟩⟩
  · simp only [address]
    exact old.chain
  · intro entry member
    rcases List.mem_cons.mp member with rfl | member
    · exact ⟨_, address⟩
    · exact old.record entry member
  · intro entry member
    rcases List.mem_cons.mp member with rfl | member
    · exact callback
    · exact old.methods entry member
  · intro entry member
    rcases List.mem_cons.mp member with rfl | member
    · rw [live]
      exact ⟨List.mem_cons_of_mem _ List.mem_cons_self, List.mem_cons_self⟩
    · exact old.live entry member
  · change (addressp :: callbackp :: entries.flatMap Entry.slots).Nodup
    have notAddress : addressp ∉ entries.flatMap Entry.slots := fun member => freshAddress (slots _ member)
    have notCallback : callbackp ∉ entries.flatMap Entry.slots := fun member => freshCallback (slots _ member)
    refine List.nodup_cons.mpr ⟨?_, List.nodup_cons.mpr ⟨notCallback, listed.nodup⟩⟩
    rw [List.mem_cons, not_or]
    exact ⟨different.symm, notAddress⟩
  · exact List.pairwise_cons.mpr ⟨fun entry member => range_disjoint (apart entry member), attached.pairwise⟩
  · intro entry member
    rcases List.mem_cons.mp member with rfl | member
    · apply Set.disjoint_left.mpr
      intro addr inside low
      exact open' (Or.inr (lt_of_le_of_lt inside.1 low))
    · exact attached.reserved entry member

end BelProject.Etherbone.Handlers
