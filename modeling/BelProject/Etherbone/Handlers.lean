import BelProject.Etherbone.Attach

/-! What `eb_socket_detach` does to the handler list, and what holds of it in every run. -/

namespace BelProject.Etherbone.Handlers
open BelProject.Library LinkedList Operations Sdb
open BelProject.Memory.Array

variable {w : World} {free : List Nat} {pool : Pool Obj} {item : Nat} {before : List Nat}
  {entries : List Entry} {entry : Entry}
  {s : Socket} {addressp callbackp : Nat}

/-- Behind the link that was changed the list goes on without the device. -/
theorem storeLink_spec {before after : List Entry}
    (listed : Listed s (before ++ entry :: after)) (sound : Sound w.overlay s.pool free) :
    let s' := storeLink (before.map Entry.slot).getLast? (nextOf (s.pool.arena.items entry.slot)) s
    Chain ebNull (fun item => nextOf (s'.pool.arena.items item)) s'.firstHandler ((before ++ after).map Entry.slot) ∧
      Sound w.overlay s'.pool free ∧ s'.pool.live = s.pool.live ∧
      (∀ other ∈ before ++ entry :: after, ∃ next, s'.pool.arena.items other.slot =
        .object (.handlerAddress other.handler.device other.callback next)) ∧
      ∀ other ∈ before ++ entry :: after, s'.pool.arena.items other.callback = s.pool.arena.items other.callback := by
  intro s'
  have chain := listed.chain
  rw [List.map_append, List.map_cons] at chain
  have rest : Chain ebNull (fun item => nextOf (s.pool.arena.items item)) (nextOf (s.pool.arena.items entry.slot))
      (after.map Entry.slot) := (Chain.suffix chain).2.2
  have nodup := chain.nodup
  have apart : (before.map Entry.slot).Disjoint (after.map Entry.slot) := by
    intro item member behind
    exact List.disjoint_of_nodup_append nodup member (List.mem_cons_of_mem _ behind)
  have relinked := relink_spec chain rest apart
  rw [← List.map_append] at relinked
  rcases List.eq_nil_or_concat before with rfl | ⟨init, last, rfl⟩
  · exact ⟨relinked, sound, rfl, listed.record, fun _ _ => rfl⟩
  have here : last ∈ init.concat last ++ entry :: after := by simp
  have ptr : ((init.concat last).map Entry.slot).getLast? = some last.slot := by simp
  obtain ⟨next, record⟩ := listed.record last here
  have items : s'.pool.arena.items = Function.update s.pool.arena.items last.slot
      (.object (.handlerAddress last.handler.device last.callback (nextOf (s.pool.arena.items entry.slot)))) := by
    simp only [s', ptr, storeLink, record, setNext]
  have live : s'.pool.live = s.pool.live := by simp only [s', ptr, storeLink]
  have first : s'.firstHandler = s.firstHandler := by simp only [s', ptr, storeLink]
  rw [ptr] at relinked
  simp only [relink] at relinked
  refine ⟨?_, ?_, live, ?_, ?_⟩
  · rw [first]
    apply relinked.congr
    intro item _
    rw [items]
    by_cases same : item = last.slot
    · rw [same, Function.update_self, Function.update_self]
      rfl
    · rw [Function.update_of_ne same, Function.update_of_ne same]
  · have written := sound.write (listed.live last here).1
      (Obj.handlerAddress last.handler.device last.callback (nextOf (s.pool.arena.items entry.slot)))
    have same : s'.pool = store last.slot (Obj.handlerAddress last.handler.device last.callback
        (nextOf (s.pool.arena.items entry.slot))) s.pool := by
      simp only [s', ptr, storeLink, record, setNext, store]
    rw [same]
    exact written
  · intro other member
    rw [items]
    by_cases same : other.slot = last.slot
    · obtain ⟨next', record'⟩ := listed.record other member
      rw [same, record] at record'
      simp only [Item.object.injEq, Obj.handlerAddress.injEq] at record'
      obtain ⟨device, callback, _⟩ := record'
      rw [same, Function.update_self, device, callback]
      exact ⟨_, rfl⟩
    · rw [Function.update_of_ne same]
      exact listed.record other member
  · intro other member
    rw [items]
    apply Function.update_of_ne
    intro same
    have methods := listed.methods other member
    rw [same, record] at methods
    cases methods

theorem Listed.slot_ne {before after : List Entry}
    (listed : Listed s (before ++ entry :: after)) (freed : item ∈ entry.slots) :
    item ∉ (before ++ after).flatMap Entry.slots := by
  have nodup := listed.nodup
  rw [List.flatMap_append, List.flatMap_cons] at nodup
  intro member
  rw [List.flatMap_append] at member
  rcases List.mem_append.mp member with front | behind
  · exact List.disjoint_of_nodup_append nodup front (List.mem_append_left _ freed)
  · have tail := (List.nodup_append.mp nodup).2.1
    exact List.disjoint_of_nodup_append tail freed behind

/-- Detach removes the device it is given, or refuses and changes nothing. -/
theorem detach_cases (attached : Attached w s entries) (device : Nat) :
    (ebSocketDetach device s = some (s, .address) ∧ ∀ entry ∈ entries, entry.handler.device ≠ device) ∨
      ∃ before entry after s', entries = before ++ entry :: after ∧ entry.handler.device = device ∧
        (∀ other ∈ before, other.handler.device ≠ device) ∧ ebSocketDetach device s = some (s', .ok) ∧
        Attached w s' (before ++ after) := by
  obtain ⟨free, sound⟩ := attached.sound
  unfold ebSocketDetach
  rcases attached.seek_eq sound (fun other => decide (other = device)) with
    ⟨stop, absent⟩ | ⟨before, entry, after, rfl, yes, no, stop⟩
  · left
    have missed : search s.pool.arena.items s.firstHandler device = some none := stop
    rw [missed]
    exact ⟨rfl, fun entry member => of_decide_eq_false (absent entry member)⟩
  right
  have found : search s.pool.arena.items s.firstHandler device =
      some (some ((before.map Entry.slot).getLast?, entry.slot)) := stop
  have here : entry ∈ before ++ entry :: after := List.mem_append_right _ List.mem_cons_self
  have remain : ∀ other ∈ before ++ after, other ∈ before ++ entry :: after := by
    intro other member
    rcases List.mem_append.mp member with front | behind
    · exact List.mem_append_left _ front
    · exact List.mem_append_right _ (List.mem_cons_of_mem _ behind)
  obtain ⟨chain, linkedSound, live, records, methods⟩ := storeLink_spec attached.toListed sound
  rw [found]
  dsimp only
  generalize storeLink (before.map Entry.slot).getLast? (nextOf (s.pool.arena.items entry.slot)) s = s' at *
  have callback : callbackOf (s'.pool.arena.items entry.slot) = entry.callback := by
    obtain ⟨next, record⟩ := records entry here
    rw [record]
    rfl
  rw [callback]
  have slots := attached.nodup
  have own : entry.slot ≠ entry.callback := by
    rw [List.flatMap_append, List.flatMap_cons] at slots
    have pair := (List.nodup_append.mp (List.nodup_append.mp slots).2.1).1
    intro same
    exact (List.nodup_cons.mp pair).1 (same ▸ List.mem_cons_self)
  have callbackLive : entry.callback ∈ s'.pool.live := live ▸ (attached.live entry here).2
  have released := linkedSound.free callbackLive
  have slotLive : entry.slot ∈ (freeItem entry.callback s'.pool).live := by
    apply (List.mem_erase_of_ne own).mpr
    exact live ▸ (attached.live entry here).1
  have untouched : ∀ item ∈ (before ++ after).flatMap Entry.slots,
      (freeItem entry.slot (freeItem entry.callback s'.pool)).arena.items item = s'.pool.arena.items item := by
    intro item member
    have notSlot : item ≠ entry.slot := fun same =>
      attached.slot_ne (show item ∈ entry.slots from same ▸ List.mem_cons_self) member
    have notCallback : item ≠ entry.callback := fun same =>
      attached.slot_ne (show item ∈ entry.slots from same ▸ List.mem_cons_of_mem _ List.mem_cons_self) member
    apply (Function.update_of_ne notSlot _ _).trans
    exact Function.update_of_ne notCallback _ _
  have stays : ∀ item ∈ (before ++ after).flatMap Entry.slots,
      item ∈ (freeItem entry.slot (freeItem entry.callback s'.pool)).live := by
    intro item member
    have notSlot : item ≠ entry.slot := fun same =>
      attached.slot_ne (show item ∈ entry.slots from same ▸ List.mem_cons_self) member
    have notCallback : item ≠ entry.callback := fun same =>
      attached.slot_ne (show item ∈ entry.slots from same ▸ List.mem_cons_of_mem _ List.mem_cons_self) member
    apply (List.mem_erase_of_ne notSlot).mpr
    apply (List.mem_erase_of_ne notCallback).mpr
    obtain ⟨other, inside, slot⟩ := List.mem_flatMap.mp member
    rw [live]
    exact attached.slots_live item (List.mem_flatMap.mpr ⟨other, remain other inside, slot⟩)
  have kept : Listed s' (before ++ after) := by
    refine ⟨chain, fun other member => records other (remain other member), ?_, ?_, ?_⟩
    · intro other member
      rw [methods other (remain other member)]
      exact attached.methods other (remain other member)
    · intro other member
      rw [live]
      exact attached.live other (remain other member)
    · refine List.Nodup.sublist ?_ slots
      rw [List.flatMap_append, List.flatMap_append, List.flatMap_cons]
      exact (List.Sublist.refl _).append (List.sublist_append_right _ _)
  refine ⟨before, entry, after, _, rfl, of_decide_eq_true yes, fun other member => of_decide_eq_false (no other member),
    rfl, ⟨?_, ⟨?_, fun other member => attached.reserved other (remain other member)⟩, _, released.free slotLive⟩⟩
  · apply kept.frame
    · rfl
    · exact untouched
    · exact stays
  · refine List.Pairwise.sublist ?_ attached.pairwise
    exact (List.Sublist.refl _).append (List.sublist_cons_self _ _)

/-! ### All runs -/

theorem Restored.attached {s s' : Socket} (restored : Restored w s s' before)
    (attached : Attached w s entries) : Attached w s' entries := by
  have slots := attached.slots_live
  refine ⟨?_, attached.toApart, before, restored.sound⟩
  apply attached.frame
  · exact restored.firstHandler
  · exact fun item member => restored.kept item (slots item member)
  · intro item member
    rw [restored.live]
    exact slots item member

theorem Ends.list {s s' : Socket} {handler : EbHandler}
    {status : Status} (taken : Taken (w := w) s.pool pool addressp callbackp free)
    (ends : Ends (w := w) s entries handler addressp callbackp pool s' status) (before : Attached w s entries) :
    Attached w s' (if status = .ok then ⟨addressp, callbackp, handler⟩ :: entries else entries) := by
  cases ends with
  | blocked _ => exact ⟨taken.listed before.toListed, before.toApart, free, taken.sound⟩
  | conflict _ _ _ _ => exact taken.putBack_restored.attached before
  | attached open' apart => exact taken.linked_attached before open' apart

/-- An attach that returns `EB_OK` puts the device in front of the others. Any other leaves the
list as it was. -/
theorem attach_front (attached : Attached w s entries) (granted : Bool × Bool) (handler : EbHandler) :
    ∃ s' status addressp callbackp, ebSocketAttach w granted handler s = some (s', status) ∧
      Attached w s' (if status = .ok then ⟨addressp, callbackp, handler⟩ :: entries else entries) := by
  obtain ⟨free, sound⟩ := attached.sound
  obtain ⟨s', status, called, ⟨_, rfl, restored⟩ | ⟨_, addressp, callbackp, pool, rest, taken, _, _, ends⟩⟩ :=
    attach_cases attached.toListed sound granted handler
  · exact ⟨s', _, 0, 0, called, restored.attached attached⟩
  · exact ⟨s', status, addressp, callbackp, called, ends.list taken attached⟩

theorem Listed.not_foreign (listed : Listed s entries)
    (foreign : ∀ object, s.pool.arena.items item = .object object → ∃ contents, object = .other contents) :
    item ∉ entries.flatMap Entry.slots := by
  intro member
  obtain ⟨entry, inside, slot⟩ := List.mem_flatMap.mp member
  rcases List.mem_cons.mp slot with rfl | slot
  · obtain ⟨next, record⟩ := listed.record entry inside
    obtain ⟨contents, same⟩ := foreign _ record
    cases same
  · rw [List.mem_singleton.mp slot] at foreign
    obtain ⟨contents, same⟩ := foreign _ (listed.methods entry inside)
    cases same

theorem Attached.other (attached : Attached w s entries) {event : Memory.Array.Event Obj} (foreign : Foreign s event)
    (stepped : Memory.Array.step w.overlay s.pool event = some pool) : Attached w { s with pool := pool } entries := by
  obtain ⟨free, sound⟩ := attached.sound
  have slots := attached.slots_live
  refine ⟨?_, attached.toApart, sound.step stepped⟩
  cases event with
  | new granted =>
    rcases sound.new granted with ⟨failed, _, _⟩ | ⟨item, rest, arena, got, real, _, _, _, kept, _⟩
    · simp only [Memory.Array.step, failed, if_true] at stepped
      cases stepped
      exact attached.toListed
    · simp only [Memory.Array.step, got, if_neg real] at stepped
      cases stepped
      apply attached.frame
      · rfl
      · exact fun item member => kept item (slots item member)
      · exact fun item member => List.mem_cons_of_mem _ (slots item member)
  | free item =>
    have different : ∀ slot ∈ entries.flatMap Entry.slots, slot ≠ item := by
      rintro slot member rfl
      exact attached.not_foreign foreign member
    simp only [Memory.Array.step] at stepped
    split at stepped
    · cases stepped
      apply attached.frame
      · rfl
      · exact fun slot member => Function.update_of_ne (different slot member) _ _
      · exact fun slot member => (List.mem_erase_of_ne (different slot member)).mpr (slots slot member)
    · cases stepped
  | write item value =>
    have different : ∀ slot ∈ entries.flatMap Entry.slots, slot ≠ item := by
      rintro slot member rfl
      exact attached.not_foreign foreign.1 member
    simp only [Memory.Array.step] at stepped
    split at stepped
    · cases stepped
      apply attached.frame
      · rfl
      · exact fun slot member => Function.update_of_ne (different slot member) _ _
      · exact slots
    · cases stepped

theorem Attached.step {s s' : Socket} (attached : Attached w s entries) {event : Event}
    (foreign : ∀ inner, event = .other inner → Foreign s inner) (stepped : Handlers.step w s event = some s') :
    ∃ entries', Attached w s' entries' := by
  cases event with
  | attach granted handler =>
    obtain ⟨last, status, addressp, callbackp, called, after⟩ := attach_front attached granted handler
    simp only [Handlers.step, called] at stepped
    cases stepped
    exact ⟨_, after⟩
  | detach device =>
    rcases detach_cases attached device with ⟨called, _⟩ | ⟨before, entry, after, last, _, _, _, called, left⟩
    all_goals
      simp only [Handlers.step, called] at stepped
      cases stepped
    · exact ⟨entries, attached⟩
    · exact ⟨_, left⟩
  | other inner =>
    obtain ⟨pool, moved, rfl⟩ := Option.map_eq_some_iff.mp stepped
    exact ⟨entries, attached.other (foreign inner rfl) moved⟩

theorem Reach.attached (reach : Reach w s) : ∃ entries, Attached w s entries := by
  induction reach with
  | start garbage =>
    exact ⟨[], ⟨rfl, by simp, by simp, by simp, List.nodup_nil⟩, ⟨List.Pairwise.nil, by simp⟩, [], sound_start garbage⟩
  | event event _ foreign stepped ih =>
    obtain ⟨entries, attached⟩ := ih
    exact attached.step foreign stepped

theorem Attached.find (attached : Attached w s entries) (addrB : Nat) :
    ∃ found, findHandler w s.pool.arena.items s.firstHandler addrB = some found ∧ ∀ slot, found = some slot ↔
      ∃ entry ∈ entries, entry.slot = slot ∧ addrB ∈ range w entry.handler.device := by
  obtain ⟨free, sound⟩ := attached.sound
  have outside : ∀ device, decide (devFirst w device ≤ addrB ∧ addrB ≤ devLast w device) = false →
      addrB ∉ range w device := by
    intro device no
    have := of_decide_eq_false no
    exact this
  unfold findHandler
  rcases attached.seek_eq sound (fun device => decide (devFirst w device ≤ addrB ∧ addrB ≤ devLast w device)) with
    ⟨stop, absent⟩ | ⟨before, entry, after, split, yes, no, stop⟩
  · refine ⟨none, by rw [stop]; rfl, ?_⟩
    intro slot
    constructor
    · exact fun impossible => by cases impossible
    · rintro ⟨entry, member, _, covered⟩
      exact absurd covered (outside _ (absent entry member))
  · refine ⟨some entry.slot, by rw [stop]; rfl, ?_⟩
    have covered : devFirst w entry.handler.device ≤ addrB ∧ addrB ≤ devLast w entry.handler.device :=
      of_decide_eq_true yes
    intro slot
    constructor
    · intro same
      exact ⟨entry, split ▸ List.mem_append_right _ List.mem_cons_self, Option.some.inj same, covered⟩
    · rintro ⟨other, member, rfl, also⟩
      have pairwise := attached.pairwise
      rw [split] at member pairwise
      rcases List.mem_append.mp member with front | behind
      · exact absurd also (outside _ (no other front))
      · rcases List.mem_cons.mp behind with rfl | later
        · rfl
        · have apart := List.rel_of_pairwise_cons (List.pairwise_append.mp pairwise).2.1 later
          exact absurd also (Set.disjoint_left.mp apart covered)

variable (w) in
/-- In every run no two attached devices share an address and none has one of the table, so the
loops of read and write find the one device that covers an address, in whatever order the
devices were attached. Detach removes the device it is given and keeps the others in order. -/
theorem handlers_apart (s : Socket) (reach : Reach w s) : ∃ entries, Listed s entries ∧ Apart w entries ∧
    (∀ addrB, ∃ found, findHandler w s.pool.arena.items s.firstHandler addrB = some found ∧ ∀ slot, found = some slot ↔
      ∃ entry ∈ entries, entry.slot = slot ∧ addrB ∈ range w entry.handler.device) ∧
    ∀ device, (ebSocketDetach device s = some (s, .address) ∧ ∀ entry ∈ entries, entry.handler.device ≠ device) ∨
      ∃ before entry after s', entries = before ++ entry :: after ∧ entry.handler.device = device ∧
        (∀ other ∈ before, other.handler.device ≠ device) ∧ ebSocketDetach device s = some (s', .ok) ∧
        Listed s' (before ++ after) := by
  obtain ⟨entries, attached⟩ := reach.attached
  refine ⟨entries, attached.toListed, attached.toApart, attached.find, ?_⟩
  intro device
  rcases detach_cases attached device with refused | ⟨before, entry, after, s', split, named, first, called, left⟩
  · exact Or.inl refused
  · exact Or.inr ⟨before, entry, after, s', split, named, first, called, left.toListed⟩

variable (w) in
/-- An attach that fails leaves the list, the devices and the free slots as they were exactly
when memory ran out, or when the range overlaps a device and the array did not have to grow.
The checks before the loop keep both slots. -/
theorem attach_atomic_iff (s : Socket) (reach : Reach w s) (granted : Bool × Bool) (handler : EbHandler) :
    ∃ s' status, ebSocketAttach w granted handler s = some (s', status) ∧ (status ≠ .ok →
      (Unchanged w s s' ↔ Starved w granted s.pool.arena ∨ (¬Blocked w handler.device ∧ Roomy w s.pool.arena))) := by
  obtain ⟨entries, attached⟩ := reach.attached
  obtain ⟨free, sound⟩ := attached.sound
  exact attach_unchanged attached.toListed sound granted handler

/-! ### A small socket -/

/-- Descriptors whose number is the page they cover. -/
def pages : World :=
  { overlay := fun _ => ebNull
    sdb := fun device =>
      { abiClass := 0
        abiVerMajor := 1
        abiVerMinor := 0
        busSpecific := 0x0f
        sdbComponent :=
          { addrFirst := UInt64.ofNat (0x1000 * device)
            addrLast := UInt64.ofNat (0x1000 * device + 0xfff)
            product := ⟨0, 0, 0, 0, fun _ => 0, sdbRecordDevice⟩ } }
    address := 8 }

def bare : Socket := ⟨⟨Arena.start fun _ => .free 0, []⟩, ebNull⟩

theorem bare_reach : Reach pages bare := .start _

def attach (device : Nat) (s : Socket) : Socket :=
  ((ebSocketAttach pages (true, true) ⟨device, 0, 1, 1⟩ s).map Prod.fst).getD s

theorem attach_reach {s : Socket} (device : Nat) (reach : Reach pages s) (ok :
    (ebSocketAttach pages (true, true) ⟨device, 0, 1, 1⟩ s).map Prod.snd = some .ok) {entries :
    List Entry} (attached : Attached pages s entries) :
    Reach pages (attach device s) ∧ ∃ addressp callbackp,
      Attached pages (attach device s) (⟨addressp, callbackp, ⟨device, 0, 1, 1⟩⟩ :: entries) := by
  obtain ⟨s', status, addressp, callbackp, called, after⟩ := attach_front attached (true, true) ⟨device, 0, 1, 1⟩
  have same : attach device s = s' := by
    unfold attach
    rw [called]
    rfl
  rw [called] at ok
  obtain rfl : status = .ok := Option.some.inj ok
  rw [same]
  refine ⟨.event (.attach (true, true) ⟨device, 0, 1, 1⟩) reach (by simp) ?_, addressp, callbackp, after⟩
  simp only [step, called, Option.map_some]

theorem bare_attached : Attached pages bare [] :=
  ⟨⟨rfl, by simp, by simp, by simp, List.nodup_nil⟩, ⟨List.Pairwise.nil, by simp⟩, [], sound_start _⟩

def single : Socket := attach 5 bare

theorem single_spec : Reach pages single ∧ ∃ addressp callbackp, Attached pages single
    [⟨addressp, callbackp, ⟨5, 0, 1, 1⟩⟩] :=
  attach_reach 5 bare_reach (by decide +kernel) bare_attached

def pair : Socket := attach 6 single

/-- Two devices: the one that was attached last is in front, an address is served by the device
that covers it, and a detach leaves the other one. -/
theorem handlers_apart_pair : ∃ newer older, newer.handler.device = 6 ∧ older.handler.device = 5 ∧
    Listed pair [newer, older] ∧
    findHandler pages pair.pool.arena.items pair.firstHandler 0x5123 = some (some older.slot) ∧
      ∃ s', ebSocketDetach 6 pair = some (s', .ok) ∧ Listed s' [older] := by
  obtain ⟨_, older, _, attached⟩ := single_spec
  obtain ⟨reach, newer, _, attached'⟩ := attach_reach 6 single_spec.1 (by decide +kernel) attached
  obtain ⟨entries, listed, -, finds, detaches⟩ := handlers_apart pages pair reach
  obtain rfl := listed.unique attached'.toListed
  refine ⟨_, _, rfl, rfl, listed, ?_, ?_⟩
  · obtain ⟨found, called, covers⟩ := finds 0x5123
    rw [called, (covers older).mpr]
    refine ⟨_, List.mem_cons_of_mem _ List.mem_cons_self, rfl, ?_⟩
    exact ⟨(by decide : devFirst pages 5 ≤ 0x5123), (by decide : 0x5123 ≤ devLast pages 5)⟩
  · rcases detaches 6 with ⟨_, none⟩ | ⟨front, entry, back, s', split, named, first, called, left⟩
    · exact absurd rfl (none _ List.mem_cons_self)
    · cases front with
      | nil =>
        obtain ⟨_, rfl⟩ := List.cons.inj split
        exact ⟨s', called, left⟩
      | cons other front =>
        obtain ⟨rfl, _⟩ := List.cons.inj split
        exact absurd rfl (first _ List.mem_cons_self)

theorem attach_atomic_iff_single : ∃ s' status, ebSocketAttach pages (true, true) ⟨5, 0, 1, 1⟩ single =
    some (s', status) ∧
    (status ≠ .ok → (Unchanged pages single s' ↔ Starved pages (true, true) single.pool.arena ∨
      (¬Blocked pages 5 ∧ Roomy pages single.pool.arena))) :=
  attach_atomic_iff pages single single_spec.1 (true, true) ⟨5, 0, 1, 1⟩

/-- A device on page one lies in the table: it is refused, and two slots are lost. -/
theorem attach_leaks : ∃ s', ebSocketAttach pages (true, true) ⟨1, 0, 1, 1⟩ single = some (s', .address) ∧
    ¬Unchanged pages single s' := by
  obtain ⟨entries, attached⟩ := single_spec.1.attached
  obtain ⟨free, sound⟩ := attached.sound
  obtain ⟨s', status, called, unchanged⟩ := attach_unchanged attached.toListed sound (true, true) ⟨1, 0, 1, 1⟩
  have refused : (ebSocketAttach pages (true, true) ⟨1, 0, 1, 1⟩ single).map Prod.snd =
    some .address := by decide +kernel
  rw [called] at refused
  obtain rfl : status = .address := Option.some.inj refused
  have room : ¬(single.pool.arena.free = ebNull) := by decide +kernel
  have two : ¬((single.pool.arena.items single.pool.arena.free).next pages.overlay = ebNull) := by decide +kernel
  refine ⟨s', called, ?_⟩
  intro same
  rcases (unchanged (by decide)).mp same with (⟨none, _⟩ | ⟨_, none, _⟩) | ⟨open', _⟩
  · exact room none
  · exact two none
  · exact open' (by decide)

end BelProject.Etherbone.Handlers
