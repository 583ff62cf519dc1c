import BelProject.Etherbone.Completion

/-! The operations of a cycle, and the handle its callback gets to them. -/

namespace BelProject.Etherbone.Handles
open BelProject.Library LinkedList Width Operations Flush Glue Accounting Completion
open Function (update update_of_ne update_self)

/-- From the handle on, `eb_operation_next` walks live operations of the cycle and ends. -/
def OpsOf (w : World) (c handle : Nat) : Prop :=
  ∃ ids, Chain null w.opNext handle ids ∧ ∀ id ∈ ids, w.slot id = .operation ∧ w.owner id = c

/-- A step leaves the operations of a cycle alone. -/
def Keeps (w w' : World) (c : Nat) : Prop :=
  ∀ id, w.slot id = .operation → w.owner id = c →
    w'.slot id = .operation ∧ w'.owner id = c ∧ w'.opNext id = w.opNext id

theorem Keeps.refl (w : World) (c : Nat) : Keeps w w c := fun _ slot owner => ⟨slot, owner, rfl⟩

variable {w' : World} {c : Nat}

theorem OpsOf.keeps {w w' : World} {c handle : Nat} (ops : OpsOf w c handle) (kept : Keeps w w' c) :
    OpsOf w' c handle := by
  obtain ⟨ids, chain, facts⟩ := ops
  refine ⟨ids, chain.congr ?_, ?_⟩
  · intro id member
    exact (kept id (facts id member).1 (facts id member).2).2.2
  · intro id member
    obtain ⟨slot, owner, _⟩ := kept id (facts id member).1 (facts id member).2
    exact ⟨slot, owner⟩

theorem OpsOf.null (w : World) (c : Nat) : OpsOf w c null := ⟨[], Chain.nil, by simp⟩

/-- The operations of every cycle, the handles of the running callbacks and the cycles in flight. -/
structure Sound (clean : Prop) (w : World) : Prop where
  cycles : ∀ c, w.slot c = .cycle → w.unOps c = c ∨ OpsOf w c (w.unOps c)
  handles : clean → ∀ c handle responsep, .callback c handle responsep ∈ w.stack → OpsOf w c handle
  flight : ∀ entry ∈ waiting w, w.unOps entry.cycle ≠ entry.cycle

theorem sound_start (clean : Prop) : Sound clean .start := by
  constructor <;> simp [World.start, waiting]

theorem walkOps_chain {w : World} {fuel handle : Nat} {handles : List Nat}
    (walked : w.walkOps fuel handle = some handles) : Chain null w.opNext handle handles := by
  induction fuel generalizing handle handles with
  | zero => cases walked
  | succ fuel ih =>
    unfold World.walkOps at walked
    split at walked
    next last =>
      rw [← Option.some.inj walked]
      exact last
    next more =>
      split at walked
      · obtain ⟨rest, onward, rfl⟩ := Option.map_eq_some_iff.mp walked
        exact ⟨rfl, more, ih onward⟩
      · cases walked

namespace Sound
variable {clean : Prop} {w : World}

section
variable (sound : Sound clean w)
include sound

theorem keeps (cycles : ∀ c, w'.slot c = .cycle →
      (w.slot c = .cycle ∧ w'.unOps c = w.unOps c ∧ Keeps w w' c) ∨ w'.unOps c = c ∨ OpsOf w' c (w'.unOps c))
    (handles : clean → ∀ c handle responsep, .callback c handle responsep ∈ w'.stack →
      (.callback c handle responsep ∈ w.stack ∧ Keeps w w' c) ∨ OpsOf w' c handle)
    (flight : ∀ entry ∈ waiting w', (∃ before ∈ waiting w, before.cycle = entry.cycle ∧
      w'.unOps entry.cycle = w.unOps entry.cycle) ∨ w'.unOps entry.cycle ≠ entry.cycle) : Sound clean w' := by
  constructor
  · intro c cycle
    rcases cycles c cycle with ⟨before, same, kept⟩ | fine
    · rw [same]
      exact (sound.cycles c before).imp_right fun ops => ops.keeps kept
    · exact fine
  · intro allowed c handle responsep member
    rcases handles allowed c handle responsep member with ⟨before, kept⟩ | fine
    · exact (sound.handles allowed c handle responsep before).keeps kept
    · exact fine
  · intro entry member
    rcases flight entry member with ⟨before, here, cycle, same⟩ | fine
    · rw [same, ← cycle]
      exact sound.flight before here
    · exact fine

theorem moves (slot : w'.slot = w.slot) (opNext : w'.opNext = w.opNext)
    (unOps : w'.unOps = w.unOps) (owner : w'.owner = w.owner)
    (handles : clean → ∀ c handle responsep, .callback c handle responsep ∈ w'.stack →
      .callback c handle responsep ∈ w.stack ∨ OpsOf w' c handle)
    (flight : ∀ entry ∈ waiting w', (∃ before ∈ waiting w, before.cycle = entry.cycle) ∨
      w'.unOps entry.cycle ≠ entry.cycle) : Sound clean w' := by
  have kept : ∀ c, Keeps w w' c := by
    intro c id operation owned
    rw [slot, owner, opNext]
    exact ⟨operation, owned, rfl⟩
  apply sound.keeps
  · intro c cycle
    rw [slot] at cycle
    exact Or.inl ⟨cycle, congrFun unOps c, kept c⟩
  · intro allowed c handle responsep member
    exact (handles allowed c handle responsep member).imp_left fun before => ⟨before, kept c⟩
  · intro entry member
    exact (flight entry member).imp_left fun ⟨before, here, same⟩ => ⟨before, here, same, congrFun unOps _⟩

theorem allocate (unused : w.slot w.fresh = .unused) {slot : Slot} (other : slot ≠ .cycle) :
    Sound clean (w.allocate slot) := by
  have kept : ∀ c, Keeps w (w.allocate slot) c := by
    intro c id operation owned
    have different : id ≠ w.fresh := by
      rintro rfl
      rw [unused] at operation
      cases operation
    exact ⟨(update_of_ne different _ _).trans operation, owned, rfl⟩
  apply sound.keeps
  · intro c cycle
    have different : c ≠ w.fresh := by
      rintro rfl
      exact other ((update_self _ _ _).symm.trans cycle)
    exact Or.inl ⟨(update_of_ne different _ _).symm.trans cycle, rfl, kept c⟩
  · exact fun _ c handle responsep member => Or.inl ⟨member, kept c⟩
  · exact fun entry member => Or.inl ⟨entry, member, rfl, rfl⟩

theorem destroy (cycle : w.slot c = .cycle) (destroyed : w.ebCycleDestroy c = some w') :
    (∀ other, other ≠ c → Keeps w w' other) ∧ (∀ handle, w'.slot handle = .cycle ↔ w.slot handle = .cycle) ∧
      w'.unOps = update w.unOps c null ∧ w'.opNext = w.opNext ∧ w'.owner = w.owner ∧ w'.stack = w.stack ∧
      w'.queue = w.queue := by
  rcases ebCycleDestroy_cases destroyed with ⟨_, rfl⟩ | ⟨handles, live, walked, rfl⟩
  · exact ⟨fun other _ => Keeps.refl w other, fun _ => Iff.rfl, rfl, rfl, rfl, rfl, rfl⟩
  · obtain ⟨ids, chain, facts⟩ := (sound.cycles c cycle).resolve_left live
    have same : handles = ids := (walkOps_chain walked).unique chain
    refine ⟨?_, ?_, rfl, rfl, rfl, rfl, rfl⟩
    · intro other different id operation owned
      refine ⟨(if_neg ?_).trans operation, owned, rfl⟩
      intro member
      rw [same] at member
      exact different (owned.symm.trans (facts id member).2)
    · intro handle
      show (if handle ∈ handles then Slot.freed else w.slot handle) = .cycle ↔ _
      split
      next member =>
        rw [walkOps_slot walked handle member]
        exact iff_of_false (by decide) (by decide)
      · exact Iff.rfl

theorem openCycle (unused : w.slot w.fresh = .unused) (unheld : ∀ entry ∈ waiting w, entry.cycle ≠ w.fresh)
    (devicep : Nat) (granted : Bool) : Sound clean (w.ebCycleOpen devicep granted).1 := by
  unfold World.ebCycleOpen
  cases granted with
  | false => exact sound
  | true =>
    rw [if_pos rfl]
    split
    · exact sound.allocate unused (by decide)
    · have kept : ∀ c, Keeps w { w.allocate .cycle with
          unOps := update w.unOps w.fresh null
          unLink := update w.unLink w.fresh devicep
          unready := update w.unready devicep (w.unready devicep + 1)
          opened := w.fresh :: w.opened
          home := update w.home w.fresh devicep } c := by
        intro c id operation owned
        have different : id ≠ w.fresh := by
          rintro rfl
          rw [unused] at operation
          cases operation
        exact ⟨(update_of_ne different _ _).trans operation, owned, rfl⟩
      apply sound.keeps
      · intro c cycle
        by_cases same : c = w.fresh
        · right
          right
          show OpsOf _ c (update w.unOps w.fresh null c)
          rw [same, update_self]
          exact OpsOf.null _ _
        · left
          exact ⟨(update_of_ne same _ _).symm.trans cycle, update_of_ne same _ _, kept c⟩
      · exact fun _ c handle responsep member => Or.inl ⟨member, kept c⟩
      · intro entry member
        exact Or.inl ⟨entry, member, rfl, update_of_ne (unheld entry member) _ _⟩

theorem addOperation (counted : Counted w) {op : Operation} (cycle : w.slot c = .cycle)
    (live : w.unOps c ≠ c) (unheld : ∀ entry ∈ waiting w, entry.cycle ≠ c) : Sound clean { w.allocate .operation with
      operation := update w.operation w.fresh op
      opNext := update w.opNext w.fresh (w.unOps c)
      unOps := update w.unOps c w.fresh
      owner := update w.owner w.fresh c } := by
  have unused := counted.unused w.fresh (Nat.le_refl _)
  have old : ∀ id, w.slot id = .operation → id ≠ w.fresh := by
    rintro id operation rfl
    rw [unused] at operation
    cases operation
  have kept : ∀ other, Keeps w { w.allocate .operation with
      operation := update w.operation w.fresh op
      opNext := update w.opNext w.fresh (w.unOps c)
      unOps := update w.unOps c w.fresh
      owner := update w.owner w.fresh c } other := by
    intro other id operation owned
    have different := old id operation
    exact ⟨(update_of_ne different _ _).trans operation, (update_of_ne different _ _).trans owned,
      update_of_ne different _ _⟩
  apply sound.keeps
  · intro other here
    by_cases same : other = c
    · subst same
      right
      right
      obtain ⟨ids, chain, facts⟩ := ((sound.cycles other cycle).resolve_left live).keeps (kept other)
      have positive : w.fresh ≠ null := Nat.ne_of_gt counted.null_old.1
      show OpsOf _ other (update w.unOps other w.fresh other)
      rw [update_self]
      refine ⟨w.fresh :: ids, ⟨rfl, positive, ?_⟩, ?_⟩
      · show Chain null _ (update w.opNext w.fresh (w.unOps other) w.fresh) ids
        rw [update_self]
        exact chain
      · intro id member
        rcases List.mem_cons.mp member with rfl | later
        · exact ⟨update_self _ _ _, update_self _ _ _⟩
        · exact facts id later
    · left
      have different : other ≠ w.fresh := by
        rintro rfl
        have slot : (w.allocate .operation).slot w.fresh = .cycle := here
        rw [show (w.allocate .operation).slot w.fresh = .operation from update_self _ _ _] at slot
        cases slot
      exact ⟨(update_of_ne different _ _).symm.trans here, update_of_ne same _ _, kept other⟩
  · exact fun _ other handle responsep member => Or.inl ⟨member, kept other⟩
  · intro entry member
    exact Or.inl ⟨entry, member, rfl, update_of_ne (unheld entry member) _ _⟩

theorem discards {w₁ w' : World} (cycle : w.slot c = .cycle)
    (destroyed : w.ebCycleDestroy c = some w₁) (cycles : ∀ x, w'.slot x = .cycle → x = c ∨ w₁.slot x = .cycle)
    (operations : ∀ id, w₁.slot id = .operation → w'.slot id = .operation)
    (own : w'.slot c = .cycle → w'.unOps c = c) (others : ∀ x, x ≠ c → w'.unOps x = w₁.unOps x)
    (opNext : w'.opNext = w₁.opNext) (owner : w'.owner = w₁.owner)
    (stack : ∀ frame ∈ w'.stack, frame ∈ w.stack ∧ called? frame ≠ some c)
    (wait : ∀ entry ∈ waiting w', entry ∈ waiting w)
    (unheld : ∀ entry ∈ waiting w', entry.cycle ≠ c) : Sound clean w' := by
  obtain ⟨kept, slots, unOps, next, owned, _, _⟩ := sound.destroy cycle destroyed
  have keeps : ∀ other, other ≠ c → Keeps w w' other := by
    intro other different id operation here
    obtain ⟨slot, belongs, same⟩ := kept other different id operation here
    rw [owner, opNext]
    exact ⟨operations id slot, belongs, same⟩
  have unOps' : ∀ x, x ≠ c → w'.unOps x = w.unOps x := by
    intro x different
    rw [others x different, unOps, update_of_ne different]
  apply sound.keeps
  · intro x here
    by_cases same : x = c
    · subst same
      exact Or.inr (Or.inl (own here))
    · have before := (cycles x here).resolve_left same
      exact Or.inl ⟨(slots x).mp before, unOps' x same, keeps x same⟩
  · intro _ x handle responsep member
    obtain ⟨before, different⟩ := stack _ member
    exact Or.inl ⟨before, keeps x fun same => different (congrArg some same)⟩
  · intro entry member
    exact Or.inl ⟨entry, wait entry member, rfl, unOps' _ (unheld entry member)⟩

end

variable {exact : Prop} {listed : Nat → List Nat}

theorem doop (sound : Sound clean w) (placed : Placed exact w listed []) (counted : Counted w)
    {op : Operation} {granted : Bool} (member : c ∈ w.opened) (stepped : w.ebCycleDoop c op granted = some w') :
    Sound clean w' := by
  have unheld : ∀ entry ∈ waiting w, entry.cycle ≠ c := by
    rintro entry here rfl
    exact placed.opened_free member (Or.inr (Or.inl ⟨entry, here, rfl⟩))
  have cycle := counted.slot_eq c member
  unfold World.ebCycleDoop at stepped
  cases granted with
  | true =>
    rw [if_pos rfl] at stepped
    split at stepped
    · rw [← Option.some.inj stepped]
      exact sound.allocate (counted.unused _ (Nat.le_refl _)) (by decide)
    next live =>
      rw [← Option.some.inj stepped]
      exact sound.addOperation counted cycle live unheld
  | false =>
    obtain ⟨w₁, destroyed, rfl⟩ := Option.map_eq_some_iff.mp stepped
    obtain ⟨_, _, _, _, _, stack, queue⟩ := sound.destroy cycle destroyed
    have wait : ∀ entry ∈ waiting { w₁ with unOps := update w₁.unOps c c }, entry ∈ waiting w := by
      intro entry here
      have here : entry ∈ w₁.queue ++ w₁.stack.flatMap bad := here
      rw [queue, stack] at here
      exact here
    refine sound.discards cycle destroyed (fun x here => Or.inr here) (fun _ operation => operation)
      (fun _ => update_self _ _ _) (fun x different => update_of_ne different _ _) rfl rfl ?_ wait
      (fun entry here => unheld entry (wait entry here))
    intro frame here
    have here : frame ∈ w₁.stack := here
    rw [stack] at here
    refine ⟨here, ?_⟩
    intro running
    exact placed.opened_free member (Or.inr (Or.inr (Or.inl (List.mem_filterMap.mpr ⟨frame, here, running⟩))))

theorem abort (sound : Sound clean w) (placed : Placed exact w listed []) (counted : Counted w)
    (member : c ∈ w.opened) (stepped : w.ebCycleAbort c = some w') : Sound clean w' := by
  unfold World.ebCycleAbort at stepped
  obtain ⟨w₁, destroyed, rfl⟩ := Option.map_eq_some_iff.mp stepped
  have started : Sound clean { w with unready := update w.unready (w.unLink c) (w.unready (w.unLink c) - 1) } :=
    sound.moves rfl rfl rfl rfl (fun _ _ _ _ here => Or.inl here) (fun entry here => Or.inl ⟨entry, here, rfl⟩)
  have cycle : ({ w with unready := update w.unready (w.unLink c) (w.unready (w.unLink c) - 1) } : World).slot c = .cycle :=
    counted.slot_eq c member
  obtain ⟨_, _, _, _, _, stack, queue⟩ := started.destroy cycle destroyed
  have wait : ∀ entry ∈ waiting { w₁.free c with opened := w₁.opened.erase c }, entry ∈ waiting w := by
    intro entry here
    have here : entry ∈ w₁.queue ++ w₁.stack.flatMap bad := here
    rw [queue, stack] at here
    exact here
  have freed : (w₁.free c).slot c = .freed := update_self _ _ _
  refine started.discards cycle destroyed ?_ ?_ ?_ (fun _ _ => rfl) rfl rfl ?_ wait ?_
  · intro x here
    by_cases same : x = c
    · exact Or.inl same
    · exact Or.inr ((update_of_ne same _ _).symm.trans here)
  · intro id operation
    have different : id ≠ c := by
      rintro rfl
      obtain ⟨_, slots, _⟩ := started.destroy cycle destroyed
      rw [(slots id).mpr cycle] at operation
      cases operation
    exact (update_of_ne different _ _).trans operation
  · intro here
    have slot : Slot.freed = .cycle := freed.symm.trans here
    cases slot
  · intro frame here
    have here : frame ∈ w₁.stack := here
    rw [stack] at here
    refine ⟨here, ?_⟩
    intro running
    exact placed.opened_free member (Or.inr (Or.inr (Or.inl (List.mem_filterMap.mpr ⟨frame, here, running⟩))))
  · rintro entry here rfl
    exact placed.opened_free member (Or.inr (Or.inl ⟨entry, wait entry here, rfl⟩))

theorem length_le (counted : Counted w) {c handle : Nat} {ids : List Nat} (chain : Chain null w.opNext handle ids)
    (facts : ∀ id ∈ ids, w.slot id = .operation ∧ w.owner id = c) : ids.length ≤ w.fresh := by
  have below : ids.toFinset ⊆ Finset.range w.fresh := by
    intro id member
    rw [List.mem_toFinset] at member
    rw [Finset.mem_range]
    apply counted.lt_fresh
    rw [(facts id member).1]
    decide
  calc ids.length = ids.toFinset.card := (List.toFinset_card_of_nodup chain.nodup).symm
    _ ≤ (Finset.range w.fresh).card := Finset.card_le_card below
    _ = w.fresh := Finset.card_range _

section
variable (sound : Sound clean w)
include sound

theorem close (placed : Placed exact w listed []) (counted : Counted w)
    {silently : Bool} (member : c ∈ w.opened) (stepped : w.ebCycleClose c silently = some w') : Sound clean w' := by
  have unheld := placed.opened_free member
  have cycle := counted.slot_eq c member
  unfold World.ebCycleClose at stepped
  obtain ⟨w₁, raw, rfl⟩ := Option.map_eq_some_iff.mp stepped
  have closed : Sound clean w₁ := by
    unfold World.ebRawCycleClose at raw
    split at raw
    · rw [← Option.some.inj raw]
      exact sound.moves rfl rfl rfl rfl (fun _ _ _ _ here => Or.inl here) (fun entry here => Or.inl ⟨entry, here, rfl⟩)
    next live =>
      obtain ⟨⟨opNext, first⟩, flipped, rfl⟩ := Option.map_eq_some_iff.mp raw
      obtain ⟨ids, chain, facts⟩ := (sound.cycles c cycle).resolve_left live
      have length := length_le counted chain facts
      obtain ⟨opNext', first', run, turned, outside⟩ := flip_spec (w.fresh + 1) chain
        (show Chain null w.opNext null [] from Chain.nil) (List.disjoint_nil_right _) (by omega)
      rw [run] at flipped
      obtain ⟨rfl, rfl⟩ := Prod.mk.inj (Option.some.inj flipped)
      rw [List.append_nil] at turned
      -- only links between operations of this cycle change
      have kept : ∀ id, w.slot id = .operation → w.owner id ≠ c → opNext' id = w.opNext id := by
        intro id _ other
        apply outside
        intro here
        exact other (facts id here).2
      apply sound.keeps
      · intro x here
        by_cases same : x = c
        · subst same
          right
          right
          show OpsOf _ x (update w.unOps x first' x)
          rw [update_self]
          exact ⟨ids.reverse, turned, fun id here => facts id (List.mem_reverse.mp here)⟩
        · left
          refine ⟨here, update_of_ne same _ _, ?_⟩
          intro id operation owned
          exact ⟨operation, owned, kept id operation (owned.symm ▸ same)⟩
      · intro _ x handle responsep here
        left
        refine ⟨here, ?_⟩
        intro id operation owned
        refine ⟨operation, owned, kept id operation ?_⟩
        rintro rfl
        subst owned
        exact unheld (Or.inr (Or.inr (Or.inl (List.mem_filterMap.mpr ⟨_, here, rfl⟩))))
      · intro entry here
        left
        refine ⟨entry, here, rfl, update_of_ne ?_ _ _⟩
        rintro rfl
        exact unheld (Or.inr (Or.inl ⟨entry, here, rfl⟩))
  split
  · exact closed.moves rfl rfl rfl rfl (fun _ _ _ _ here => Or.inl here) (fun entry here => Or.inl ⟨entry, here, rfl⟩)
  · exact closed

theorem openDevice (unused : w.slot w.fresh = .unused) (passive : Bool) (port : Port) (mtu : Nat) :
    Sound clean (w.ebDeviceOpen passive port mtu) := by
  have allocated := sound.allocate unused (show Slot.device ≠ .cycle by decide)
  exact allocated.moves rfl rfl rfl rfl (fun _ _ _ _ here => Or.inl here) (fun entry here => Or.inl ⟨entry, here, rfl⟩)

theorem flush {devicep : Nat} (stepped : w.ebDeviceFlush devicep = some w') : Sound clean w' := by
  unfold World.ebDeviceFlush at stepped
  split at stepped
  · obtain ⟨⟨unLink, prevp⟩, _, rfl⟩ := Option.map_eq_some_iff.mp stepped
    refine sound.moves rfl rfl rfl rfl ?_ (fun entry here => Or.inl ⟨entry, here, rfl⟩)
    intro _ c handle responsep here
    exact Or.inl ((List.mem_cons.mp here).resolve_left (fun same => Frame.noConfusion same))
  · rw [← Option.some.inj stepped]
    exact sound

theorem closeDevice (devicep : Nat) : Sound clean (w.ebDeviceClose devicep).1 := by
  unfold World.ebDeviceClose
  split
  · exact sound
  · split
    · refine sound.moves rfl rfl rfl rfl ?_ ?_
      · intro _ c handle responsep here
        exact Or.inl ((List.mem_cons.mp here).resolve_left (fun same => Frame.noConfusion same))
      · intro entry here
        left
        refine ⟨entry, ?_, rfl⟩
        rcases List.mem_append.mp here with kept | here
        · exact List.mem_append_left _ (List.mem_of_mem_filter kept)
        · rcases List.mem_append.mp here with dead | before
          · exact List.mem_append_left _ (List.mem_of_mem_filter dead)
          · exact List.mem_append_right _ before
    · refine sound.moves rfl rfl rfl rfl ?_ (fun entry here => Or.inl ⟨entry, here, rfl⟩)
      intro _ c handle responsep here
      exact Or.inl ((List.mem_cons.mp here).resolve_left (fun same => Frame.noConfusion same))

variable {stack : List Frame}

theorem call {w₁ w' : World} {c handle : Nat} {responsep : Option Nat}
    (called : w₁.call c handle responsep stack = some w') (slot : w₁.slot = w.slot) (opNext : w₁.opNext = w.opNext)
    (unOps : w₁.unOps = w.unOps) (owner : w₁.owner = w.owner) (ops : clean → OpsOf w c handle)
    (frames : ∀ x handle responsep, .callback x handle responsep ∈ stack → .callback x handle responsep ∈ w.stack)
    (wait : ∀ entry ∈ w₁.queue ++ stack.flatMap bad, entry ∈ waiting w) : Sound clean w' := by
  obtain ⟨_, rfl⟩ := call_cases called
  refine sound.moves slot opNext unOps owner ?_ (fun entry here => Or.inl ⟨entry, wait entry here, rfl⟩)
  intro allowed x other r here
  rcases List.mem_cons.mp here with same | later
  · cases same
    right
    apply (ops allowed).keeps
    intro id operation owned
    show w₁.slot id = _ ∧ w₁.owner id = _ ∧ w₁.opNext id = _
    rw [slot, owner, opNext]
    exact ⟨operation, owned, rfl⟩
  · exact Or.inl (frames x other r later)

section
variable (placed : Placed exact w listed [])
include placed

theorem opsOf_waiting {entry : Entry} (member : entry ∈ waiting w) : OpsOf w entry.cycle (w.unOps entry.cycle) :=
  (sound.cycles entry.cycle (placed.wait entry member).1).resolve_left (sound.flight entry member)

theorem reply {widths : UInt8} {addr value : Nat}
    (stepped : w.ebSocketWriteConfig widths addr value = some w') : Sound clean w' := by
  unfold World.ebSocketWriteConfig at stepped
  split at stepped
  · rw [← Option.some.inj stepped]
    exact sound
  next i _ =>
    split at stepped
    · cases stepped
    next entry found =>
      have member := List.mem_of_getElem? found
      dsimp only at stepped
      split at stepped
      · refine sound.call stepped rfl rfl rfl rfl (fun _ => sound.opsOf_waiting placed (List.mem_append_left _ member))
          (fun _ _ _ here => here) ?_
        intro other here
        rcases List.mem_append.mp here with before | dead
        · exact List.mem_append_left _ (List.mem_of_mem_eraseIdx before)
        · exact List.mem_append_right _ dead
      · rw [← Option.some.inj stepped]
        refine sound.moves rfl rfl rfl rfl (fun _ _ _ _ here => Or.inl here) ?_
        intro other here
        left
        rcases List.mem_append.mp here with queued | dead
        · rcases List.mem_or_eq_of_mem_set queued with before | rfl
          · exact ⟨other, List.mem_append_left _ before, rfl⟩
          · exact ⟨entry, List.mem_append_left _ member, rfl⟩
        · exact ⟨other, List.mem_append_right _ dead, rfl⟩

theorem expire (stepped : w.expire = some w') : Sound clean w' := by
  unfold World.expire at stepped
  split at stepped
  · rw [← Option.some.inj stepped]
    exact sound
  next entry queue queued =>
    have member : entry ∈ waiting w := List.mem_append_left _ (queued ▸ List.mem_cons_self)
    refine sound.call stepped rfl rfl rfl rfl (fun _ => sound.opsOf_waiting placed member) (fun _ _ _ here => here) ?_
    intro other here
    rcases List.mem_append.mp here with before | dead
    · exact List.mem_append_left _ (queued ▸ List.mem_cons_of_mem _ before)
    · exact List.mem_append_right _ dead

theorem killPass {devicep first : Nat}
    {entries : List Entry} (stacked : w.stack = .kill devicep entries first :: stack)
    (stepped : w.killPass devicep entries first stack = some w') : Sound clean w' := by
  have here : Frame.kill devicep entries first ∈ w.stack := stacked ▸ List.mem_cons_self
  have fewer : ∀ x handle responsep, .callback x handle responsep ∈ stack → .callback x handle responsep ∈ w.stack :=
    fun _ _ _ later => stacked ▸ List.mem_cons_of_mem _ later
  cases entries with
  | cons entry entries =>
    have member : entry ∈ waiting w := List.mem_append_right _ (List.mem_flatMap.mpr ⟨_, here, List.mem_cons_self⟩)
    refine sound.call stepped rfl rfl rfl rfl (fun _ => sound.opsOf_waiting placed member) ?_ ?_
    · intro x handle r inside
      exact fewer x handle r ((List.mem_cons.mp inside).resolve_left (fun same => Frame.noConfusion same))
    · intro other inside
      rcases List.mem_append.mp inside with before | dead
      · exact List.mem_append_left _ before
      · apply List.mem_append_right
        rw [stacked]
        exact List.mem_cons_of_mem _ dead
  | nil =>
    obtain ⟨⟨unLink, prevp⟩, _, rfl⟩ := Option.map_eq_some_iff.mp stepped
    refine sound.moves rfl rfl rfl rfl ?_ ?_
    · intro _ x handle r inside
      exact Or.inl (fewer x handle r ((List.mem_cons.mp inside).resolve_left (fun same => Frame.noConfusion same)))
    · intro entry inside
      refine Or.inl ⟨entry, ?_, rfl⟩
      show entry ∈ w.queue ++ w.stack.flatMap bad
      rw [stacked]
      exact inside

theorem drainPass {devicep nextp : Nat} (stacked : w.stack = .drain devicep nextp :: stack)
    (alive : clean → nextp ≠ null → w.unOps nextp ≠ nextp) (stepped : w.drainPass devicep nextp stack = some w') :
    Sound clean w' := by
  have here : Frame.drain devicep nextp ∈ w.stack := stacked ▸ List.mem_cons_self
  have fewer : ∀ x handle responsep, .callback x handle responsep ∈ stack → .callback x handle responsep ∈ w.stack :=
    fun _ _ _ later => stacked ▸ List.mem_cons_of_mem _ later
  have wait : w.queue ++ stack.flatMap bad = waiting w := by
    rw [waiting, stacked]
    rfl
  obtain ⟨device, chain, _⟩ := placed.work _ here devicep rfl
  unfold World.drainPass at stepped
  split at stepped
  · rw [← Option.some.inj stepped]
    -- a device is neither a cycle nor an operation
    have other : ∀ handle, w.slot handle ≠ .device → (w.free devicep).slot handle = w.slot handle := by
      intro handle different
      apply update_of_ne
      rintro rfl
      exact different device
    have kept : ∀ c, Keeps w { w.free devicep with stack := stack } c := by
      intro c id operation owned
      exact ⟨(other id (by rw [operation]; decide)).trans operation, owned, rfl⟩
    apply sound.keeps
    · intro c cycle
      left
      refine ⟨?_, rfl, kept c⟩
      by_cases same : c = devicep
      · subst same
        have slot : (w.free c).slot c = .cycle := cycle
        rw [show (w.free c).slot c = .freed from update_self _ _ _] at slot
        cases slot
      · exact (update_of_ne same _ _).symm.trans cycle
    · exact fun _ c handle r member => Or.inl ⟨fewer c handle r member, kept c⟩
    · exact fun entry member => Or.inl ⟨entry, wait ▸ member, rfl, rfl⟩
  next more =>
    have cycle : w.slot nextp = .cycle := (call_cases stepped).1
    refine sound.call stepped rfl rfl rfl rfl ?_ ?_ (fun entry inside => wait ▸ inside)
    · exact fun allowed => (sound.cycles nextp cycle).resolve_left (alive allowed more)
    · intro x handle r inside
      exact fewer x handle r ((List.mem_cons.mp inside).resolve_left (fun same => Frame.noConfusion same))

end

end

end Sound

theorem chain_drop {next : Nat → Nat} {first : Nat} {items : List Nat} (chain : Chain null next first items) (n : Nat) :
    Chain null next ((items.drop n).headD null) (items.drop n) := by
  induction items generalizing first n with
  | nil =>
    rw [List.drop_nil]
    exact Chain.nil
  | cons item items ih =>
    cases n with
    | zero => exact ⟨rfl, chain.2⟩
    | succ n => exact ih chain.2.2 n

theorem flushCycle_last (p : Port) (mtu time : Nat) (alloc : Nat → Bool) (pack : Pack) (cycle : Cycle) :
    (∃ rest status, (flushCycle p mtu time alloc pack cycle).effects.getLast? =
      some (.callback cycle.handle rest status)) ∨
      ∃ response, (flushCycle p mtu time alloc pack cycle).effects.getLast? = some (.respond response) ∧
        cycle.ops ≠ .dead := by
  unfold flushCycle
  split
  next rest status _ => exact Or.inl ⟨rest, status, List.getLast?_concat⟩
  next operations screened =>
    have live : cycle.ops ≠ .dead := by
      intro dead
      rw [screen, dead] at screened
      cases screened
    dsimp only
    split
    next rest _ => exact Or.inl ⟨rest, _, List.getLast?_concat⟩
    · split
      · exact Or.inr ⟨_, List.getLast?_concat, live⟩
      · exact Or.inl ⟨_, _, List.getLast?_concat⟩

theorem cycleAt_cases {w : World} {c : Nat} {cycle : Cycle} {handles : List Nat}
    (seen : w.cycleAt c = some (cycle, handles)) :
    (w.unOps c = c ∧ cycle.ops = .dead ∧ handles = []) ∨
      (w.unOps c ≠ c ∧ cycle.ops ≠ .dead ∧ w.operations c = some handles) := by
  unfold World.cycleAt at seen
  split at seen
  next dead =>
    obtain ⟨rfl, rfl⟩ := Prod.mk.inj (Option.some.inj seen)
    exact Or.inl ⟨dead, rfl, rfl⟩
  next live =>
    obtain ⟨walked, run, same⟩ := Option.map_eq_some_iff.mp seen
    obtain ⟨rfl, rfl⟩ := Prod.mk.inj same
    exact Or.inr ⟨live, by simp, run⟩

namespace Sound
variable {clean exact : Prop} {w : World} {listed : Nat → List Nat}

theorem flushPass (sound : Sound clean w) (counted : Counted w) {w' : World} {granted : Bool} {time devicep nextp : Nat}
    {pack : Pack} {stack : List Frame} (stacked : w.stack = .flush devicep nextp pack :: stack)
    (stepped : w.flushPass granted time devicep nextp pack stack = some w') : Sound clean w' := by
  have fewer : ∀ x handle responsep, .callback x handle responsep ∈ stack → .callback x handle responsep ∈ w.stack :=
    fun _ _ _ later => stacked ▸ List.mem_cons_of_mem _ later
  have wait : w.queue ++ stack.flatMap bad = waiting w := by
    rw [waiting, stacked]
    rfl
  unfold World.flushPass at stepped
  split at stepped
  · rw [← Option.some.inj stepped]
    exact sound.moves rfl rfl rfl rfl (fun _ x handle r inside => Or.inl (fewer x handle r inside))
      (fun entry inside => Or.inl ⟨entry, wait ▸ inside, rfl⟩)
  · split at stepped
    next cycle =>
      dsimp only at stepped
      split at stepped
      · cases stepped
      next view handles seen =>
        have last :=
          flushCycle_last (w.port devicep) (w.mtu devicep) time (fun _ => granted) { pack with rba := w.rba } view
        split at stepped
        next rest _ _ =>
          refine sound.call stepped rfl rfl rfl rfl (fun _ => ?_) ?_ (fun entry inside => wait ▸ inside)
          · rcases cycleAt_cases seen with ⟨_, _, rfl⟩ | ⟨live, _, walked⟩
            · rw [List.drop_nil]
              exact OpsOf.null w nextp
            · obtain ⟨ids, chain, facts⟩ := (sound.cycles nextp cycle).resolve_left live
              have walk := walkOps_chain walked
              have same : handles = ids := walk.unique chain
              refine ⟨_, chain_drop walk (handles.length - rest.length), ?_⟩
              intro id member
              exact facts id (same ▸ List.mem_of_mem_drop member)
          · intro x handle r inside
            exact fewer x handle r ((List.mem_cons.mp inside).resolve_left (fun same => Frame.noConfusion same))
        next response sent =>
          rw [← Option.some.inj stepped]
          have alive : w.unOps nextp ≠ nextp := by
            rcases last with ⟨rest, status, called⟩ | ⟨_, _, live⟩
            · rw [called] at sent
              cases sent
            · rcases cycleAt_cases seen with ⟨_, dead, _⟩ | ⟨alive, _, _⟩
              · exact absurd dead live
              · exact alive
          have allocated := sound.allocate (counted.unused _ (Nat.le_refl _)) (show Slot.response ≠ .cycle by decide)
          refine allocated.moves rfl rfl rfl rfl ?_ ?_
          · intro _ x handle r inside
            exact Or.inl (fewer x handle r ((List.mem_cons.mp inside).resolve_left
              (fun same => Frame.noConfusion same)))
          · intro entry inside
            have inside : entry ∈ w.queue ++ [⟨w.fresh, nextp, response, w.claims⟩] ++ stack.flatMap bad := inside
            simp only [List.mem_append, List.mem_singleton] at inside
            rcases inside with (before | rfl) | dead
            · left
              exact ⟨entry, List.mem_append_left _ before, rfl⟩
            · right
              exact alive
            · left
              refine ⟨entry, ?_, rfl⟩
              show entry ∈ waiting w
              rw [← wait]
              exact List.mem_append_right _ dead
        · cases stepped
    · cases stepped

theorem returns (sound : Sound clean w) (placed : Placed exact w listed []) {w₁ : World} {c handle : Nat}
    {responsep : Option Nat} {stack : List Frame} (stacked : w.stack = .callback c handle responsep :: stack)
    (destroyed : w.ebCycleDestroy c = some w₁) : Sound clean { w₁.free c with stack := stack } := by
  have here : Frame.callback c handle responsep ∈ w.stack := stacked ▸ List.mem_cons_self
  have cycle := (placed.calls c (List.mem_filterMap.mpr ⟨_, here, rfl⟩)).1
  obtain ⟨_, slots, _, _, _, _, queue⟩ := sound.destroy cycle destroyed
  obtain ⟨_, unheld⟩ := placed.returns stacked
  have wait : ∀ entry ∈ waiting { w₁.free c with stack := stack }, entry ∈ waiting { w with stack := stack } := by
    intro entry inside
    have inside : entry ∈ w₁.queue ++ stack.flatMap bad := inside
    rw [queue] at inside
    exact inside
  have before : ∀ entry ∈ waiting { w with stack := stack }, entry ∈ waiting w := by
    intro entry inside
    show entry ∈ w.queue ++ w.stack.flatMap bad
    rw [stacked]
    exact inside
  have freed : (w₁.free c).slot c = .freed := update_self _ _ _
  refine sound.discards cycle destroyed ?_ ?_ ?_ (fun _ _ => rfl) rfl rfl ?_ (fun entry inside =>
    before _ (wait _ inside)) ?_
  · intro x inside
    by_cases same : x = c
    · exact Or.inl same
    · exact Or.inr ((update_of_ne same _ _).symm.trans inside)
  · intro id operation
    have different : id ≠ c := by
      rintro rfl
      rw [(slots id).mpr cycle] at operation
      cases operation
    exact (update_of_ne different _ _).trans operation
  · intro inside
    have slot : Slot.freed = .cycle := freed.symm.trans inside
    cases slot
  · intro frame inside
    refine ⟨stacked ▸ List.mem_cons_of_mem _ inside, ?_⟩
    intro running
    exact unheld (Or.inr (Or.inr (Or.inl (List.mem_filterMap.mpr ⟨frame, inside, running⟩))))
  · rintro entry inside rfl
    exact unheld (Or.inr (Or.inl ⟨entry, wait _ inside, rfl⟩))

theorem free (sound : Sound clean w) {handle : Nat} (responded : Responded (w.slot handle)) :
    Sound clean (w.free handle) := by
  have other : ∀ x, x = handle → w.slot x ≠ .operation := by
    rintro x rfl operation
    rw [operation] at responded
    rcases responded with no | no <;> cases no
  have kept : ∀ c, Keeps w (w.free handle) c := by
    intro c id operation owned
    exact ⟨(update_of_ne (fun same => other id same operation) _ _).trans operation, owned, rfl⟩
  apply sound.keeps
  · intro c cycle
    have different : c ≠ handle := by
      rintro rfl
      have slot : (w.free c).slot c = .cycle := cycle
      rw [show (w.free c).slot c = .freed from update_self _ _ _] at slot
      cases slot
    exact Or.inl ⟨(update_of_ne different _ _).symm.trans cycle, rfl, kept c⟩
  · exact fun _ c handle r member => Or.inl ⟨member, kept c⟩
  · exact fun entry member => Or.inl ⟨entry, member, rfl, rfl⟩

end Sound

/-- `eb_device_close` finds no cycle that ran out of memory among those it never sent. -/
def Alive (w : World) : Event → Prop
  | .resume _ _ => ∀ devicep nextp stack, w.stack = .drain devicep nextp :: stack → nextp ≠ null → w.unOps nextp ≠ nextp
  | _ => True

theorem Sound.step {clean exact : Prop} {w w' : World} {listed : Nat → List Nat} {event : Event} (sound : Sound clean w)
    (placed : Placed exact w listed []) (counted : Counted w) (enabled : Enabled w event)
    (alive : clean → Alive w event) (stepped : Glue.step w event = some w') : Sound clean w' := by
  have holds := enabled.1
  have unused : w.slot w.fresh = .unused := counted.unused _ (Nat.le_refl _)
  cases event with
  | openDevice passive port mtu => exact Option.some.inj stepped ▸ sound.openDevice unused passive port mtu
  | openCycle devicep granted =>
    refine Option.some.inj stepped ▸ sound.openCycle unused ?_ devicep granted
    rintro entry member same
    exact placed.fresh_free (Or.inr (Or.inl ⟨entry, member, same⟩))
  | doop cyclep op granted => exact sound.doop placed counted holds stepped
  | close cyclep silently => exact sound.close placed counted holds stepped
  | abort cyclep => exact sound.abort placed counted holds stepped
  | flush devicep => exact sound.flush stepped
  | reply widths addr value => exact sound.reply placed stepped
  | expire => exact sound.expire placed stepped
  | linkDown devicep =>
    rw [← Option.some.inj stepped]
    exact sound.moves rfl rfl rfl rfl (fun _ _ _ _ here => Or.inl here) (fun entry here => Or.inl ⟨entry, here, rfl⟩)
  | closeDevice devicep => exact Option.some.inj stepped ▸ sound.closeDevice devicep
  | resume granted time =>
    have stepped : w.resume granted time = some w' := stepped
    unfold World.resume at stepped
    split at stepped
    · cases stepped
    next cyclep handle responsep stack stacked =>
      obtain ⟨w₁, destroyed, rfl⟩ := Option.map_eq_some_iff.mp stepped
      have returned := sound.returns placed stacked destroyed
      obtain ⟨_, responded⟩ := placed.released stacked destroyed
      cases responsep with
      | none => exact returned
      | some responsep => exact returned.free (responded responsep rfl)
    next devicep nextp pack stack stacked => exact sound.flushPass counted stacked stepped
    next devicep bad firstp stack stacked => exact sound.killPass placed stacked stepped
    next devicep nextp stack stacked =>
      exact sound.drainPass placed stacked (fun allowed => alive allowed devicep nextp stack stacked) stepped

theorem reach_sound {exact clean : Prop} {condition : World → Event → Prop}
    (orderly : ∀ w event, condition w event → Orderly w event)
    (undisturbed : exact → ∀ w event, condition w event → Undisturbed w event)
    (alive : clean → ∀ w event, condition w event → Alive w event) {w : World} (run : Reach condition w) :
    (∃ listed, Placed exact w listed []) ∧ Sound clean w := by
  induction run with
  | start => exact ⟨⟨_, placed_start exact⟩, sound_start clean⟩
  | event before enabled met stepped ih =>
    obtain ⟨⟨listed, placed⟩, sound⟩ := ih
    have counted := Counted.reach before
    exact ⟨placed.step counted enabled (orderly _ _ met) (fun precise => undisturbed precise _ _ met) stepped,
      sound.step placed counted enabled (fun allowed => alive allowed _ _ met) stepped⟩

end BelProject.Etherbone.Handles
