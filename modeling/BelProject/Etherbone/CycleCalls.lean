import BelProject.Etherbone.Placed

/-! What opening, filling, aborting and closing a cycle do to the places of the closed cycles. -/

namespace BelProject.Etherbone.Completion
open BelProject.Library LinkedList Width Operations Flush Glue Accounting

namespace Placed
open Function (update update_of_ne update_self)
variable {exact : Prop} {w w' : World} {listed : Nat → List Nat} {hand : List Nat} {c d cyclep : Nat}
  {frame : Frame} {stack : List Frame}

section
variable (placed : Placed exact w listed hand)
include placed

theorem drops (w' : World) (slots : ∀ handle, w'.slot handle = w.slot handle ∨
      w'.slot handle = .freed ∧ w.slot handle ≠ .device ∧ ¬ Held w listed hand handle) (fresh : w.fresh ≤ w'.fresh)
    (fewer : ∀ c ∈ w'.opened, c ∈ w.opened)
    (same : (w'.unLink, w'.ready, w'.queue, w'.stack, w'.closed, w'.home, w'.calls) =
      (w.unLink, w.ready, w.queue, w.stack, w.closed, w.home, w.calls)) : Placed exact w' listed hand := by
  apply placed.frees w' _ _ _ fresh fewer same
  · intro c held
    rcases slots c with kept | ⟨_, _, free⟩
    · exact kept.trans (placed.cycle_of_held held)
    · exact absurd held free
  · intro handle
    rcases slots handle with kept | ⟨freed, other, _⟩
    · rw [kept]
    · rw [freed]
      exact iff_of_false (by decide) other
  · intro handle responded
    rcases slots handle with kept | ⟨freed, _, _⟩
    · rw [kept]
      exact responded
    · exact Or.inr freed

theorem not_held_of_slot {handle : Nat} (other : w.slot handle ≠ .cycle) :
    ¬ Held w listed hand handle := fun held => other (placed.cycle_of_held held)

theorem destroy (destroyed : w.ebCycleDestroy cyclep = some w') : Placed exact w' listed hand := by
  rcases ebCycleDestroy_cases destroyed with ⟨_, rfl⟩ | ⟨handles, _, walked, rfl⟩
  · exact placed.drops _ (fun _ => Or.inl rfl) (Nat.le_refl _) (fun _ member => member) rfl
  · refine placed.drops _ ?_ (Nat.le_refl _) (fun _ member => member) rfl
    intro handle
    by_cases member : handle ∈ handles
    · right
      have operation := walkOps_slot walked handle member
      refine ⟨if_pos member, ?_, placed.not_held_of_slot ?_⟩
      · rw [operation]
        decide
      · rw [operation]
        decide
    · left
      exact if_neg member

theorem free {handle : Nat} (other : w.slot handle ≠ .device)
    (free : ¬ Held w listed hand handle) : Placed exact (w.free handle) listed hand := by
  refine placed.drops _ ?_ (Nat.le_refl _) (fun _ member => member) rfl
  intro h
  by_cases same : h = handle
  · subst same
    exact Or.inr ⟨update_self _ _ _, other, free⟩
  · exact Or.inl (update_of_ne same _ _)

end

section
variable (placed : Placed exact w listed [])
include placed

section
variable (counted : Counted w)
include counted

theorem doop {op : Operation}
    {granted : Bool} (stepped : w.ebCycleDoop cyclep op granted = some w') : Placed exact w' listed [] := by
  unfold World.ebCycleDoop at stepped
  cases granted with
  | true =>
    rw [if_pos rfl] at stepped
    split at stepped
    · rw [← Option.some.inj stepped]
      exact placed.allocate (counted.unused _ (Nat.le_refl _)) (by decide)
    · rw [← Option.some.inj stepped]
      have added := placed.allocate (counted.unused _ (Nat.le_refl _)) (show Slot.operation ≠ .device by decide)
      exact added.drops _ (fun _ => Or.inl rfl) (Nat.le_refl _) (fun _ member => member) rfl
  | false =>
    obtain ⟨w₁, destroyed, rfl⟩ := Option.map_eq_some_iff.mp stepped
    exact (placed.destroy destroyed).drops _ (fun _ => Or.inl rfl) (Nat.le_refl _) (fun _ member => member) rfl

theorem abort (member : cyclep ∈ w.opened) (stepped : w.ebCycleAbort cyclep = some w') : Placed exact w' listed [] := by
  unfold World.ebCycleAbort at stepped
  obtain ⟨w₁, destroyed, rfl⟩ := Option.map_eq_some_iff.mp stepped
  have started := placed.drops { w with unready := update w.unready (w.unLink cyclep) (w.unready (w.unLink cyclep) - 1) }
    (fun _ => Or.inl rfl) (Nat.le_refl _) (fun _ here => here) rfl
  have ended := started.destroy destroyed
  have opened : w₁.opened = w.opened := by
    rcases ebCycleDestroy_cases destroyed with ⟨_, rfl⟩ | ⟨handles, _, _, rfl⟩
    · rfl
    · rfl
  have slot : w₁.slot cyclep = .cycle := by
    have cycle := counted.slot_eq cyclep member
    rcases ebCycleDestroy_cases destroyed with ⟨_, rfl⟩ | ⟨handles, _, walked, rfl⟩
    · exact cycle
    · refine (if_neg ?_).trans cycle
      intro here
      have operation : w.slot cyclep = .operation := walkOps_slot walked cyclep here
      rw [cycle] at operation
      cases operation
  have freed := ended.free (show w₁.slot cyclep ≠ .device by rw [slot]; decide) (ended.opened_free (opened ▸ member))
  exact freed.drops _ (fun _ => Or.inl rfl) (Nat.le_refl _) (fun _ here => List.mem_of_mem_erase here) rfl

theorem openCycle {devicep : Nat} (device : w.slot devicep = .device) (granted : Bool) :
    Placed exact (w.ebCycleOpen devicep granted).1 listed [] := by
  unfold World.ebCycleOpen
  cases granted with
  | false => exact placed
  | true =>
    rw [if_pos rfl]
    split
    · exact placed.allocate (counted.unused _ (Nat.le_refl _)) (by decide)
    next active =>
      have allocated := placed.allocate (counted.unused _ (Nat.le_refl _)) (show Slot.cycle ≠ .device by decide)
      have unheld : ¬ Held w listed [] w.fresh := placed.fresh_free
      have known : ∀ c, Held w listed [] c → c ≠ w.fresh := by
        rintro c held rfl
        exact unheld held
      have homes : ∀ c, Held w listed [] c → update w.home w.fresh devicep c = w.home c :=
        fun c held => update_of_ne (known c held) _ _
      have links : ∀ d, ∀ c ∈ listed d, update w.unLink w.fresh devicep c = w.unLink c :=
        fun d c member => update_of_ne (known c (Or.inl ⟨d, member⟩)) _ _
      have held_wait : ∀ entry ∈ waiting w, Held w listed [] entry.cycle :=
        fun entry member => Or.inr (Or.inl ⟨entry, member, rfl⟩)
      have tallied : ∀ c, tally { w with home := update w.home w.fresh devicep } listed [] c = tally w listed [] c := by
        intro c
        by_cases same : c = w.fresh
        · -- nothing holds a handle that was never given out
          have nowhere : ∀ d, (listed d).count w.fresh = 0 :=
            fun d => List.count_eq_zero.mpr fun member => unheld (Or.inl ⟨d, member⟩)
          subst same
          show (listed (update w.home w.fresh devicep w.fresh)).count w.fresh + _ + _ + _ = _
          rw [nowhere]
          show 0 + _ + _ + _ = (listed (w.home w.fresh)).count w.fresh + _ + _ + _
          rw [nowhere]
          rfl
        · show (listed (update w.home w.fresh devicep c)).count c + _ + _ + _ = _
          rw [update_of_ne same]
          rfl
      constructor
      · intro d c member
        obtain ⟨cycle, home⟩ := allocated.listed_cycle d c member
        exact ⟨cycle, (homes c (Or.inl ⟨d, member⟩)).trans home⟩
      · intro d here outside
        rcases allocated.idle d here outside with served | ⟨ready, chain⟩
        · exact Or.inl served
        · exact Or.inr ⟨ready, chain.congr (links d)⟩
      · intro frame member d works
        obtain ⟨slot, chain, ready⟩ := allocated.work frame member d works
        exact ⟨slot, chain.congr (links d), ready⟩
      · exact placed.apart
      · exact allocated.gone
      · intro entry member
        obtain ⟨cycle, link, response⟩ := allocated.wait entry member
        have held := held_wait entry member
        refine ⟨cycle, ?_, response⟩
        show update w.unLink w.fresh devicep entry.cycle = update w.home w.fresh devicep entry.cycle
        rw [homes _ held, update_of_ne (known _ held)]
        exact link
      · intro entry member
        have held := held_wait entry (List.mem_append_left _ member)
        show (w.allocate .cycle).slot (update w.home w.fresh devicep entry.cycle) = _ ∧
          w.ready (update w.home w.fresh devicep entry.cycle) ≠ update w.home w.fresh devicep entry.cycle
        rw [homes _ held]
        exact allocated.queued entry member
      · intro frame member entry dead
        have held := held_wait entry (List.mem_append_right _ (List.mem_flatMap.mpr ⟨frame, member, dead⟩))
        show _ = some (update w.home w.fresh devicep entry.cycle)
        rw [homes _ held]
        exact placed.killed frame member entry dead
      · exact allocated.calls
      · exact placed.called_nodup
      · exact allocated.responses
      · intro c member
        show (w.allocate .cycle).slot (update w.home w.fresh devicep c) = _ ∧
          w.ready (update w.home w.fresh devicep c) ≠ update w.home w.fresh devicep c ∧ c ∉ w.closed
        rcases List.mem_cons.mp member with rfl | later
        · rw [update_self]
          have used : devicep ≠ w.fresh := Nat.ne_of_lt (counted.lt_fresh (by rw [device]; decide))
          refine ⟨(update_of_ne used _ _).trans device, active, ?_⟩
          exact fun closed => Nat.lt_irrefl _ (placed.closed.2 _ closed)
        · rw [update_of_ne (Nat.ne_of_lt (counted.opened_lt later))]
          exact allocated.opened c later
      · exact allocated.closed
      · exact fun _ member => nomatch member
      · exact fun c => (tallied c).le.trans (placed.tally_le c)
      · exact fun precise c => (placed.kept precise c).trans (tallied c).ge
      · exact allocated.nonnull

/-- A closed cycle goes in front of the ready cycles of its device. While the device is being
flushed nobody will find it there. -/
theorem closes (member : c ∈ w.opened) (undisturbed : exact → w.home c ∉ working w.stack) :
    ∃ listed', Placed exact { w with
      unLink := update w.unLink c (w.ready (w.home c))
      ready := update w.ready (w.home c) c
      opened := w.opened.erase c
      closed := c :: w.closed } listed' [] := by
  obtain ⟨device, active, unclosed⟩ := placed.opened c member
  have cycle := counted.slot_eq c member
  have unheld := placed.opened_free member
  have nonnull : c ≠ null := by
    rintro rfl
    exact counted.null_old.2 member
  have different : c ≠ w.home c := by
    intro same
    rw [← same, cycle] at device
    cases device
  have apart : ∀ d, c ∉ listed d := fun d here => unheld (Or.inl ⟨d, here⟩)
  -- the device is not closing, before and after
  have actives : ∀ d, w.ready d ≠ d → update w.ready (w.home c) c d ≠ d := by
    intro d before
    by_cases same : d = w.home c
    · rw [same, update_self]
      exact different
    · rw [update_of_ne same]
      exact before
  have wait : ∀ entry ∈ waiting w, w.slot entry.cycle = .cycle ∧
      update w.unLink c (w.ready (w.home c)) entry.cycle = w.home entry.cycle ∧ Responded (w.slot entry.slot) := by
    intro entry here
    obtain ⟨cycle, link, response⟩ := placed.wait entry here
    refine ⟨cycle, ?_, response⟩
    rw [update_of_ne]
    · exact link
    · rintro rfl
      exact unheld (Or.inr (Or.inl ⟨entry, here, rfl⟩))
  have opened : ∀ other ∈ w.opened.erase c, w.slot (w.home other) = .device ∧
      update w.ready (w.home c) c (w.home other) ≠ w.home other ∧ other ∉ c :: w.closed := by
    intro other here
    obtain ⟨device, active, unclosed⟩ := placed.opened other (List.mem_of_mem_erase here)
    refine ⟨device, actives _ active, ?_⟩
    rw [List.mem_cons, not_or]
    refine ⟨?_, unclosed⟩
    rintro rfl
    exact counted.nodup.not_mem_erase here
  have closed : (c :: w.closed).Nodup ∧ ∀ other ∈ c :: w.closed, other < w.fresh := by
    refine ⟨List.nodup_cons.mpr ⟨unclosed, placed.closed.1⟩, ?_⟩
    intro other here
    rcases List.mem_cons.mp here with rfl | later
    · exact counted.opened_lt member
    · exact placed.closed.2 other later
  have queued : ∀ entry ∈ w.queue, w.slot (w.home entry.cycle) = .device ∧
      update w.ready (w.home c) c (w.home entry.cycle) ≠ w.home entry.cycle :=
    fun entry here => ⟨(placed.queued entry here).1, actives _ (placed.queued entry here).2⟩
  have elsewhere : ∀ d, d ≠ w.home c → w.slot d = .device → d ∉ working w.stack →
      (update w.ready (w.home c) c d = d ∧ listed d = []) ∨ (update w.ready (w.home c) c d ≠ d ∧
        Chain null (update w.unLink c (w.ready (w.home c))) (update w.ready (w.home c) c d) (listed d)) := by
    intro d other here outside
    rw [update_of_ne other]
    rcases placed.idle d here outside with served | ⟨ready, chain⟩
    · exact Or.inl served
    · exact Or.inr ⟨ready, chain.frame (apart d)⟩
  by_cases busy : w.home c ∈ working w.stack
  · refine ⟨listed, ?_⟩
    refine { placed with
        idle := ?_, work := ?_, wait := wait, queued := queued, opened := opened, closed := closed,
        hand_cycle := List.forall_mem_nil _, tally_le := ?_,
        kept := fun precise => absurd busy (undisturbed precise) }
    · intro d here outside
      apply elsewhere d _ here outside
      rintro rfl
      exact outside busy
    · intro frame here d works
      obtain ⟨slot, chain, ready⟩ := placed.work frame here d works
      refine ⟨slot, chain.frame (apart d), ?_⟩
      show closing frame = true ↔ update w.ready (w.home c) c d = d
      by_cases same : d = w.home c
      · subst same
        rw [ready, update_self]
        exact iff_of_false active different
      · rw [update_of_ne same]
        exact ready
    · intro x
      exact (placed.tally_le x).trans (List.count_le_count_cons)
  · refine ⟨update listed (w.home c) (c :: listed (w.home c)), ?_⟩
    have chain : Chain null w.unLink (w.ready (w.home c)) (listed (w.home c)) := by
      rcases placed.idle _ device busy with served | ready
      · exact absurd served.1 active
      · exact ready.2
    have tallied : ∀ x, tally { w with
        unLink := update w.unLink c (w.ready (w.home c))
        ready := update w.ready (w.home c) c
        opened := w.opened.erase c
        closed := c :: w.closed } (update listed (w.home c) (c :: listed (w.home c))) [] x =
        tally w listed [] x + if c == x then 1 else 0 := by
      intro x
      show (update listed (w.home c) (c :: listed (w.home c)) (w.home x)).count x + _ + w.calls.count x + 0 = _
      by_cases same : w.home x = w.home c
      · rw [same, update_self, List.count_cons, ← same]
        show _ + ((waiting w).map Entry.cycle).count x + _ + 0 =
          (listed (w.home x)).count x + ((waiting w).map Entry.cycle).count x + w.calls.count x + 0 + _
        omega
      · rw [update_of_ne same, if_neg]
        · rfl
        · intro equal
          exact same (congrArg w.home (beq_iff_eq.mp equal)).symm
    refine { placed with
        listed_cycle := ?_, idle := ?_, work := ?_, gone := ?_, wait := wait, queued := queued, opened := opened,
        closed := closed, hand_cycle := List.forall_mem_nil _, tally_le := ?_, kept := ?_ }
    · intro d x here
      by_cases same : d = w.home c
      · subst same
        rw [update_self] at here
        rcases List.mem_cons.mp here with rfl | later
        · exact ⟨cycle, rfl⟩
        · exact placed.listed_cycle _ x later
      · rw [update_of_ne same] at here
        exact placed.listed_cycle d x here
    · intro d here outside
      by_cases same : d = w.home c
      · subst same
        right
        show update w.ready (w.home c) c (w.home c) ≠ w.home c ∧ Chain null
          (update w.unLink c (w.ready (w.home c))) (update w.ready (w.home c) c (w.home c)) _
        rw [update_self, update_self]
        exact ⟨different, chain.push (apart _) nonnull⟩
      · rw [update_of_ne same]
        exact elsewhere d same here outside
    · intro frame here d works
      have other : d ≠ w.home c := by
        rintro rfl
        exact busy (mem_working here works)
      obtain ⟨slot, chain, ready⟩ := placed.work frame here d works
      rw [update_of_ne other]
      refine ⟨slot, chain.frame (apart d), ?_⟩
      show closing frame = true ↔ update w.ready (w.home c) c d = d
      rw [update_of_ne other]
      exact ready
    · intro d lost
      have other : d ≠ w.home c := by
        rintro rfl
        exact lost device
      rw [update_of_ne other]
      exact placed.gone d lost
    · intro x
      rw [tallied x]
      show _ ≤ (c :: w.closed).count x
      rw [List.count_cons]
      exact Nat.add_le_add_right (placed.tally_le x) _
    · intro precise x
      rw [tallied x]
      show (c :: w.closed).count x ≤ _
      rw [List.count_cons]
      exact Nat.add_le_add_right (placed.kept precise x) _

theorem close {silently : Bool} (member : cyclep ∈ w.opened) (undisturbed : exact → w.home cyclep ∉ working w.stack)
    (stepped : w.ebCycleClose cyclep silently = some w') : ∃ listed', Placed exact w' listed' [] := by
  obtain ⟨listed', queued⟩ := placed.closes counted member undisturbed
  refine ⟨listed', ?_⟩
  unfold World.ebCycleClose at stepped
  obtain ⟨w₁, raw, rfl⟩ := Option.map_eq_some_iff.mp stepped
  have closed : Placed exact w₁ listed' [] := by
    unfold World.ebRawCycleClose at raw
    rw [counted.linked cyclep member] at raw
    split at raw
    · rw [← Option.some.inj raw]
      exact queued.drops _ (fun _ => Or.inl rfl) (Nat.le_refl _) (fun _ here => here) rfl
    · obtain ⟨⟨opNext, first⟩, _, rfl⟩ := Option.map_eq_some_iff.mp raw
      exact queued.drops _ (fun _ => Or.inl rfl) (Nat.le_refl _) (fun _ here => here) rfl
  split
  · exact closed.drops _ (fun _ => Or.inl rfl) (Nat.le_refl _) (fun _ here => here) rfl
  · exact closed

end

end

theorem length_le (placed : Placed exact w listed hand) (counted : Counted w) {d first : Nat}
    (chain : Chain null w.unLink first (listed d)) : (listed d).length ≤ w.fresh := by
  have below : (listed d).toFinset ⊆ Finset.range w.fresh := by
    intro c member
    rw [List.mem_toFinset] at member
    rw [Finset.mem_range]
    apply counted.lt_fresh
    rw [(placed.listed_cycle d c member).1]
    decide
  calc (listed d).length = (listed d).toFinset.card := (List.toFinset_card_of_nodup chain.nodup).symm
    _ ≤ (Finset.range w.fresh).card := Finset.card_le_card below
    _ = w.fresh := Finset.card_range _

end Placed

end BelProject.Etherbone.Completion
