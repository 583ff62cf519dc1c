import BelProject.Etherbone.Handles

/-! Runs of the library: no function of it gets stuck on a dead handle, every closed cycle is
called back once, and the callback gets the operations of its own cycle. -/

namespace BelProject.Etherbone.ExactlyOnce
open BelProject.Library LinkedList Flush Glue Accounting Completion Handles

section
variable {exact clean : Prop} {w : World} {listed : Nat → List Nat}

theorem walkOps_defined (fuel : Nat) {handle : Nat} {ids : List Nat} (chain : Chain null w.opNext handle ids)
    (slots : ∀ id ∈ ids, w.slot id = .operation) (enough : ids.length < fuel) : w.walkOps fuel handle = some ids := by
  induction ids generalizing fuel handle with
  | nil =>
    obtain ⟨fuel, rfl⟩ := Nat.exists_eq_succ_of_ne_zero (Nat.ne_of_gt enough)
    unfold World.walkOps
    rw [if_pos (show handle = null from chain)]
  | cons id ids ih =>
    obtain ⟨fuel, rfl⟩ := Nat.exists_eq_succ_of_ne_zero (Nat.ne_of_gt (Nat.lt_of_le_of_lt (Nat.zero_le _) enough))
    obtain ⟨rfl, more, rest⟩ := chain
    unfold World.walkOps
    rw [if_neg more, if_pos (slots handle List.mem_cons_self),
      ih fuel rest (fun id member => slots id (List.mem_cons_of_mem _ member)) (Nat.lt_of_succ_lt_succ enough)]
    rfl

theorem operations_defined (sound : Sound clean w) (counted : Counted w) {c : Nat} (cycle : w.slot c = .cycle)
    (live : w.unOps c ≠ c) : ∃ handles, w.operations c = some handles := by
  obtain ⟨ids, chain, facts⟩ := (sound.cycles c cycle).resolve_left live
  have length := Sound.length_le counted chain facts
  exact ⟨ids, walkOps_defined _ chain (fun id member => (facts id member).1) (by omega)⟩

theorem operations_congr {c : Nat} {handles : List Nat} (walked : w.operations c = some handles) (w' : World)
    (slot : w'.slot = w.slot) (opNext : w'.opNext = w.opNext) (unOps : w'.unOps = w.unOps)
    (fresh : w'.fresh = w.fresh) :
    w'.operations c = some handles := by
  have same : ∀ fuel handle, w'.walkOps fuel handle = w.walkOps fuel handle := by
    intro fuel
    induction fuel with
    | zero => exact fun _ => rfl
    | succ fuel ih =>
      intro handle
      rw [World.walkOps, World.walkOps, slot, opNext, ih]
  rw [World.operations, same, fresh, unOps]
  exact walked

theorem destroy_defined (sound : Sound clean w) (counted : Counted w) {c : Nat} (cycle : w.slot c = .cycle) :
    ∃ w', w.ebCycleDestroy c = some w' := by
  unfold World.ebCycleDestroy
  split
  · exact ⟨_, rfl⟩
  next live =>
    obtain ⟨handles, walked⟩ := operations_defined sound counted cycle live
    rw [walked]
    exact ⟨_, rfl⟩

theorem flip_defined (placed : Placed exact w listed []) (counted : Counted w) {d first : Nat}
    (chain : Chain null w.unLink first (listed d)) :
    ∃ result, flip null (w.fresh + 1) w.unLink first null = some result := by
  have length := placed.length_le counted chain
  obtain ⟨unLink, prevp, run, _⟩ := flip_spec (w.fresh + 1) chain (show Chain null w.unLink null [] from Chain.nil)
    (List.disjoint_nil_right _) (by omega)
  exact ⟨_, run⟩

theorem call_defined {c handle : Nat} {responsep : Option Nat} {stack : List Frame} (cycle : w.slot c = .cycle) :
    ∃ w', w.call c handle responsep stack = some w' := by
  unfold World.call
  rw [if_pos cycle]
  exact ⟨_, rfl⟩

theorem close_defined (sound : Sound clean w) (counted : Counted w) {c : Nat} (member : c ∈ w.opened)
    (silently : Bool) :
    ∃ w', w.ebCycleClose c silently = some w' := by
  have cycle := counted.slot_eq c member
  have raw : ∃ w', w.ebRawCycleClose c = some w' := by
    unfold World.ebRawCycleClose
    split
    · exact ⟨_, rfl⟩
    next live =>
      obtain ⟨ids, chain, facts⟩ := (sound.cycles c cycle).resolve_left live
      have length := Sound.length_le counted chain facts
      obtain ⟨opNext, first, run, _⟩ := flip_spec (w.fresh + 1) chain (show Chain null w.opNext null [] from Chain.nil)
        (List.disjoint_nil_right _) (by omega)
      rw [run]
      exact ⟨_, rfl⟩
  obtain ⟨w', raw⟩ := raw
  unfold World.ebCycleClose
  rw [raw]
  exact ⟨_, rfl⟩

theorem flushPass_defined (sound : Sound clean w) (placed : Placed exact w listed [])
    (counted : Counted w) {granted : Bool}
    {time devicep nextp : Nat} {pack : Pack} {stack : List Frame}
    (stacked : w.stack = .flush devicep nextp pack :: stack) :
    ∃ w', w.flushPass granted time devicep nextp pack stack = some w' := by
  unfold World.flushPass
  split
  · exact ⟨_, rfl⟩
  next more =>
    obtain ⟨items, list, _⟩ := placed.take (.flush devicep (w.unLink nextp) pack) stacked rfl rfl more rfl rfl rfl rfl
    have cycle : w.slot nextp = .cycle := (placed.listed_cycle devicep nextp (list ▸ List.mem_cons_self)).1
    rw [if_pos cycle]
    have seen : ∃ view handles, ({ w with unLink := Function.update w.unLink nextp devicep } : World).cycleAt nextp =
        some (view, handles) := by
      unfold World.cycleAt
      split
      · exact ⟨_, _, rfl⟩
      next live =>
        obtain ⟨ids, walked⟩ := operations_defined sound counted cycle live
        have walked' :=
          operations_congr walked { w with unLink := Function.update w.unLink nextp devicep } rfl rfl rfl rfl
        exact ⟨_, ids, by rw [walked']; rfl⟩
    obtain ⟨view, handles, seen⟩ := seen
    dsimp only
    rw [seen]
    dsimp only
    have last := flushCycle_last (w.port devicep) (w.mtu devicep) time (fun _ => granted)
      { pack with rba := w.rba } view
    rcases last with ⟨rest, status, called⟩ | ⟨response, sent, _⟩
    · rw [called]
      exact call_defined cycle
    · rw [sent]
      exact ⟨_, rfl⟩

theorem resume_defined (sound : Sound clean w) (placed : Placed exact w listed []) (counted : Counted w)
    (busy : w.stack ≠ []) (granted : Bool) (time : Nat) : ∃ w', w.resume granted time = some w' := by
  unfold World.resume
  split
  next idle => exact absurd idle busy
  next cyclep handle responsep stack stacked =>
    have here : Frame.callback cyclep handle responsep ∈ w.stack := stacked ▸ List.mem_cons_self
    have cycle := (placed.calls cyclep (List.mem_filterMap.mpr ⟨_, here, rfl⟩)).1
    obtain ⟨w₁, destroyed⟩ := destroy_defined sound counted cycle
    rw [destroyed]
    exact ⟨_, rfl⟩
  next devicep nextp pack stack stacked => exact flushPass_defined sound placed counted stacked
  next devicep entries firstp stack stacked =>
    have here : Frame.kill devicep entries firstp ∈ w.stack := stacked ▸ List.mem_cons_self
    unfold World.killPass
    split
    next entry rest =>
      exact call_defined (placed.wait entry
        (List.mem_append_right _ (List.mem_flatMap.mpr ⟨_, here, List.mem_cons_self⟩))).1
    · obtain ⟨result, flipped⟩ := flip_defined placed counted (placed.work _ here devicep rfl).2.1
      rw [show firstp = Completion.firstp (.kill devicep [] firstp) from rfl, flipped]
      exact ⟨_, rfl⟩
  next devicep nextp stack stacked =>
    unfold World.drainPass
    split
    · exact ⟨_, rfl⟩
    next more =>
      obtain ⟨items, list, _⟩ := placed.take (.drain devicep (w.unLink nextp)) stacked rfl rfl more rfl rfl rfl rfl
      exact call_defined (placed.listed_cycle devicep nextp (list ▸ List.mem_cons_self)).1

theorem step_defined (sound : Sound clean w) (placed : Placed exact w listed []) (counted : Counted w) {event : Event}
    (enabled : Enabled w event) (orderly : Orderly w event)
    (busy : (∃ granted time, event = .resume granted time) → w.stack ≠ []) : ∃ w', step w event = some w' := by
  have holds := enabled.1
  cases event with
  | openDevice passive port mtu => exact ⟨_, rfl⟩
  | openCycle devicep granted => exact ⟨_, rfl⟩
  | doop cyclep op granted =>
    show ∃ w', w.ebCycleDoop cyclep op granted = some w'
    unfold World.ebCycleDoop
    cases granted with
    | true =>
      rw [if_pos rfl]
      split
      · exact ⟨_, rfl⟩
      · exact ⟨_, rfl⟩
    | false =>
      obtain ⟨w₁, destroyed⟩ := destroy_defined sound counted (counted.slot_eq cyclep holds)
      rw [destroyed]
      exact ⟨_, rfl⟩
  | close cyclep silently => exact close_defined sound counted holds silently
  | abort cyclep =>
    show ∃ w', w.ebCycleAbort cyclep = some w'
    unfold World.ebCycleAbort World.ebCycleDestroy
    dsimp only
    split
    · exact ⟨_, rfl⟩
    next live =>
      obtain ⟨ids, walked⟩ := operations_defined sound counted (counted.slot_eq cyclep holds) live
      have walked' := operations_congr walked { w with
        unready := Function.update w.unready (w.unLink cyclep) (w.unready (w.unLink cyclep) - 1) } rfl rfl rfl rfl
      rw [walked']
      exact ⟨_, rfl⟩
  | flush devicep =>
    show ∃ w', w.ebDeviceFlush devicep = some w'
    unfold World.ebDeviceFlush
    split
    · rcases placed.idle devicep holds.1 orderly with served | ⟨_, chain⟩
      · exact absurd served.1 holds.2
      · obtain ⟨result, flipped⟩ := flip_defined placed counted chain
        rw [flipped]
        exact ⟨_, rfl⟩
    · exact ⟨_, rfl⟩
  | reply widths addr value =>
    show ∃ w', w.ebSocketWriteConfig widths addr value = some w'
    unfold World.ebSocketWriteConfig
    split
    · exact ⟨_, rfl⟩
    next i found =>
      obtain ⟨short, _⟩ := List.findIdx?_eq_some_iff_getElem.mp found
      rw [List.getElem?_eq_getElem short]
      dsimp only
      split
      · exact call_defined (placed.wait _ (List.mem_append_left _ (List.getElem_mem short))).1
      · exact ⟨_, rfl⟩
  | expire =>
    show ∃ w', w.expire = some w'
    unfold World.expire
    split
    · exact ⟨_, rfl⟩
    next entry queue queued =>
      exact call_defined (placed.wait entry (List.mem_append_left _ (queued ▸ List.mem_cons_self))).1
  | linkDown devicep => exact ⟨_, rfl⟩
  | closeDevice devicep => exact ⟨_, rfl⟩
  | resume granted time => exact resume_defined sound placed counted (busy ⟨granted, time, rfl⟩) granted time

end

def after (w : World) (event : Event) : World := (step w event).getD w

def Plays (condition : World → Event → Prop) : World → List Event → Prop
  | _, [] => True
  | w, event :: events =>
    (Enabled w event ∧ condition w event ∧ (step w event).isSome) ∧ Plays condition (after w event) events

theorem Plays.reach {condition : World → Event → Prop} {w : World} {events : List Event} (before : Reach condition w)
    (plays : Plays condition w events) : Reach condition (events.foldl after w) := by
  induction events generalizing w with
  | nil => exact before
  | cons event events ih =>
    obtain ⟨⟨enabled, met, defined⟩, later⟩ := plays
    apply ih _ later
    apply Reach.event before enabled met
    obtain ⟨w', stepped⟩ := Option.isSome_iff_exists.mp defined
    rw [after, stepped]
    rfl

def Aborted (w : World) (c : Nat) : Prop := w.home c ≠ null ∧ c ∉ w.opened ∧ c ∉ w.closed

def Proceeds (w : World) : Prop :=
  ∀ event, Enabled w event → Orderly w event → ((∃ granted time, event = .resume granted time) → w.stack ≠ []) →
    ∃ w', step w event = some w'

/-- In every run in which nobody works on a device twice at a time, closes it under a multiple of
256 open cycles or closes a cycle of it in a callback of its flush, a closed cycle is called
back at most once, and exactly once by the time its device is gone; an aborted one never is. -/
theorem callback_exactly_once {w : World} (run : Reach (fun w event => Orderly w event ∧
    Undisturbed w event) w) (c : Nat) :
    w.calls.count c ≤ 1 ∧ (Aborted w c → c ∉ w.calls) ∧
      (c ∈ w.closed → w.slot (w.home c) ≠ .device → w.calls.count c = 1) ∧ Proceeds w := by
  obtain ⟨⟨listed, placed⟩, sound⟩ := @reach_sound True False _ (fun _ _ met => met.1)
    (fun _ _ _ met => met.2) (fun no => no.elim) w run
  have counted := Counted.reach run
  have one := placed.alone c
  have most := placed.tally_le c
  have least := placed.kept trivial c
  refine ⟨?_, ?_, ?_, ?_⟩
  · unfold tally at one
    omega
  · intro aborted member
    have called := List.one_le_count_iff.mpr member
    rw [List.count_eq_zero.mpr aborted.2.2] at most
    unfold tally at most
    omega
  · intro closed gone
    have count : w.closed.count c = 1 := List.count_eq_one_of_mem placed.closed.1 closed
    have unlisted : (listed (w.home c)).count c = 0 := by
      rw [placed.gone _ gone]
      rfl
    -- a response in flight or being killed belongs to a device that is still there
    have unsent : ((waiting w).map Entry.cycle).count c = 0 := by
      apply List.count_eq_zero.mpr
      intro member
      obtain ⟨entry, here, rfl⟩ := List.mem_map.mp member
      rcases List.mem_append.mp here with queued | dead
      · exact gone (placed.queued entry queued).1
      · obtain ⟨frame, stacked, dead⟩ := List.mem_flatMap.mp dead
        exact gone (placed.work frame stacked _ (placed.killed frame stacked entry dead)).1
    unfold tally at one least
    rw [unlisted, unsent, count] at least
    rw [List.count_nil] at least
    omega
  · intro event enabled orderly busy
    exact step_defined sound placed counted enabled orderly busy

/-- A cycle is opened, closed and flushed; its callback opens and closes another one. -/
def disturbed : List Event :=
  [.openDevice false .wishbone32 0, .openCycle 1 true, .close 2 true, .flush 1, .resume true 0, .openCycle 1 true,
    .close 3 true, .resume true 0, .resume true 0, .closeDevice 1, .resume true 0, .resume true 0]

theorem disturbed_plays : Plays (fun _ _ => True) .start disturbed := by
  have resumes : ∀ w, Enabled w (.resume true 0) := fun w => ⟨trivial, fun no => absurd rfl (no true 0)⟩
  exact ⟨⟨⟨trivial, fun _ => trivial⟩, trivial, rfl⟩, ⟨⟨rfl, fun _ => trivial⟩, trivial, rfl⟩,
    ⟨⟨List.Mem.head _, fun _ => trivial⟩, trivial, rfl⟩, ⟨⟨⟨rfl, by decide⟩, fun _ => trivial⟩, trivial, rfl⟩,
    ⟨resumes _, trivial, rfl⟩, ⟨⟨rfl, fun _ => trivial⟩, trivial, rfl⟩,
      ⟨⟨List.Mem.head _, fun _ => trivial⟩, trivial, rfl⟩,
    ⟨resumes _, trivial, rfl⟩, ⟨resumes _, trivial, rfl⟩, ⟨⟨rfl, fun _ => trivial⟩, trivial, rfl⟩,
      ⟨resumes _, trivial, rfl⟩,
    ⟨resumes _, trivial, rfl⟩, trivial⟩

/-- The second cycle was closed, its device is gone, and nobody called it back. -/
theorem callback_lost : ∃ w, Reach (fun _ _ => True) w ∧ 3 ∈ w.closed ∧ w.home 3 = 1 ∧ w.slot 1 = .freed ∧
    w.calls.count 3 = 0 := by
  refine ⟨_, disturbed_plays.reach .start, ?_, ?_, ?_, ?_⟩
  · exact List.Mem.head _
  · rfl
  · rfl
  · rfl

def undisturbed : List Event :=
  [.openDevice false .wishbone32 0, .openCycle 1 true, .close 2 true, .flush 1, .resume true 0, .resume true 0,
    .resume true 0, .closeDevice 1, .resume true 0, .resume true 0]

theorem undisturbed_plays : Plays (fun w event => Orderly w event ∧ Undisturbed w event) .start undisturbed := by
  have resumes : ∀ w, Enabled w (.resume true 0) := fun w => ⟨trivial, fun no => absurd rfl (no true 0)⟩
  exact ⟨⟨⟨trivial, fun _ => trivial⟩, ⟨trivial, trivial⟩, rfl⟩, ⟨⟨rfl, fun _ => trivial⟩, ⟨trivial, trivial⟩, rfl⟩,
    ⟨⟨List.Mem.head _, fun _ => trivial⟩, ⟨trivial, List.not_mem_nil⟩, rfl⟩,
    ⟨⟨⟨rfl, by decide⟩, fun _ => trivial⟩, ⟨List.not_mem_nil, trivial⟩, rfl⟩, ⟨resumes _, ⟨trivial, trivial⟩, rfl⟩,
    ⟨resumes _, ⟨trivial, trivial⟩, rfl⟩, ⟨resumes _, ⟨trivial, trivial⟩, rfl⟩,
    ⟨⟨rfl, fun _ => trivial⟩, ⟨⟨List.not_mem_nil, fun _ => rfl⟩, trivial⟩, rfl⟩, ⟨resumes _, ⟨trivial, trivial⟩, rfl⟩,
    ⟨resumes _, ⟨trivial, trivial⟩, rfl⟩, trivial⟩

/-- It is called back once. -/
theorem callback_exactly_once_flushed :
    2 ∈ (undisturbed.foldl after .start).closed ∧ (undisturbed.foldl after .start).calls.count 2 = 1 := by
  have closed : 2 ∈ (undisturbed.foldl after .start).closed := List.Mem.head _
  have gone : (undisturbed.foldl after .start).slot ((undisturbed.foldl after .start).home 2) = .freed := rfl
  refine ⟨closed, (callback_exactly_once (undisturbed_plays.reach .start) 2).2.2.1 closed ?_⟩
  rw [gone]
  decide

/-- The handle a callback gets is `EB_NULL` or starts a list of live operations of its cycle, in
every run in which `eb_device_close` finds no cycle that ran out of memory. -/
theorem callback_handle {w : World} (run : Reach (fun w event => Orderly w event ∧ Alive w event) w) {c handle : Nat}
    {responsep : Option Nat} (running : .callback c handle responsep ∈ w.stack) : OpsOf w c handle := by
  obtain ⟨_, sound⟩ := @reach_sound False True _ (fun _ _ met => met.1) (fun no => no.elim)
    (fun _ _ _ met => met.2) w run
  exact sound.handles trivial c handle responsep running

/-- An operation is added to a cycle, with memory for it or not, and the device is closed. -/
def unsent (granted : Bool) : List Event :=
  [.openDevice false .wishbone32 0, .openCycle 1 true, .doop 2 ⟨0, 0, .write, false, false, false, 0⟩ granted,
    .close 2 true, .closeDevice 1, .resume true 0, .resume true 0]

theorem unsent_plays : Plays (fun w event => Orderly w event ∧ Alive w event) .start (unsent true) := by
  have resumes : ∀ w, Enabled w (.resume true 0) := fun w => ⟨trivial, fun no => absurd rfl (no true 0)⟩
  refine ⟨⟨⟨trivial, fun _ => trivial⟩, ⟨trivial, trivial⟩, rfl⟩, ⟨⟨rfl, fun _ => trivial⟩, ⟨trivial, trivial⟩, rfl⟩,
    ⟨⟨List.Mem.head _, fun _ => trivial⟩, ⟨trivial, trivial⟩, rfl⟩,
    ⟨⟨List.Mem.head _, fun _ => trivial⟩, ⟨trivial, trivial⟩, rfl⟩,
    ⟨⟨rfl, fun _ => trivial⟩, ⟨⟨List.not_mem_nil, fun _ => rfl⟩, trivial⟩, rfl⟩, ⟨resumes _, ⟨trivial, ?_⟩, rfl⟩,
    ⟨resumes _, ⟨trivial, ?_⟩, rfl⟩, trivial⟩
  · intro devicep nextp stack stacked
    cases stacked
  · intro devicep nextp stack stacked _ dead
    cases stacked
    cases dead

/-- The operation handed to the callback is the one that was added. -/
theorem callback_handle_unsent : ((unsent true).foldl after .start).stack.length = 2 ∧
    OpsOf ((unsent true).foldl after .start) 2 3 :=
  ⟨rfl, callback_handle (unsent_plays.reach .start) (List.Mem.head _)⟩

theorem unsent_plays_dead : Plays (fun _ _ => True) .start (unsent false) := by
  have resumes : ∀ w, Enabled w (.resume true 0) := fun w => ⟨trivial, fun no => absurd rfl (no true 0)⟩
  exact ⟨⟨⟨trivial, fun _ => trivial⟩, trivial, rfl⟩, ⟨⟨rfl, fun _ => trivial⟩, trivial, rfl⟩,
    ⟨⟨List.Mem.head _, fun _ => trivial⟩, trivial, rfl⟩, ⟨⟨List.Mem.head _, fun _ => trivial⟩, trivial, rfl⟩,
    ⟨⟨rfl, fun _ => trivial⟩, trivial, rfl⟩, ⟨resumes _, trivial, rfl⟩, ⟨resumes _, trivial, rfl⟩, trivial⟩

/-- The callback of a cycle that ran out of memory gets the cycle as its first operation. -/
theorem callback_handle_dead : ∃ w, Reach (fun _ _ => True) w ∧ .callback 2 2 none ∈ w.stack ∧ w.slot 2 = .cycle ∧
    ¬ OpsOf w 2 2 := by
  refine ⟨_, unsent_plays_dead.reach .start, List.Mem.head _, rfl, ?_⟩
  rintro ⟨ids, chain, facts⟩
  cases ids with
  | nil => cases chain
  | cons id ids =>
    have operation := (facts id List.mem_cons_self).1
    rw [← chain.1] at operation
    cases operation

end BelProject.Etherbone.ExactlyOnce
