import BelProject.Etherbone.CycleCalls

/-! What the loops of flush, close and kill do to the places of the closed cycles, and from it what
every step does. -/

namespace BelProject.Etherbone.Completion
open BelProject.Library LinkedList Width Operations Flush Glue Accounting

namespace Placed
open Function (update update_of_ne update_self)
variable {exact : Prop} {w w' : World} {listed : Nat → List Nat} {hand : List Nat} {c d cyclep : Nat}
  {frame : Frame} {stack : List Frame}

section
variable (placed : Placed exact w listed [])
include placed

theorem turns (counted : Counted w) (frame : Frame) {d first prevp : Nat}
    {unLink : Nat → Nat} (slot : w.slot d = .device) (chain : Chain null w.unLink first (listed d))
    (flipped : flip null (w.fresh + 1) w.unLink first null = some (unLink, prevp))
    (device : frame.device? = some d) (next : firstp frame = prevp) (closes : closing frame = true ↔ w.ready d = d)
    (clear : bad frame = []) (fewer : ∀ other ∈ stack, other ∈ w.stack) (others : d ∉ working stack)
    (workers : ∀ e, e ∈ working w.stack → e = d ∨ e ∈ working stack) (apart : (working stack).Nodup)
    (callers : called stack = called w.stack) (kills : stack.flatMap bad = w.stack.flatMap bad) :
    ∃ listed', Placed exact { w with unLink := unLink, stack := frame :: stack } listed' [] := by
  have length := placed.length_le counted chain
  obtain ⟨unLink', prevp', run, turned, outside⟩ :=
    flip_spec (w.fresh + 1) chain (show Chain null w.unLink null [] from Chain.nil)
    (List.disjoint_nil_right _) (by omega)
  rw [run] at flipped
  obtain ⟨rfl, rfl⟩ := Prod.mk.inj (Option.some.inj flipped)
  rw [List.append_nil] at turned
  refine ⟨update listed d (listed d).reverse, ?_⟩
  have elsewhere : ∀ e, e ≠ d → ∀ c ∈ listed e, unLink' c = w.unLink c := by
    intro e different c member
    apply outside
    intro here
    exact different ((placed.listed_cycle e c member).2.symm.trans (placed.listed_cycle d c here).2)
  have calling : called (frame :: stack) = called w.stack := (called_cons device).trans callers
  have wait : waiting { w with unLink := unLink', stack := frame :: stack } = waiting w := by
    show w.queue ++ (frame :: stack).flatMap bad = w.queue ++ w.stack.flatMap bad
    rw [List.flatMap_cons, clear, kills, List.nil_append]
  have tallied : tally { w with unLink := unLink', stack := frame :: stack } (update listed d (listed d).reverse) [] =
      tally w listed [] := by
    funext x
    unfold tally
    rw [wait]
    show (update listed d (listed d).reverse (w.home x)).count x + _ + w.calls.count x + _ = _
    by_cases same : w.home x = d
    · rw [same, update_self, List.count_reverse]
    · rw [update_of_ne same]
  refine { placed with
      listed_cycle := ?_, idle := ?_, work := ?_, apart := ?_, gone := ?_, wait := ?_, killed := ?_, calls := ?_,
      called_nodup := ?_, responses := ?_, hand_cycle := List.forall_mem_nil _, tally_le := tallied ▸ placed.tally_le,
      kept := tallied ▸ placed.kept }
  · intro e c member
    by_cases same : e = d
    · subst same
      rw [update_self, List.mem_reverse] at member
      exact placed.listed_cycle e c member
    · rw [update_of_ne same] at member
      exact placed.listed_cycle e c member
  · intro e here away
    rw [working_cons device, List.mem_cons, not_or] at away
    rw [update_of_ne away.1]
    have before : e ∉ working w.stack := fun member => (workers e member).elim away.1 away.2
    rcases placed.idle e here before with served | ⟨active, ready⟩
    · exact Or.inl served
    · exact Or.inr ⟨active, ready.congr (elsewhere e away.1)⟩
  · intro other member e works
    rcases List.mem_cons.mp member with rfl | later
    · cases Option.some.inj (works.symm.trans device)
      rw [update_self, next]
      exact ⟨slot, turned, closes⟩
    · have different : e ≠ d := by
        rintro rfl
        exact others (mem_working later works)
      obtain ⟨slot, chain, ready⟩ := placed.work other (fewer other later) e works
      rw [update_of_ne different]
      exact ⟨slot, chain.congr (elsewhere e different), ready⟩
  · show (working (frame :: stack)).Nodup
    rw [working_cons device]
    exact List.nodup_cons.mpr ⟨others, apart⟩
  · intro e lost
    have different : e ≠ d := by
      rintro rfl
      exact lost slot
    rw [update_of_ne different]
    exact placed.gone e lost
  · intro entry member
    rw [wait] at member
    obtain ⟨cycle, link, response⟩ := placed.wait entry member
    refine ⟨cycle, ?_, response⟩
    exact (outside _ fun here => placed.not_waiting here entry member rfl).trans link
  · intro other member entry dead
    rcases List.mem_cons.mp member with rfl | later
    · rw [clear] at dead
      cases dead
    · exact placed.killed other (fewer other later) entry dead
  · intro c member
    rw [calling] at member
    exact placed.calls c member
  · show (called (frame :: stack)).Nodup
    rw [calling]
    exact placed.called_nodup
  · intro cyclep handle r member
    rcases List.mem_cons.mp member with rfl | later
    · cases device
    · exact placed.responses cyclep handle r (fewer _ later)

theorem flush (counted : Counted w) {devicep : Nat}
    (device : w.slot devicep = .device) (active : w.ready devicep ≠ devicep) (idle : devicep ∉ working w.stack)
    (stepped : w.ebDeviceFlush devicep = some w') : ∃ listed', Placed exact w' listed' [] := by
  unfold World.ebDeviceFlush at stepped
  split at stepped
  · obtain ⟨⟨unLink, prevp⟩, flipped, rfl⟩ := Option.map_eq_some_iff.mp stepped
    rcases placed.idle devicep device idle with served | ⟨_, chain⟩
    · exact absurd served.1 active
    · apply placed.turns counted (.flush devicep prevp _) device chain flipped rfl rfl _ rfl
        (fun _ member => member) idle
        (fun _ member => Or.inr member) placed.apart rfl rfl
      exact iff_of_false (by simp [closing]) active
  · rw [← Option.some.inj stepped]
    exact ⟨listed, placed⟩

theorem drained (stacked : w.stack = frame :: stack) (device : frame.device? = some d) (last : firstp frame = null) :
    listed d = [] := by
  obtain ⟨_, chain, _⟩ := placed.work frame (stacked ▸ List.mem_cons_self) d device
  exact chain.head_eq.mp last

theorem flushed (stacked : w.stack = frame :: stack) (device : frame.device? = some d) (last : firstp frame = null)
    (clear : bad frame = []) :
    Placed exact { w with ready := update w.ready d null, stack := stack } listed [] := by
  have here : frame ∈ w.stack := stacked ▸ List.mem_cons_self
  have fewer : ∀ other ∈ stack, other ∈ w.stack := fun other member => stacked ▸ List.mem_cons_of_mem _ member
  have slot := (placed.work frame here d device).1
  have empty := placed.drained stacked device last
  have workers : working w.stack = d :: working stack := by rw [stacked, working_cons device]
  have apart := placed.apart
  rw [workers, List.nodup_cons] at apart
  have callers : called stack = called w.stack := by rw [stacked, called_cons device]
  have wait : waiting { w with ready := update w.ready d null, stack := stack } = waiting w := by
    show w.queue ++ stack.flatMap bad = w.queue ++ w.stack.flatMap bad
    rw [stacked, List.flatMap_cons, clear, List.nil_append]
  have actives : ∀ e, w.ready e ≠ e → update w.ready d null e ≠ e := by
    intro e before
    by_cases same : e = d
    · rw [same, update_self]
      exact (placed.nonnull d slot).symm
    · rw [update_of_ne same]
      exact before
  have tallied : tally { w with ready := update w.ready d null, stack := stack } listed [] = tally w listed [] := by
    funext x
    unfold tally
    rw [wait]
  refine { placed with
      idle := ?_, work := ?_, apart := apart.2, wait := ?_, queued := ?_,
      killed := fun other member => placed.killed other (fewer other member), calls := ?_, called_nodup := ?_,
      responses := ?_, opened := ?_, hand_cycle := List.forall_mem_nil _, tally_le := tallied ▸ placed.tally_le,
      kept := tallied ▸ placed.kept }
  · intro e device outside
    by_cases same : e = d
    · subst same
      right
      show update w.ready e null e ≠ e ∧ Chain null w.unLink (update w.ready e null e) (listed e)
      rw [update_self, empty]
      exact ⟨(placed.nonnull e slot).symm, rfl⟩
    · show update w.ready d null e = e ∧ _ ∨ update w.ready d null e ≠ e ∧
        Chain null w.unLink (update w.ready d null e) (listed e)
      rw [update_of_ne same]
      apply placed.idle e device
      rw [workers, List.mem_cons, not_or]
      exact ⟨same, outside⟩
  · intro other member e works
    have different : e ≠ d := by
      rintro rfl
      exact apart.1 (mem_working member works)
    show _ ∧ _ ∧ (closing other = true ↔ update w.ready d null e = e)
    rw [update_of_ne different]
    exact placed.work other (fewer other member) e works
  · intro entry member
    rw [wait] at member
    exact placed.wait entry member
  · exact fun entry member => ⟨(placed.queued entry member).1, actives _ (placed.queued entry member).2⟩
  · intro c member
    rw [callers] at member
    exact placed.calls c member
  · show (called stack).Nodup
    rw [callers]
    exact placed.called_nodup
  · exact fun cyclep handle r member => placed.responses cyclep handle r (fewer _ member)
  · intro c member
    obtain ⟨device, active, unclosed⟩ := placed.opened c member
    exact ⟨device, actives _ active, unclosed⟩

theorem freed (stacked : w.stack = frame :: stack) (device : frame.device? = some d) (last : firstp frame = null)
    (closes : closing frame = true) (clear : bad frame = []) :
    Placed exact { w.free d with stack := stack } listed [] := by
  have here : frame ∈ w.stack := stacked ▸ List.mem_cons_self
  have fewer : ∀ other ∈ stack, other ∈ w.stack := fun other member => stacked ▸ List.mem_cons_of_mem _ member
  obtain ⟨slot, _, ready⟩ := placed.work frame here d device
  have closed := ready.mp closes
  have empty := placed.drained stacked device last
  have workers : working w.stack = d :: working stack := by rw [stacked, working_cons device]
  have apart := placed.apart
  rw [workers, List.nodup_cons] at apart
  have callers : called stack = called w.stack := by rw [stacked, called_cons device]
  have wait : waiting { w.free d with stack := stack } = waiting w := by
    show w.queue ++ stack.flatMap bad = w.queue ++ w.stack.flatMap bad
    rw [stacked, List.flatMap_cons, clear, List.nil_append]
  have keeps : ∀ handle, handle ≠ d → (w.free d).slot handle = w.slot handle :=
    fun handle other => update_of_ne other _ _
  have cycles : ∀ c, w.slot c = .cycle → (w.free d).slot c = .cycle := by
    intro c cycle
    rw [keeps c]
    · exact cycle
    · rintro rfl
      rw [slot] at cycle
      cases cycle
  have responses : ∀ handle, Responded (w.slot handle) → Responded ((w.free d).slot handle) := by
    intro handle responded
    rw [keeps handle]
    · exact responded
    · rintro rfl
      rw [slot] at responded
      rcases responded with no | no <;> cases no
  have devices : ∀ e, w.slot e = .device → w.ready e ≠ e → (w.free d).slot e = .device := by
    intro e device active
    rw [keeps e]
    · exact device
    · rintro rfl
      exact active closed
  have before : ∀ e, (w.free d).slot e = .device → e ≠ d ∧ w.slot e = .device := by
    intro e device
    have other : e ≠ d := by
      rintro rfl
      rw [show (w.free e).slot e = .freed from update_self _ _ _] at device
      cases device
    exact ⟨other, (keeps e other).symm.trans device⟩
  have tallied : tally { w.free d with stack := stack } listed [] = tally w listed [] := by
    funext x
    unfold tally
    rw [wait]
    rfl
  constructor
  · exact fun e c member => ⟨cycles c (placed.listed_cycle e c member).1, (placed.listed_cycle e c member).2⟩
  · intro e device outside
    obtain ⟨other, device⟩ := before e device
    apply placed.idle e device
    rw [workers, List.mem_cons, not_or]
    exact ⟨other, outside⟩
  · intro other member e works
    have different : e ≠ d := by
      rintro rfl
      exact apart.1 (mem_working member works)
    obtain ⟨slot, rest⟩ := placed.work other (fewer other member) e works
    exact ⟨(keeps e different).trans slot, rest⟩
  · exact apart.2
  · intro e lost
    by_cases same : e = d
    · rw [same]
      exact empty
    · exact placed.gone e fun device => lost ((keeps e same).trans device)
  · intro entry member
    rw [wait] at member
    obtain ⟨cycle, link, response⟩ := placed.wait entry member
    exact ⟨cycles _ cycle, link, responses _ response⟩
  · intro entry member
    obtain ⟨device, active⟩ := placed.queued entry member
    exact ⟨devices _ device active, active⟩
  · exact fun other member => placed.killed other (fewer other member)
  · intro c member
    rw [callers] at member
    exact ⟨cycles c (placed.calls c member).1, (placed.calls c member).2⟩
  · show (called stack).Nodup
    rw [callers]
    exact placed.called_nodup
  · exact fun cyclep handle r member => responses _ (placed.responses cyclep handle r (fewer _ member))
  · intro c member
    obtain ⟨device, active, unclosed⟩ := placed.opened c member
    exact ⟨devices _ device active, active, unclosed⟩
  · exact placed.closed
  · exact fun _ member => nomatch member
  · rw [tallied]
    exact placed.tally_le
  · rw [tallied]
    exact placed.kept
  · exact fun e device => placed.nonnull e (before e device).2

theorem closeDevice (device : w.slot d = .device)
    (idle : d ∉ working w.stack) (unopened : w.unready d = 0 → ∀ c ∈ w.opened, w.home c ≠ d) :
    Placed exact (w.ebDeviceClose d).1 listed [] := by
  unfold World.ebDeviceClose
  split
  · exact placed
  next ready =>
    have unopened := unopened (not_not.mp ready)
    split
    next active =>
      have chain : Chain null w.unLink (w.ready d) (listed d) := by
        rcases placed.idle d device idle with served | ready
        · exact absurd served.1 active
        · exact ready.2
      have other : ∀ e, e ≠ d → update w.ready d d e = w.ready e := fun e same => update_of_ne same _ _
      -- the answering device of a response in flight is the one its cycle was opened on
      have homes : ∀ entry ∈ w.queue, (w.unLink entry.cycle == d) = (w.home entry.cycle == d) := by
        intro entry member
        rw [(placed.wait entry (List.mem_append_left _ member)).2.1]
      have wait : ∀ entry ∈ w.queue.filter (fun entry => !(w.unLink entry.cycle == d)) ++
          (w.queue.filter (fun entry => w.unLink entry.cycle == d) ++ w.stack.flatMap bad), entry ∈ waiting w := by
        intro entry member
        rcases List.mem_append.mp member with kept | member
        · exact List.mem_append_left _ (List.mem_of_mem_filter kept)
        · rcases List.mem_append.mp member with dead | before
          · exact List.mem_append_left _ (List.mem_of_mem_filter dead)
          · exact List.mem_append_right _ before
      have counts : ∀ x, ((w.queue.filter (fun entry => !(w.unLink entry.cycle == d)) ++
          (w.queue.filter (fun entry => w.unLink entry.cycle == d) ++ w.stack.flatMap bad)).map Entry.cycle).count x =
          ((waiting w).map Entry.cycle).count x := by
        intro x
        have perm := List.filter_append_perm (fun entry : Entry => w.unLink entry.cycle == d) w.queue
        have split := (perm.map Entry.cycle).count_eq x
        rw [List.map_append, List.count_append] at split
        unfold waiting
        simp only [List.map_append, List.count_append]
        omega
      refine { placed with
          idle := ?_, work := ?_, apart := List.nodup_cons.mpr ⟨idle, placed.apart⟩,
          wait := fun entry member => placed.wait entry (wait entry member), queued := ?_, killed := ?_,
          responses := ?_, opened := ?_, hand_cycle := List.forall_mem_nil _, tally_le := ?_, kept := ?_ }
      · intro e here outside
        have outside : e ∉ d :: working w.stack := outside
        rw [List.mem_cons, not_or] at outside
        show update w.ready d d e = e ∧ _ ∨ update w.ready d d e ≠ e ∧
          Chain null w.unLink (update w.ready d d e) (listed e)
        rw [other e outside.1]
        exact placed.idle e here outside.2
      · intro frame member e works
        show _ ∧ _ ∧ (closing frame = true ↔ update w.ready d d e = e)
        rcases List.mem_cons.mp member with rfl | later
        · cases works
          rw [update_self]
          exact ⟨device, chain, iff_of_true rfl rfl⟩
        · have different : e ≠ d := by
            rintro rfl
            exact idle (mem_working later works)
          rw [other e different]
          exact placed.work frame later e works
      · intro entry member
        obtain ⟨member, kept⟩ := List.mem_filter.mp member
        rw [homes entry member, Bool.not_eq_true', beq_eq_false_iff_ne] at kept
        show _ ∧ update w.ready d d (w.home entry.cycle) ≠ w.home entry.cycle
        rw [other _ kept]
        exact placed.queued entry member
      · intro frame member entry dead
        rcases List.mem_cons.mp member with rfl | later
        · obtain ⟨member, dead⟩ := List.mem_filter.mp dead
          rw [homes entry member, beq_iff_eq] at dead
          show some d = some (w.home entry.cycle)
          rw [dead]
        · exact placed.killed frame later entry dead
      · intro cyclep handle r member
        rcases List.mem_cons.mp member with same | later
        · cases same
        · exact placed.responses cyclep handle r later
      · intro c member
        show _ ∧ update w.ready d d (w.home c) ≠ w.home c ∧ _
        rw [other _ (unopened c member)]
        exact placed.opened c member
      · intro x
        apply le_trans _ (placed.tally_le x)
        show _ + _ + w.calls.count x + 0 ≤ _ + _ + w.calls.count x + 0
        exact Nat.add_le_add_right (Nat.add_le_add_right (Nat.add_le_add_left (counts x).le _) _) _
      · intro precise x
        apply le_trans (placed.kept precise x)
        show _ + _ + w.calls.count x + 0 ≤ _ + _ + w.calls.count x + 0
        exact Nat.add_le_add_right (Nat.add_le_add_right (Nat.add_le_add_left (counts x).ge _) _) _
    next server =>
      -- a server link has no cycles
      have served : w.ready d = d ∧ listed d = [] := by
        rcases placed.idle d device idle with served | ready
        · exact served
        · exact absurd (not_not.mp server) ready.1
      refine { placed with
          idle := ?_, work := ?_, apart := List.nodup_cons.mpr ⟨idle, placed.apart⟩, killed := ?_, responses := ?_,
          hand_cycle := List.forall_mem_nil _ }
      · intro e here outside
        have outside : e ∉ d :: working w.stack := outside
        rw [List.mem_cons, not_or] at outside
        exact placed.idle e here outside.2
      · intro frame member e works
        rcases List.mem_cons.mp member with rfl | later
        · cases works
          rw [served.2]
          exact ⟨device, rfl, iff_of_true rfl served.1⟩
        · exact placed.work frame later e works
      · intro frame member entry dead
        rcases List.mem_cons.mp member with rfl | later
        · cases dead
        · exact placed.killed frame later entry dead
      · intro cyclep handle r member
        rcases List.mem_cons.mp member with same | later
        · cases same
        · exact placed.responses cyclep handle r later

theorem returns {cyclep handle : Nat} {responsep : Option Nat}
    (stacked : w.stack = .callback cyclep handle responsep :: stack) :
    Placed exact { w with stack := stack } listed [] ∧ ¬ Held { w with stack := stack } listed [] cyclep := by
  have fewer : ∀ other ∈ stack, other ∈ w.stack := fun other member => stacked ▸ List.mem_cons_of_mem _ member
  have callers : called w.stack = cyclep :: called stack := by
    rw [stacked]
    rfl
  have workers : working w.stack = working stack := by
    rw [stacked]
    rfl
  have nodup := placed.called_nodup
  rw [callers, List.nodup_cons] at nodup
  have wait : waiting { w with stack := stack } = waiting w := by
    show w.queue ++ stack.flatMap bad = w.queue ++ w.stack.flatMap bad
    rw [stacked]
    rfl
  have tallied : tally { w with stack := stack } listed [] = tally w listed [] := by
    funext x
    unfold tally
    rw [wait]
  constructor
  · constructor
    · exact placed.listed_cycle
    · intro d device outside
      exact placed.idle d device (workers ▸ outside)
    · exact fun frame member => placed.work frame (fewer frame member)
    · exact workers ▸ placed.apart
    · exact placed.gone
    · intro entry member
      rw [wait] at member
      exact placed.wait entry member
    · exact placed.queued
    · exact fun frame member => placed.killed frame (fewer frame member)
    · intro c member
      exact placed.calls c (callers ▸ List.mem_cons_of_mem _ member)
    · exact nodup.2
    · exact fun c handle r member => placed.responses c handle r (fewer _ member)
    · exact placed.opened
    · exact placed.closed
    · exact fun _ member => nomatch member
    · rw [tallied]
      exact placed.tally_le
    · rw [tallied]
      exact placed.kept
    · exact placed.nonnull
  · have called := List.one_le_count_iff.mpr (placed.calls cyclep (callers ▸ List.mem_cons_self)).2
    have one := placed.alone cyclep
    unfold tally at one
    rintro (⟨d, member⟩ | ⟨entry, member, rfl⟩ | running | taken)
    · have listed := placed.count_listed member
      omega
    · rw [wait] at member
      have waits := List.one_le_count_iff.mpr (List.mem_map_of_mem (f := Entry.cycle) member)
      omega
    · exact nodup.1 running
    · cases taken

theorem reply {widths : UInt8} {addr value : Nat}
    (stepped : w.ebSocketWriteConfig widths addr value = some w') : Placed exact w' listed [] := by
  unfold World.ebSocketWriteConfig at stepped
  split at stepped
  · rw [← Option.some.inj stepped]
    exact placed
  next i _ =>
    split at stepped
    · cases stepped
    next entry found =>
      have response := (placed.wait entry (List.mem_append_left _ (List.mem_of_getElem? found))).2.2
      dsimp only at stepped
      split at stepped
      · obtain ⟨_, rfl⟩ := call_cases stepped
        exact (placed.unqueue found).call (fun r same => Option.some.inj same ▸ response)
      · rw [← Option.some.inj stepped]
        exact placed.setEntry found rfl rfl

theorem expire (stepped : w.expire = some w') : Placed exact w' listed [] := by
  unfold World.expire at stepped
  split at stepped
  · rw [← Option.some.inj stepped]
    exact placed
  next entry queue queued =>
    have found : w.queue[0]? = some entry := by
      rw [queued]
      rfl
    have response := (placed.wait entry (List.mem_append_left _ (List.mem_of_getElem? found))).2.2
    have taken := placed.unqueue found
    rw [show w.queue.eraseIdx 0 = queue by rw [queued]; rfl] at taken
    obtain ⟨_, rfl⟩ := call_cases stepped
    exact taken.call (fun r same => Option.some.inj same ▸ response)

theorem flushPass (counted : Counted w) {granted : Bool}
    {time devicep nextp : Nat} {pack : Pack} (stacked : w.stack = .flush devicep nextp pack :: stack)
    (stepped : w.flushPass granted time devicep nextp pack stack = some w') :
    ∃ listed', Placed exact w' listed' [] := by
  unfold World.flushPass at stepped
  split at stepped
  next last =>
    rw [← Option.some.inj stepped]
    exact ⟨listed, placed.flushed stacked rfl last rfl⟩
  next more =>
    split at stepped
    · dsimp only at stepped
      split at stepped
      · cases stepped
      next cycle handles _ =>
        obtain ⟨items, list, taken⟩ := placed.take (.flush devicep (w.unLink nextp) (flushCycle (w.port devicep)
          (w.mtu devicep) time (fun _ => granted) { pack with rba := w.rba } cycle)) stacked rfl rfl
            more rfl rfl rfl rfl
        split at stepped
        · obtain ⟨_, rfl⟩ := call_cases stepped
          exact ⟨_, taken.call (fun _ none => nomatch none)⟩
        next response _ =>
          rw [← Option.some.inj stepped]
          have unused : w.slot w.fresh = .unused := counted.unused _ (Nat.le_refl _)
          obtain ⟨device, _, active⟩ := taken.work _ List.mem_cons_self devicep rfl
          have home : w.home nextp = devicep := (placed.listed_cycle devicep nextp (list ▸ List.mem_cons_self)).2
          have used : devicep ≠ w.fresh := by
            rintro rfl
            rw [show w.slot w.fresh = .device from device] at unused
            cases unused
          have allocated := taken.allocate unused (show Slot.response ≠ .device by decide)
          have sent := allocated.respond ⟨w.fresh, nextp, response, w.claims⟩ rfl ?_ (Or.inl (update_self _ _ _))
          · exact ⟨_, sent.drops _ (fun _ => Or.inl rfl) (Nat.le_refl _) (fun _ here => here) rfl⟩
          · show update w.slot w.fresh .response (w.home nextp) = .device ∧ w.ready (w.home nextp) ≠ w.home nextp
            rw [home, update_of_ne used]
            exact ⟨device, fun closed => nomatch active.mpr closed⟩
        · cases stepped
    · cases stepped

theorem killPass (counted : Counted w) {devicep first : Nat}
    {entries : List Entry} (stacked : w.stack = .kill devicep entries first :: stack)
    (stepped : w.killPass devicep entries first stack = some w') : ∃ listed', Placed exact w' listed' [] := by
  have here : Frame.kill devicep entries first ∈ w.stack := stacked ▸ List.mem_cons_self
  cases entries with
  | cons entry entries =>
    have response := (placed.wait entry
      (List.mem_append_right _ (List.mem_flatMap.mpr ⟨_, here, List.mem_cons_self⟩))).2.2
    obtain ⟨_, rfl⟩ := call_cases stepped
    exact ⟨listed, (placed.unkill stacked).call (fun r same => Option.some.inj same ▸ response)⟩
  | nil =>
    obtain ⟨⟨unLink, prevp⟩, flipped, rfl⟩ := Option.map_eq_some_iff.mp stepped
    obtain ⟨device, chain, closes⟩ := placed.work _ here devicep rfl
    have workers : working w.stack = devicep :: working stack := by
      rw [stacked]
      rfl
    have apart := placed.apart
    rw [workers, List.nodup_cons] at apart
    apply placed.turns counted (.drain devicep prevp) device chain flipped rfl rfl closes rfl _ apart.1 _ apart.2
    · rw [stacked]
      rfl
    · rw [stacked]
      rfl
    · exact fun other member => stacked ▸ List.mem_cons_of_mem _ member
    · intro e member
      rw [workers] at member
      exact List.mem_cons.mp member

theorem drainPass {devicep nextp : Nat}
    (stacked : w.stack = .drain devicep nextp :: stack) (stepped : w.drainPass devicep nextp stack = some w') :
    ∃ listed', Placed exact w' listed' [] := by
  unfold World.drainPass at stepped
  split at stepped
  next last =>
    rw [← Option.some.inj stepped]
    exact ⟨listed, placed.freed stacked rfl last rfl rfl⟩
  next more =>
    obtain ⟨items, _, taken⟩ := placed.take (.drain devicep (w.unLink nextp)) stacked rfl rfl more rfl rfl rfl rfl
    obtain ⟨_, rfl⟩ := call_cases stepped
    exact ⟨_, taken.call (fun _ none => nomatch none)⟩

theorem released {w₁ : World} {cyclep handle : Nat} {responsep : Option Nat}
    (stacked : w.stack = .callback cyclep handle responsep :: stack)
    (destroyed : w.ebCycleDestroy cyclep = some w₁) : Placed exact { w₁.free cyclep with stack := stack } listed [] ∧
      ∀ r ∈ responsep, Responded ((w₁.free cyclep).slot r) := by
  have here : Frame.callback cyclep handle responsep ∈ w.stack := stacked ▸ List.mem_cons_self
  have cycle := (placed.calls cyclep (List.mem_filterMap.mpr ⟨_, here, rfl⟩)).1
  obtain ⟨returned, unheld⟩ := placed.returns stacked
  -- the cycle is no operation
  have kept : w₁.slot cyclep = .cycle ∧ (∀ r, Responded (w.slot r) → Responded (w₁.slot r)) ∧
      Placed exact { w₁ with stack := stack } listed [] ∧ ¬ Held { w₁ with stack := stack } listed [] cyclep := by
    rcases ebCycleDestroy_cases destroyed with ⟨_, rfl⟩ | ⟨handles, _, walked, rfl⟩
    · refine ⟨cycle, fun _ responded => responded, ?_, unheld⟩
      exact returned.drops _ (fun _ => Or.inl rfl) (Nat.le_refl _) (fun _ member => member) rfl
    · have operations := walkOps_slot walked
      refine ⟨(if_neg ?_).trans cycle, ?_, returned.drops _ ?_ (Nat.le_refl _) (fun _ member => member) rfl, unheld⟩
      · intro member
        rw [operations cyclep member] at cycle
        cases cycle
      · intro r responded
        show Responded (if r ∈ handles then .freed else w.slot r)
        split
        · exact Or.inr rfl
        · exact responded
      · intro other
        by_cases member : other ∈ handles
        · right
          have operation : w.slot other = .operation := operations other member
          refine ⟨if_pos member, ?_, returned.not_held_of_slot ?_⟩
          · show w.slot other ≠ .device
            rw [operation]
            decide
          · show w.slot other ≠ .cycle
            rw [operation]
            decide
        · left
          exact if_neg member
  obtain ⟨cycle, responds, placed', unheld⟩ := kept
  refine ⟨placed'.free (show w₁.slot cyclep ≠ .device by rw [cycle]; decide) unheld, ?_⟩
  intro r same
  have response := responds r (placed.responses cyclep handle r (by rw [← Option.mem_def.mp same]; exact here))
  show Responded (update w₁.slot cyclep .freed r)
  by_cases equal : r = cyclep
  · rw [equal, update_self]
    exact Or.inr rfl
  · rw [update_of_ne equal]
    exact response

theorem resume (counted : Counted w) {granted : Bool} {time : Nat}
    (stepped : w.resume granted time = some w') : ∃ listed', Placed exact w' listed' [] := by
  unfold World.resume at stepped
  split at stepped
  · cases stepped
  next cyclep handle responsep stack stacked =>
    obtain ⟨w₁, destroyed, rfl⟩ := Option.map_eq_some_iff.mp stepped
    obtain ⟨freed, responded⟩ := placed.released stacked destroyed
    refine ⟨listed, ?_⟩
    cases responsep with
    | none => exact freed
    | some responsep =>
      have response := responded responsep rfl
      refine freed.free (show (w₁.free cyclep).slot responsep ≠ .device from ?_) (freed.not_held_of_slot ?_)
      · rcases response with same | same
        · rw [same]
          decide
        · rw [same]
          decide
      · show (w₁.free cyclep).slot responsep ≠ .cycle
        rcases response with same | same
        · rw [same]
          decide
        · rw [same]
          decide
  next devicep nextp pack stack stacked => exact placed.flushPass counted stacked stepped
  next devicep bad firstp stack stacked => exact placed.killPass counted stacked stepped
  next devicep nextp stack stacked => exact placed.drainPass stacked stepped

end

end Placed

/-- A device is flushed or closed while nobody else works on it, and it is not closed under a
multiple of 256 open cycles. -/
def Orderly (w : World) : Event → Prop
  | .flush devicep => devicep ∉ working w.stack
  | .closeDevice devicep => devicep ∉ working w.stack ∧ (256 ∣ openCycles w devicep → openCycles w devicep = 0)
  | _ => True

/-- No cycle of a device is closed in a callback of its flush. -/
def Undisturbed (w : World) : Event → Prop
  | .close cyclep _ => w.home cyclep ∉ working w.stack
  | _ => True

theorem Placed.step {exact : Prop} {w w' : World} {listed : Nat → List Nat} {event : Event}
    (placed : Placed exact w listed []) (counted : Counted w) (enabled : Enabled w event) (orderly : Orderly w event)
    (undisturbed : exact → Undisturbed w event) (stepped : Glue.step w event = some w') :
    ∃ listed', Placed exact w' listed' [] := by
  have holds := enabled.1
  cases event with
  | openDevice passive port mtu => exact ⟨listed, Option.some.inj stepped ▸ placed.openDevice counted passive port mtu⟩
  | openCycle devicep granted => exact ⟨listed, Option.some.inj stepped ▸ placed.openCycle counted holds granted⟩
  | doop cyclep op granted => exact ⟨listed, placed.doop counted stepped⟩
  | close cyclep silently => exact placed.close counted holds undisturbed stepped
  | abort cyclep => exact ⟨listed, placed.abort counted holds stepped⟩
  | flush devicep => exact placed.flush counted holds.1 holds.2 orderly stepped
  | reply widths addr value => exact ⟨listed, placed.reply stepped⟩
  | expire => exact ⟨listed, placed.expire stepped⟩
  | linkDown devicep =>
    rw [← Option.some.inj stepped]
    exact ⟨listed, placed.drops _ (fun _ => Or.inl rfl) (Nat.le_refl _) (fun _ here => here) rfl⟩
  | closeDevice devicep =>
    refine ⟨listed, Option.some.inj stepped ▸ placed.closeDevice holds orderly.1 ?_⟩
    intro zero c member same
    have byte := counted.toNat_unready devicep
    rw [zero] at byte
    have none := orderly.2 (Nat.dvd_of_mod_eq_zero byte.symm)
    exact absurd (openCycles_pos.mpr ⟨c, member, same⟩) (by omega)
  | resume granted time => exact placed.resume counted stepped

end BelProject.Etherbone.Completion
