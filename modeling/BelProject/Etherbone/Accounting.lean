import BelProject.Etherbone.Glue
import Mathlib.Tactic

/-! The cycles of a device that are neither closed nor aborted. `eb_device_close` looks at
their number in `unready`, which is a byte. -/

namespace BelProject.Etherbone.Accounting
open BelProject.Library LinkedList Width Operations Flush Glue
open Function (update update_of_ne update_self)

/-- A handle that was given out and is not an open cycle. -/
def Old (fresh : Nat) (opened : List Nat) (handle : Nat) : Prop := handle < fresh ∧ handle ∉ opened

variable {handle : Nat}

theorem Old.mono {fresh fresh' : Nat} {opened opened' : List Nat} (old : Old fresh opened handle)
    (later : fresh ≤ fresh') (fewer : ∀ c ∈ opened', c ∈ opened) : Old fresh' opened' handle :=
  ⟨lt_of_lt_of_le old.1 later, fun member => old.2 (fewer handle member)⟩

theorem Old.opened {fresh : Nat} {opened : List Nat} (old : Old fresh opened handle) :
    Old (fresh + 1) (fresh :: opened) handle := by
  refine ⟨Nat.lt_succ_of_lt old.1, ?_⟩
  rw [List.mem_cons, not_or]
  exact ⟨Nat.ne_of_lt old.1, old.2⟩

def EntryOld (fresh : Nat) (opened : List Nat) (entry : Entry) : Prop :=
  Old fresh opened entry.cycle ∧ Old fresh opened entry.slot

def FrameOld (fresh : Nat) (opened : List Nat) : Frame → Prop
  | .flush devicep nextp _ => Old fresh opened devicep ∧ Old fresh opened nextp
  | .callback cyclep _ responsep => Old fresh opened cyclep ∧ ∀ handle ∈ responsep, Old fresh opened handle
  | .kill devicep bad firstp =>
    Old fresh opened devicep ∧ (∀ entry ∈ bad, EntryOld fresh opened entry) ∧ Old fresh opened firstp
  | .drain devicep nextp => Old fresh opened devicep ∧ Old fresh opened nextp

/-- `unready` counts the open cycles of each device, as far as a byte can; nothing but the user
holds the handle of an open cycle. -/
structure Counted (w : World) : Prop where
  unused : ∀ handle, w.fresh ≤ handle → w.slot handle = .unused
  null_old : Old w.fresh w.opened null
  nodup : w.opened.Nodup
  slot_eq : ∀ c ∈ w.opened, w.slot c = .cycle
  linked : ∀ c ∈ w.opened, w.unLink c = w.home c
  home_old : ∀ c ∈ w.opened, Old w.fresh w.opened (w.home c)
  unready_eq : ∀ d, w.unready d = UInt8.ofNat (w.opened.countP fun c => w.home c == d)
  unLink_old : ∀ handle ∉ w.opened, Old w.fresh w.opened (w.unLink handle)
  ready_old : ∀ d, Old w.fresh w.opened (w.ready d)
  queue_old : ∀ entry ∈ w.queue, EntryOld w.fresh w.opened entry
  stack_old : ∀ frame ∈ w.stack, FrameOld w.fresh w.opened frame

theorem counted_start : Counted .start :=
  ⟨fun _ _ => rfl, ⟨by decide, by simp [World.start]⟩, List.nodup_nil, by simp [World.start], by simp [World.start],
    by simp [World.start], by intro d; rfl, fun _ _ => ⟨Nat.one_pos, by simp [World.start]⟩,
    fun _ => ⟨Nat.one_pos, by simp [World.start]⟩,
    by simp [World.start], by simp [World.start]⟩

namespace Counted
variable {w : World}

theorem lt_fresh (counted : Counted w) (used : w.slot handle ≠ .unused) : handle < w.fresh := by
  by_contra above
  exact used (counted.unused handle (Nat.le_of_not_lt above))

theorem opened_lt (counted : Counted w) {c : Nat} (member : c ∈ w.opened) : c < w.fresh := by
  apply counted.lt_fresh
  rw [counted.slot_eq c member]
  decide

theorem old_of_slot (counted : Counted w) {slot : Slot} (same : w.slot handle = slot)
    (used : slot ≠ .unused) (other : slot ≠ .cycle) : Old w.fresh w.opened handle := by
  refine ⟨counted.lt_fresh (same ▸ used), ?_⟩
  intro member
  exact other (same.symm.trans (counted.slot_eq handle member))

theorem frameOld_mono {fresh fresh' : Nat} {opened opened' : List Nat}
    (mono : ∀ handle, Old fresh opened handle → Old fresh' opened' handle) {frame : Frame}
    (old : FrameOld fresh opened frame) : FrameOld fresh' opened' frame := by
  cases frame with
  | flush => exact ⟨mono _ old.1, mono _ old.2⟩
  | callback => exact ⟨mono _ old.1, fun handle member => mono _ (old.2 handle member)⟩
  | kill => exact ⟨mono _ old.1, fun entry member => ⟨mono _ (old.2.1 entry member).1, mono _ (old.2.1 entry member).2⟩,
      mono _ old.2.2⟩
  | drain => exact ⟨mono _ old.1, mono _ old.2⟩

theorem allocate (counted : Counted w) (slot : Slot) : Counted (w.allocate slot) := by
  have mono : ∀ handle, Old w.fresh w.opened handle → Old (w.fresh + 1) w.opened handle :=
    fun handle old => old.mono (Nat.le_succ _) (fun _ member => member)
  have other : ∀ c ∈ w.opened, c ≠ w.fresh := fun c member => Nat.ne_of_lt (counted.opened_lt member)
  refine ⟨?_, mono _ counted.null_old, counted.nodup, ?_, counted.linked, ?_, counted.unready_eq, ?_, ?_, ?_, ?_⟩
  · intro handle above
    have above : w.fresh + 1 ≤ handle := above
    show update w.slot w.fresh slot handle = _
    rw [update_of_ne (by omega)]
    exact counted.unused handle (by omega)
  · intro c member
    show update w.slot w.fresh slot c = _
    rw [update_of_ne (other c member)]
    exact counted.slot_eq c member
  · exact fun c member => mono _ (counted.home_old c member)
  · exact fun handle outside => mono _ (counted.unLink_old handle outside)
  · exact fun d => mono _ (counted.ready_old d)
  · exact fun entry member => ⟨mono _ (counted.queue_old entry member).1, mono _ (counted.queue_old entry member).2⟩
  · exact fun frame member => frameOld_mono mono (counted.stack_old frame member)

theorem frees (counted : Counted w) (slot : Nat → Slot) (unOps opNext : Nat → Nat) (operation : Nat → Operation)
    (freed : ∀ handle, slot handle = w.slot handle ∨ Old w.fresh w.opened handle) :
    Counted { w with slot := slot, unOps := unOps, opNext := opNext, operation := operation } := by
  refine ⟨?_, counted.null_old, counted.nodup, ?_, counted.linked, counted.home_old, counted.unready_eq,
    counted.unLink_old, counted.ready_old, counted.queue_old, counted.stack_old⟩
  · intro handle above
    rcases freed handle with same | old
    · exact same.trans (counted.unused handle above)
    · exact absurd above (Nat.not_le_of_lt old.1)
  · intro c member
    rcases freed c with same | old
    · exact same.trans (counted.slot_eq c member)
    · exact absurd member old.2

variable {cyclep : Nat} {w' : World} {stack : List Frame}

section
variable (counted : Counted w)
include counted

theorem destroy (destroyed : w.ebCycleDestroy cyclep = some w') :
    Counted w' ∧ w'.opened = w.opened ∧ w'.stack = w.stack ∧ w'.fresh = w.fresh := by
  rcases ebCycleDestroy_cases destroyed with ⟨_, rfl⟩ | ⟨handles, _, walked, rfl⟩
  · exact ⟨counted.frees w.slot _ w.opNext w.operation (fun _ => Or.inl rfl), rfl, rfl, rfl⟩
  · refine ⟨counted.frees _ _ w.opNext w.operation ?_, rfl, rfl, rfl⟩
    intro handle
    by_cases member : handle ∈ handles
    · right
      exact counted.old_of_slot (walkOps_slot walked handle member) (by decide) (by decide)
    · left
      exact if_neg member

theorem free (old : Old w.fresh w.opened handle) : Counted (w.free handle) := by
  apply counted.frees _ w.unOps w.opNext w.operation
  intro other
  by_cases same : other = handle
  · exact Or.inr (same ▸ old)
  · exact Or.inl (update_of_ne same _ _)

theorem moves {queue : List Entry} (rba claims : Nat) (calls : List Nat)
    (queued : ∀ entry ∈ queue, EntryOld w.fresh w.opened entry)
    (framed : ∀ frame ∈ stack, FrameOld w.fresh w.opened frame) :
    Counted { w with queue := queue, stack := stack, rba := rba, claims := claims, calls := calls } :=
  ⟨counted.unused, counted.null_old, counted.nodup, counted.slot_eq, counted.linked, counted.home_old,
    counted.unready_eq, counted.unLink_old, counted.ready_old, queued, framed⟩

theorem relinks (unLink ready : Nat → Nat) (kept : ∀ c ∈ w.opened, unLink c = w.unLink c)
    (links : ∀ handle ∉ w.opened, Old w.fresh w.opened (unLink handle)) (heads : ∀ d, Old w.fresh w.opened (ready d)) :
    Counted { w with unLink := unLink, ready := ready } :=
  ⟨counted.unused, counted.null_old, counted.nodup, counted.slot_eq,
    fun c member => (kept c member).trans (counted.linked c member), counted.home_old, counted.unready_eq, links, heads,
    counted.queue_old, counted.stack_old⟩

theorem flips {fuel first prevp : Nat} {unLink : Nat → Nat}
    (old : Old w.fresh w.opened first) (flipped : flip null fuel w.unLink first null = some (unLink, prevp)) :
    Counted { w with unLink := unLink } ∧ Old w.fresh w.opened prevp := by
  obtain ⟨head, inside, outside⟩ := flip_stays (Old w.fresh w.opened) fuel flipped old counted.null_old
    (fun handle here => counted.unLink_old handle here.2)
  refine ⟨counted.relinks _ _ ?_ ?_ counted.ready_old, head⟩
  · exact fun c member => outside c (fun here => here.2 member)
  · intro handle other
    by_cases here : Old w.fresh w.opened handle
    · exact inside handle here
    · rw [outside handle here]
      exact counted.unLink_old handle other

theorem setDevice {cyclep devicep : Nat} (cycle : Old w.fresh w.opened cyclep) (device : Old w.fresh w.opened devicep) :
    Counted { w with unLink := update w.unLink cyclep devicep } := by
  apply counted.relinks _ _ _ _ counted.ready_old
  · intro c member
    apply update_of_ne
    rintro rfl
    exact cycle.2 member
  · intro handle other
    by_cases same : handle = cyclep
    · rw [same, update_self]
      exact device
    · rw [update_of_ne same]
      exact counted.unLink_old handle other

theorem call {cyclep handle : Nat} {responsep : Option Nat}
    (called : w.call cyclep handle responsep stack = some w') (cycle : Old w.fresh w.opened cyclep)
    (response : ∀ handle ∈ responsep, Old w.fresh w.opened handle)
    (framed : ∀ frame ∈ stack, FrameOld w.fresh w.opened frame) : Counted w' := by
  obtain ⟨_, rfl⟩ := call_cases called
  apply counted.moves w.rba w.claims _ counted.queue_old
  intro frame member
  rcases List.mem_cons.mp member with rfl | later
  · exact ⟨cycle, response⟩
  · exact framed frame later

theorem leaves {c : Nat} (member : c ∈ w.opened) (closed : List Nat) :
    Counted { w with
      unready := update w.unready (w.home c) (w.unready (w.home c) - 1)
      opened := w.opened.erase c
      closed := closed } ∧ Old w.fresh (w.opened.erase c) c := by
  have fewer : ∀ other ∈ w.opened.erase c, other ∈ w.opened := fun _ => List.mem_of_mem_erase
  have mono : ∀ handle, Old w.fresh w.opened handle → Old w.fresh (w.opened.erase c) handle :=
    fun _ old => old.mono (Nat.le_refl _) fewer
  have left : Old w.fresh (w.opened.erase c) c := ⟨counted.opened_lt member, counted.nodup.not_mem_erase⟩
  refine ⟨⟨counted.unused, mono _ counted.null_old, counted.nodup.erase c, ?_, ?_, ?_, ?_, ?_, ?_, ?_, ?_⟩, left⟩
  · exact fun other here => counted.slot_eq other (fewer other here)
  · exact fun other here => counted.linked other (fewer other here)
  · exact fun other here => mono _ (counted.home_old other (fewer other here))
  · intro d
    have split := (List.perm_cons_erase member).countP_eq (fun other => w.home other == d)
    show update w.unready (w.home c) (w.unready (w.home c) - 1) d = _
    by_cases same : d = w.home c
    · subst same
      rw [List.countP_cons_of_pos (by simp)] at split
      rw [update_self, counted.unready_eq, split, UInt8.ofNat_add]
      exact UInt8.add_sub_cancel _ _
    · rw [List.countP_cons_of_neg (by simpa using Ne.symm same)] at split
      rw [update_of_ne same, counted.unready_eq, split]
  · intro handle outside
    by_cases same : handle = c
    · show Old _ _ (w.unLink handle)
      rw [same, counted.linked c member]
      exact mono _ (counted.home_old c member)
    · exact mono _ (counted.unLink_old handle fun here => outside ((List.mem_erase_of_ne same).mpr here))
  · exact fun d => mono _ (counted.ready_old d)
  · exact fun entry here => ⟨mono _ (counted.queue_old entry here).1, mono _ (counted.queue_old entry here).2⟩
  · exact fun frame here => frameOld_mono mono (counted.stack_old frame here)

theorem openDevice (passive : Bool) (port : Port) (mtu : Nat) : Counted (w.ebDeviceOpen passive port mtu) := by
  have allocated := counted.allocate .device
  have none : w.opened.countP (fun c => w.home c == w.fresh) = 0 := by
    rw [List.countP_eq_zero]
    intro c member
    have : w.home c < w.fresh := (counted.home_old c member).1
    simp only [beq_iff_eq]
    omega
  refine ⟨allocated.unused, allocated.null_old, allocated.nodup, allocated.slot_eq, allocated.linked,
    allocated.home_old, ?_, allocated.unLink_old, ?_, allocated.queue_old, allocated.stack_old⟩
  · intro d
    show update w.unready w.fresh 0 d = UInt8.ofNat (w.opened.countP fun c => w.home c == d)
    by_cases same : d = w.fresh
    · rw [same, update_self, none]
      rfl
    · rw [update_of_ne same]
      exact counted.unready_eq d
  · intro d
    show Old (w.fresh + 1) w.opened (update w.ready w.fresh _ d)
    by_cases same : d = w.fresh
    · rw [same, update_self]
      cases passive with
      | true => exact ⟨Nat.lt_succ_self _, fun member => Nat.lt_irrefl _ (counted.opened_lt member)⟩
      | false => exact allocated.null_old
    · rw [update_of_ne same]
      exact allocated.ready_old d

theorem openCycle {devicep : Nat} (device : w.slot devicep = .device) (granted : Bool) :
    Counted (w.ebCycleOpen devicep granted).1 := by
  unfold World.ebCycleOpen
  cases granted with
  | false => exact counted
  | true =>
    rw [if_pos rfl]
    split
    · exact counted.allocate .freed
    · have old := counted.old_of_slot device (by decide) (by decide)
      have mono : ∀ handle, Old w.fresh w.opened handle → Old (w.fresh + 1) (w.fresh :: w.opened) handle :=
        fun _ old => old.opened
      have other : ∀ c ∈ w.opened, c ≠ w.fresh := fun c member => Nat.ne_of_lt (counted.opened_lt member)
      refine ⟨(counted.allocate .cycle).unused, mono _ counted.null_old,
        List.nodup_cons.mpr ⟨fun member => other _ member rfl, counted.nodup⟩, ?_, ?_, ?_, ?_, ?_, ?_, ?_, ?_⟩
      · intro c member
        show update w.slot w.fresh .cycle c = _
        rcases List.mem_cons.mp member with rfl | later
        · exact update_self _ _ _
        · rw [update_of_ne (other c later)]
          exact counted.slot_eq c later
      · intro c member
        show update w.unLink w.fresh devicep c = update w.home w.fresh devicep c
        rcases List.mem_cons.mp member with rfl | later
        · rw [update_self, update_self]
        · rw [update_of_ne (other c later), update_of_ne (other c later)]
          exact counted.linked c later
      · intro c member
        show Old _ _ (update w.home w.fresh devicep c)
        rcases List.mem_cons.mp member with rfl | later
        · rw [update_self]
          exact mono _ old
        · rw [update_of_ne (other c later)]
          exact mono _ (counted.home_old c later)
      · intro d
        have kept : w.opened.countP (fun c => update w.home w.fresh devicep c == d) =
            w.opened.countP (fun c => w.home c == d) := by
          apply List.countP_congr
          intro c member
          rw [update_of_ne (other c member)]
        show update w.unready devicep (w.unready devicep + 1) d =
          UInt8.ofNat ((w.fresh :: w.opened).countP fun c => update w.home w.fresh devicep c == d)
        rw [List.countP_cons, kept, update_self]
        by_cases same : d = devicep
        · rw [same, update_self, counted.unready_eq, if_pos (by simp), UInt8.ofNat_add]
          rfl
        · rw [update_of_ne same, counted.unready_eq, if_neg (by simpa using Ne.symm same), Nat.add_zero]
      · intro handle outside
        show Old _ _ (update w.unLink w.fresh devicep handle)
        have outside : handle ∉ w.fresh :: w.opened := outside
        rw [List.mem_cons, not_or] at outside
        rw [update_of_ne outside.1]
        exact mono _ (counted.unLink_old handle outside.2)
      · exact fun d => mono _ (counted.ready_old d)
      · exact fun entry member => ⟨mono _ (counted.queue_old entry member).1, mono _ (counted.queue_old entry member).2⟩
      · exact fun frame member => frameOld_mono mono (counted.stack_old frame member)

theorem doop {op : Operation} {granted : Bool} (stepped : w.ebCycleDoop cyclep op granted = some w') : Counted w' := by
  unfold World.ebCycleDoop at stepped
  cases granted with
  | true =>
    rw [if_pos rfl] at stepped
    split at stepped
    · rw [← Option.some.inj stepped]
      exact counted.allocate .freed
    · rw [← Option.some.inj stepped]
      have added := (counted.allocate .operation).frees (w.allocate .operation).slot
        (update w.unOps cyclep w.fresh) (update w.opNext w.fresh (w.unOps cyclep))
        (update w.operation w.fresh op) (fun _ => Or.inl rfl)
      exact ⟨added.unused, added.null_old, added.nodup, added.slot_eq, added.linked, added.home_old, added.unready_eq,
        added.unLink_old, added.ready_old, added.queue_old, added.stack_old⟩
  | false =>
    obtain ⟨w₁, destroyed, rfl⟩ := Option.map_eq_some_iff.mp stepped
    exact (counted.destroy destroyed).1.frees w₁.slot _ w₁.opNext w₁.operation (fun _ => Or.inl rfl)

theorem abort (member : cyclep ∈ w.opened) (stepped : w.ebCycleAbort cyclep = some w') : Counted w' := by
  obtain ⟨left, old⟩ := counted.leaves member w.closed
  unfold World.ebCycleAbort at stepped
  rw [counted.linked cyclep member] at stepped
  obtain ⟨w₁, destroyed, rfl⟩ := Option.map_eq_some_iff.mp stepped
  rcases ebCycleDestroy_cases destroyed with ⟨_, rfl⟩ | ⟨handles, _, walked, rfl⟩
  · exact (left.frees w.slot (update w.unOps cyclep null) w.opNext w.operation (fun _ => Or.inl rfl)).free old
  · have operations := walkOps_slot walked
    have freed := left.frees (fun handle => if handle ∈ handles then .freed else w.slot handle)
      (update w.unOps cyclep null) w.opNext w.operation ?_
    · exact freed.free old
    · intro handle
      by_cases here : handle ∈ handles
      · right
        exact left.old_of_slot (operations handle here) (by decide) (by decide)
      · left
        exact if_neg here

theorem close {silently : Bool} (member : cyclep ∈ w.opened)
    (stepped : w.ebCycleClose cyclep silently = some w') : Counted w' := by
  obtain ⟨left, old⟩ := counted.leaves member (cyclep :: w.closed)
  have home := left.unLink_old cyclep old.2
  rw [show (_ : World).unLink cyclep = w.home cyclep from counted.linked cyclep member] at home
  -- the cycle goes in front of the ready cycles
  have queued := left.relinks (update w.unLink cyclep (w.ready (w.home cyclep)))
    (update w.ready (w.home cyclep) cyclep) ?_ ?_ ?_
  · unfold World.ebCycleClose at stepped
    obtain ⟨w₁, raw, rfl⟩ := Option.map_eq_some_iff.mp stepped
    have closed : Counted w₁ := by
      unfold World.ebRawCycleClose at raw
      rw [counted.linked cyclep member] at raw
      split at raw
      · rw [← Option.some.inj raw]
        exact queued
      · obtain ⟨⟨opNext, first⟩, _, rfl⟩ := Option.map_eq_some_iff.mp raw
        exact queued.frees w.slot (update w.unOps cyclep first) opNext w.operation (fun _ => Or.inl rfl)
    split
    · exact closed.frees w₁.slot w₁.unOps w₁.opNext _ (fun _ => Or.inl rfl)
    · exact closed
  · intro c here
    apply update_of_ne
    rintro rfl
    exact old.2 here
  · intro handle outside
    by_cases same : handle = cyclep
    · rw [same, update_self]
      exact left.ready_old _
    · rw [update_of_ne same]
      exact left.unLink_old handle outside
  · intro d
    by_cases same : d = w.home cyclep
    · rw [same, update_self]
      exact old
    · rw [update_of_ne same]
      exact left.ready_old d

theorem flush {devicep : Nat} (device : w.slot devicep = .device)
    (stepped : w.ebDeviceFlush devicep = some w') : Counted w' := by
  unfold World.ebDeviceFlush at stepped
  split at stepped
  · obtain ⟨⟨unLink, prevp⟩, flipped, rfl⟩ := Option.map_eq_some_iff.mp stepped
    obtain ⟨turned, first⟩ := counted.flips (counted.ready_old devicep) flipped
    apply turned.moves w.rba w.claims w.calls turned.queue_old
    intro frame member
    rcases List.mem_cons.mp member with rfl | later
    · exact ⟨counted.old_of_slot device (by decide) (by decide), first⟩
    · exact turned.stack_old frame later
  · rw [← Option.some.inj stepped]
    exact counted

theorem flushPass {granted : Bool} {time devicep nextp : Nat} {pack : Pack}
    (device : Old w.fresh w.opened devicep) (next : Old w.fresh w.opened nextp)
    (framed : ∀ frame ∈ stack, FrameOld w.fresh w.opened frame)
    (stepped : w.flushPass granted time devicep nextp pack stack = some w') : Counted w' := by
  unfold World.flushPass at stepped
  split at stepped
  · rw [← Option.some.inj stepped]
    have cleared := counted.relinks w.unLink (update w.ready devicep null)
      (fun _ _ => rfl) counted.unLink_old ?_
    · exact cleared.moves w.rba w.claims w.calls cleared.queue_old framed
    · intro d
      by_cases same : d = devicep
      · rw [same, update_self]
        exact counted.null_old
      · rw [update_of_ne same]
        exact counted.ready_old d
  · split at stepped
    · have moved := counted.setDevice next device
      -- the pass goes on with the next ready cycle
      have flushing : ∀ after, FrameOld w.fresh w.opened (.flush devicep (w.unLink nextp) after) :=
        fun after => ⟨device, counted.unLink_old nextp next.2⟩
      dsimp only at stepped
      split at stepped
      · cases stepped
      · split at stepped
        · apply moved.call stepped next (by simp)
          intro frame member
          rcases List.mem_cons.mp member with rfl | later
          · exact flushing _
          · exact framed frame later
        · rw [← Option.some.inj stepped]
          have mono : ∀ handle, Old w.fresh w.opened handle → Old (w.fresh + 1) w.opened handle :=
            fun handle old => old.mono (Nat.le_succ _) (fun _ member => member)
          have allocated := moved.allocate .response
          apply allocated.moves
          · intro entry member
            rcases List.mem_append.mp member with before | new
            · exact allocated.queue_old entry before
            · rw [List.mem_singleton.mp new]
              exact ⟨mono _ next, Nat.lt_succ_self _, fun member => Nat.lt_irrefl _ (counted.opened_lt member)⟩
          · intro frame member
            rcases List.mem_cons.mp member with rfl | later
            · exact frameOld_mono mono (flushing _)
            · exact frameOld_mono mono (framed frame later)
        · cases stepped
    · cases stepped

theorem reply {widths : UInt8} {addr value : Nat}
    (stepped : w.ebSocketWriteConfig widths addr value = some w') : Counted w' := by
  unfold World.ebSocketWriteConfig at stepped
  split at stepped
  · rw [← Option.some.inj stepped]
    exact counted
  next i _ =>
    split at stepped
    · cases stepped
    next entry found =>
      have old := counted.queue_old entry (List.mem_of_getElem? found)
      dsimp only at stepped
      split at stepped
      · have erased := counted.moves w.rba w.claims w.calls
          (fun other (member : other ∈ w.queue.eraseIdx i) => counted.queue_old other (List.mem_of_mem_eraseIdx member))
          counted.stack_old
        exact erased.call stepped old.1 (fun handle same => Option.some.inj same ▸ old.2) counted.stack_old
      · rw [← Option.some.inj stepped]
        apply counted.moves w.rba w.claims w.calls _ counted.stack_old
        intro other member
        rcases List.mem_or_eq_of_mem_set member with before | rfl
        · exact counted.queue_old other before
        · exact old

theorem expire (stepped : w.expire = some w') : Counted w' := by
  unfold World.expire at stepped
  split at stepped
  · rw [← Option.some.inj stepped]
    exact counted
  next entry queue queued =>
    have old : ∀ other ∈ entry :: queue, EntryOld w.fresh w.opened other := queued ▸ counted.queue_old
    have shorter := counted.moves w.rba w.claims w.calls (fun other member => old other (List.mem_cons_of_mem _ member))
      counted.stack_old
    have first := old entry List.mem_cons_self
    exact shorter.call stepped first.1 (fun handle same => Option.some.inj same ▸ first.2) counted.stack_old

theorem closeDevice {devicep : Nat} (device : w.slot devicep = .device) : Counted (w.ebDeviceClose devicep).1 := by
  have old := counted.old_of_slot device (by decide) (by decide)
  unfold World.ebDeviceClose
  split
  · exact counted
  · split
    · have closing := counted.relinks w.unLink (update w.ready devicep devicep)
        (fun _ _ => rfl) counted.unLink_old ?_
      · apply closing.moves w.rba w.claims w.calls
        · exact fun entry member => counted.queue_old entry (List.mem_of_mem_filter member)
        · intro frame member
          rcases List.mem_cons.mp member with rfl | later
          · exact ⟨old, fun entry here => counted.queue_old entry (List.mem_of_mem_filter here),
              counted.ready_old devicep⟩
          · exact counted.stack_old frame later
      · intro d
        by_cases same : d = devicep
        · rw [same, update_self]
          exact old
        · rw [update_of_ne same]
          exact counted.ready_old d
    · apply counted.moves w.rba w.claims w.calls counted.queue_old
      intro frame member
      rcases List.mem_cons.mp member with rfl | later
      · exact ⟨old, by simp, counted.null_old⟩
      · exact counted.stack_old frame later

theorem killPass {devicep firstp : Nat} {bad : List Entry}
    (frame : FrameOld w.fresh w.opened (.kill devicep bad firstp))
    (framed : ∀ frame ∈ stack, FrameOld w.fresh w.opened frame)
    (stepped : w.killPass devicep bad firstp stack = some w') : Counted w' := by
  obtain ⟨device, killed, first⟩ := frame
  cases bad with
  | cons entry bad =>
    have old := killed entry List.mem_cons_self
    apply counted.call stepped old.1 (fun handle same => Option.some.inj same ▸ old.2)
    intro frame member
    rcases List.mem_cons.mp member with rfl | later
    · exact ⟨device, fun other here => killed other (List.mem_cons_of_mem _ here), first⟩
    · exact framed frame later
  | nil =>
    obtain ⟨⟨unLink, prevp⟩, flipped, rfl⟩ := Option.map_eq_some_iff.mp stepped
    obtain ⟨turned, head⟩ := counted.flips first flipped
    apply turned.moves w.rba w.claims w.calls turned.queue_old
    intro frame member
    rcases List.mem_cons.mp member with rfl | later
    · exact ⟨device, head⟩
    · exact framed frame later

theorem drainPass {devicep nextp : Nat} (device : Old w.fresh w.opened devicep) (next : Old w.fresh w.opened nextp)
    (framed : ∀ frame ∈ stack, FrameOld w.fresh w.opened frame)
    (stepped : w.drainPass devicep nextp stack = some w') : Counted w' := by
  unfold World.drainPass at stepped
  split at stepped
  · rw [← Option.some.inj stepped]
    have freed := counted.free device
    exact freed.moves w.rba w.claims w.calls freed.queue_old framed
  · apply (counted.setDevice next device).call stepped next (by simp)
    intro frame member
    rcases List.mem_cons.mp member with rfl | later
    · exact ⟨device, counted.unLink_old nextp next.2⟩
    · exact framed frame later

theorem resume {granted : Bool} {time : Nat} (stepped : w.resume granted time = some w') : Counted w' := by
  unfold World.resume at stepped
  have framed := counted.stack_old
  split at stepped
  · cases stepped
  next cyclep handle responsep stack stacked =>
    rw [stacked] at framed
    obtain ⟨w₁, destroyed, rfl⟩ := Option.map_eq_some_iff.mp stepped
    obtain ⟨counted, opened, _, fresh⟩ := counted.destroy destroyed
    have callback := framed _ List.mem_cons_self
    rw [← opened, ← fresh] at framed callback
    have freed := counted.free callback.1
    have rest : ∀ frame ∈ stack, FrameOld w₁.fresh w₁.opened frame :=
      fun frame member => framed frame (List.mem_cons_of_mem _ member)
    cases responsep with
    | none => exact freed.moves w₁.rba w₁.claims w₁.calls freed.queue_old rest
    | some responsep =>
      have both := freed.free (callback.2 responsep rfl)
      exact both.moves w₁.rba w₁.claims w₁.calls both.queue_old rest
  next devicep nextp pack stack stacked =>
    rw [stacked] at framed
    have old := framed _ List.mem_cons_self
    exact counted.flushPass old.1 old.2 (fun frame member => framed frame (List.mem_cons_of_mem _ member)) stepped
  next devicep bad firstp stack stacked =>
    rw [stacked] at framed
    exact counted.killPass (framed _ List.mem_cons_self)
      (fun frame member => framed frame (List.mem_cons_of_mem _ member)) stepped
  next devicep nextp stack stacked =>
    rw [stacked] at framed
    have old := framed _ List.mem_cons_self
    exact counted.drainPass old.1 old.2 (fun frame member => framed frame (List.mem_cons_of_mem _ member)) stepped

theorem step {event : Event} (enabled : Enabled w event) (stepped : Glue.step w event = some w') : Counted w' := by
  have holds := enabled.1
  cases event with
  | openDevice passive port mtu => exact Option.some.inj stepped ▸ counted.openDevice passive port mtu
  | openCycle devicep granted => exact Option.some.inj stepped ▸ counted.openCycle holds granted
  | doop cyclep op granted => exact counted.doop stepped
  | close cyclep silently => exact counted.close holds stepped
  | abort cyclep => exact counted.abort holds stepped
  | flush devicep => exact counted.flush holds.1 stepped
  | reply widths addr value => exact counted.reply stepped
  | expire => exact counted.expire stepped
  | linkDown devicep =>
    rw [← Option.some.inj stepped]
    exact ⟨counted.unused, counted.null_old, counted.nodup, counted.slot_eq, counted.linked, counted.home_old,
      counted.unready_eq, counted.unLink_old, counted.ready_old, counted.queue_old, counted.stack_old⟩
  | closeDevice devicep => exact Option.some.inj stepped ▸ counted.closeDevice holds
  | resume granted time => exact counted.resume stepped

end

end Counted

theorem Counted.reach {condition : World → Event → Prop} {w : World} (run : Reach condition w) : Counted w := by
  induction run with
  | start => exact counted_start
  | event _ enabled _ stepped ih => exact ih.step enabled stepped

/-- The cycles of a device that are neither closed nor aborted. -/
def openCycles (w : World) (devicep : Nat) : Nat := w.opened.countP fun c => w.home c == devicep

/-- `unready` is their number, and `eb_device_close` is busy as long as there is one. -/
def Accounts (w : World) (devicep : Nat) : Prop :=
  (w.unready devicep).toNat = openCycles w devicep ∧
    ((w.ebDeviceClose devicep).2 = .busy ↔ ∃ c ∈ w.opened, w.home c = devicep)

theorem ebDeviceClose_busy (w : World) (devicep : Nat) :
    (w.ebDeviceClose devicep).2 = .busy ↔ w.unready devicep ≠ 0 := by
  unfold World.ebDeviceClose
  split
  next busy => exact iff_of_true rfl busy
  next idle =>
    split
    · exact iff_of_false (fun same => nomatch same) idle
    · exact iff_of_false (fun same => nomatch same) idle

theorem openCycles_pos {w : World} {devicep : Nat} :
    0 < openCycles w devicep ↔ ∃ c ∈ w.opened, w.home c = devicep := by
  unfold openCycles
  rw [List.countP_pos_iff]
  simp only [beq_iff_eq]

theorem Counted.toNat_unready {w : World} (counted : Counted w) (devicep : Nat) :
    (w.unready devicep).toNat = openCycles w devicep % 256 := by
  rw [counted.unready_eq devicep]
  exact UInt8.toNat_ofNat'

/-- In every run the byte counts the open cycles of a device exactly as long as there are fewer
than 256 of them. -/
theorem unready_accounts {w : World} (run : Reach (fun _ _ => True) w) (devicep : Nat) :
    Accounts w devicep ↔ openCycles w devicep < 256 := by
  have byte := (Counted.reach run).toNat_unready devicep
  constructor
  · intro accounts
    have counts := accounts.1
    omega
  · intro few
    have counts : (w.unready devicep).toNat = openCycles w devicep := by omega
    refine ⟨counts, ?_⟩
    rw [ebDeviceClose_busy, ← openCycles_pos, ← counts, Nat.pos_iff_ne_zero]
    exact not_congr UInt8.toNat_inj.symm

/-- A device with `n` cycles opened on it. -/
def opens : Nat → World
  | 0 => World.start.ebDeviceOpen false .wishbone32 0
  | n + 1 => ((opens n).ebCycleOpen 1 true).1

theorem opens_succ {n : Nat} (idle : (opens n).ready 1 = null) : opens (n + 1) = { (opens n).allocate .cycle with
    unOps := update (opens n).unOps (opens n).fresh null
    unLink := update (opens n).unLink (opens n).fresh 1
    unready := update (opens n).unready 1 ((opens n).unready 1 + 1)
    opened := (opens n).fresh :: (opens n).opened
    home := update (opens n).home (opens n).fresh 1 } := by
  show ((opens n).ebCycleOpen 1 true).1 = _
  unfold World.ebCycleOpen
  rw [if_pos rfl, if_neg (by rw [idle]; decide)]

theorem opens_reach (n : Nat) : Reach (fun _ _ => True) (opens n) ∧ (opens n).slot 1 = .device ∧
    (opens n).ready 1 = null ∧ (opens n).stack = [] ∧ (opens n).opened.length = n ∧
    ∀ c ∈ (opens n).opened, (opens n).home c = 1 := by
  induction n with
  | zero =>
    have run := @Reach.event (fun _ _ => True) .start _ (.openDevice false .wishbone32 0) .start
      ⟨trivial, fun _ => trivial⟩ trivial rfl
    exact ⟨run, rfl, rfl, rfl, rfl, fun _ member => nomatch member⟩
  | succ n ih =>
    obtain ⟨run, device, idle, stack, length, homes⟩ := ih
    have user : UserRuns (opens n) := by
      unfold UserRuns
      rw [stack]
      trivial
    have used : 1 ≠ (opens n).fresh := Nat.ne_of_lt ((Counted.reach run).lt_fresh (by rw [device]; decide))
    have run' := @Reach.event (fun _ _ => True) _ (opens (n + 1)) (.openCycle 1 true) run ⟨device,
      fun _ => user⟩ trivial rfl
    refine ⟨run', ?_⟩
    rw [opens_succ idle]
    refine ⟨(update_of_ne used _ _).trans device, idle, stack, congrArg (· + 1) length, ?_⟩
    intro c member
    show update (opens n).home (opens n).fresh 1 c = 1
    by_cases same : c = (opens n).fresh
    · rw [same, update_self]
    · rw [update_of_ne same]
      exact homes c ((List.mem_cons.mp member).resolve_left same)

theorem openCycles_opens (n : Nat) : openCycles (opens n) 1 = n := by
  obtain ⟨_, _, _, _, length, homes⟩ := opens_reach n
  calc openCycles (opens n) 1 = (opens n).opened.length :=
    List.countP_eq_length.mpr fun c member => by simp [homes c member]
    _ = n := length

/-- Three open cycles keep the device open. -/
theorem unready_accounts_three : openCycles (opens 3) 1 = 3 ∧ Accounts (opens 3) 1 := by
  refine ⟨openCycles_opens 3, ?_⟩
  apply (unready_accounts (opens_reach 3).1 1).mpr
  rw [openCycles_opens 3]
  decide

/-- With 256 open cycles the byte is zero again, and the device is closed under them. -/
theorem unready_wraps : ∃ w, Reach (fun _ _ => True) w ∧ w.slot 1 = .device ∧ openCycles w 1 = 256 ∧
    w.unready 1 = 0 ∧ (w.ebDeviceClose 1).2 = .ok ∧ ¬ Accounts w 1 := by
  obtain ⟨run, device, _⟩ := opens_reach 256
  have count := openCycles_opens 256
  have zero : (opens 256).unready 1 = 0 := by
    have byte := (Counted.reach run).toNat_unready 1
    rw [count] at byte
    exact UInt8.toNat_inj.mp byte
  refine ⟨opens 256, run, device, count, zero, ?_, ?_⟩
  · unfold World.ebDeviceClose
    rw [if_neg (not_not.mpr zero)]
    split <;> rfl
  · intro accounts
    have counts := accounts.1
    rw [zero, count] at counts
    exact absurd counts (by decide)

end BelProject.Etherbone.Accounting
