import BelProject.Etherbone.Accounting

/-! Where a closed cycle is: waiting on its device or in a loop over it, in flight, or called
back. A cycle is in one of these places at most; it is in none only if it was closed while
its device was being flushed. -/

namespace BelProject.Etherbone.Completion
open BelProject.Library LinkedList Width Operations Flush Glue Accounting
open Function (update update_of_ne update_self)

/-- The responses a frame has still to kill. -/
def bad : Frame → List Entry
  | .kill _ bad _ => bad
  | _ => []

def called? : Frame → Option Nat
  | .callback cyclep _ _ => some cyclep
  | _ => none

def firstp : Frame → Nat
  | .flush _ nextp _ => nextp
  | .callback _ _ _ => null
  | .kill _ _ firstp => firstp
  | .drain _ nextp => nextp

def closing : Frame → Bool
  | .kill _ _ _ => true
  | .drain _ _ => true
  | _ => false

/-- The devices being flushed or closed. -/
def working (stack : List Frame) : List Nat := stack.filterMap Frame.device?

/-- The cycles whose callbacks are running. -/
def called (stack : List Frame) : List Nat := stack.filterMap called?

/-- The responses in flight and those being killed. -/
def waiting (w : World) : List Entry := w.queue ++ w.stack.flatMap bad

/-- How often a cycle occurs in all places; `hand` holds a cycle on its way between two. -/
def tally (w : World) (listed : Nat → List Nat) (hand : List Nat) (c : Nat) : Nat :=
  (listed (w.home c)).count c + ((waiting w).map Entry.cycle).count c + w.calls.count c + hand.count c

def Responded (slot : Slot) : Prop := slot = .response ∨ slot = .freed

/-- `listed d` are the closed cycles of a device that were not sent yet. If `exact` holds no
cycle gets lost. -/
structure Placed (exact : Prop) (w : World) (listed : Nat → List Nat) (hand : List Nat) : Prop where
  listed_cycle : ∀ d, ∀ c ∈ listed d, w.slot c = .cycle ∧ w.home c = d
  idle : ∀ d, w.slot d = .device → d ∉ working w.stack →
    (w.ready d = d ∧ listed d = []) ∨ (w.ready d ≠ d ∧ Chain null w.unLink (w.ready d) (listed d))
  work : ∀ frame ∈ w.stack, ∀ d, frame.device? = some d →
    w.slot d = .device ∧ Chain null w.unLink (firstp frame) (listed d) ∧ (closing frame = true ↔ w.ready d = d)
  apart : (working w.stack).Nodup
  gone : ∀ d, w.slot d ≠ .device → listed d = []
  wait : ∀ entry ∈ waiting w,
    w.slot entry.cycle = .cycle ∧ w.unLink entry.cycle = w.home entry.cycle ∧ Responded (w.slot entry.slot)
  queued : ∀ entry ∈ w.queue,
    w.slot (w.home entry.cycle) = .device ∧ w.ready (w.home entry.cycle) ≠ w.home entry.cycle
  killed : ∀ frame ∈ w.stack, ∀ entry ∈ bad frame, frame.device? = some (w.home entry.cycle)
  calls : ∀ c ∈ called w.stack, w.slot c = .cycle ∧ c ∈ w.calls
  called_nodup : (called w.stack).Nodup
  responses : ∀ cyclep handle responsep, .callback cyclep handle (some responsep) ∈ w.stack →
    Responded (w.slot responsep)
  opened : ∀ c ∈ w.opened, w.slot (w.home c) = .device ∧ w.ready (w.home c) ≠ w.home c ∧ c ∉ w.closed
  closed : w.closed.Nodup ∧ ∀ c ∈ w.closed, c < w.fresh
  hand_cycle : ∀ c ∈ hand, w.slot c = .cycle ∧ w.unLink c = w.home c
  tally_le : ∀ c, tally w listed hand c ≤ w.closed.count c
  kept : exact → ∀ c, w.closed.count c ≤ tally w listed hand c
  nonnull : ∀ d, w.slot d = .device → d ≠ null

theorem placed_start (exact : Prop) : Placed exact .start (fun _ => []) [] := by
  constructor <;> simp [World.start, working, called, waiting, tally]

variable {d : Nat} {frame : Frame}

theorem called?_of_device (device : frame.device? = some d) : called? frame = none := by
  cases frame with
  | callback => cases device
  | _ => rfl

theorem working_cons {stack : List Frame} (device : frame.device? = some d) :
    working (frame :: stack) = d :: working stack := List.filterMap_cons_some device

theorem called_cons {stack : List Frame} (device : frame.device? = some d) :
    called (frame :: stack) = called stack := List.filterMap_cons_none (called?_of_device device)

theorem mem_working {stack : List Frame} (member : frame ∈ stack)
    (device : frame.device? = some d) : d ∈ working stack := List.mem_filterMap.mpr ⟨frame, member, device⟩

namespace Placed
variable {exact : Prop} {w : World} {listed : Nat → List Nat} {hand : List Nat}

theorem alone (placed : Placed exact w listed hand) (c : Nat) : tally w listed hand c ≤ 1 :=
  (placed.tally_le c).trans (List.nodup_iff_count_le_one.mp placed.closed.1 c)

theorem count_listed (placed : Placed exact w listed hand) {d c : Nat} (member : c ∈ listed d) :
    1 ≤ (listed (w.home c)).count c := by
  rw [(placed.listed_cycle d c member).2]
  exact List.one_le_count_iff.mpr member

theorem not_waiting (placed : Placed exact w listed hand) {d c : Nat} (member : c ∈ listed d) :
    ∀ entry ∈ waiting w, entry.cycle ≠ c := by
  rintro entry here rfl
  have one := placed.alone entry.cycle
  have first := placed.count_listed member
  have second := List.one_le_count_iff.mpr (List.mem_map_of_mem (f := Entry.cycle) here)
  unfold tally at one
  omega

variable {c : Nat} {frame : Frame} {stack : List Frame} {cyclep : Nat} {w' : World} {d : Nat}

theorem closed_of_tally (placed : Placed exact w listed hand) (here : 1 ≤ tally w listed hand c) :
    c ∈ w.closed := List.one_le_count_iff.mp (here.trans (placed.tally_le c))

def Held (w : World) (listed : Nat → List Nat) (hand : List Nat) (c : Nat) : Prop :=
  (∃ d, c ∈ listed d) ∨ (∃ entry ∈ waiting w, entry.cycle = c) ∨ c ∈ called w.stack ∨ c ∈ hand

section
variable (placed : Placed exact w listed hand)
include placed

theorem tally_of_held (held : Held w listed hand c) : 1 ≤ tally w listed hand c := by
  unfold tally
  rcases held with ⟨d, member⟩ | ⟨entry, member, rfl⟩ | running | taken
  · have here := placed.count_listed member
    omega
  · have here := List.one_le_count_iff.mpr (List.mem_map_of_mem (f := Entry.cycle) member)
    omega
  · have here := List.one_le_count_iff.mpr (placed.calls c running).2
    omega
  · have here := List.one_le_count_iff.mpr taken
    omega

theorem cycle_of_held (held : Held w listed hand c) : w.slot c = .cycle := by
  rcases held with ⟨d, member⟩ | ⟨entry, member, rfl⟩ | running | taken
  · exact (placed.listed_cycle d c member).1
  · exact (placed.wait entry member).1
  · exact (placed.calls c running).1
  · exact (placed.hand_cycle c taken).1

theorem closed_of_held (held : Held w listed hand c) : c ∈ w.closed :=
  placed.closed_of_tally (placed.tally_of_held held)

theorem frees (w' : World) (cycles : ∀ c, Held w listed hand c → w'.slot c = .cycle)
    (devices : ∀ handle, w'.slot handle = .device ↔ w.slot handle = .device)
    (responses : ∀ handle, Responded (w.slot handle) → Responded (w'.slot handle)) (fresh : w.fresh ≤ w'.fresh)
    (fewer : ∀ c ∈ w'.opened, c ∈ w.opened)
    (same : (w'.unLink, w'.ready, w'.queue, w'.stack, w'.closed, w'.home, w'.calls) =
      (w.unLink, w.ready, w.queue, w.stack, w.closed, w.home, w.calls)) : Placed exact w' listed hand := by
  simp only [Prod.mk.injEq] at same
  obtain ⟨unLink, ready, queue, stack, closed, home, calls⟩ := same
  have wait : waiting w' = waiting w := by rw [waiting, waiting, queue, stack]
  have tallied : tally w' listed hand = tally w listed hand := by
    funext c
    rw [tally, tally, wait, home, calls]
  constructor
  · intro d c member
    rw [home]
    exact ⟨cycles c (Or.inl ⟨d, member⟩), (placed.listed_cycle d c member).2⟩
  · intro d device
    rw [stack, ready, unLink]
    exact placed.idle d ((devices d).mp device)
  · intro frame member d device
    rw [stack] at member
    rw [unLink, ready, devices]
    exact placed.work frame member d device
  · rw [stack]
    exact placed.apart
  · intro d device
    exact placed.gone d fun before => device ((devices d).mpr before)
  · intro entry member
    rw [wait] at member
    rw [unLink, home]
    obtain ⟨_, link, response⟩ := placed.wait entry member
    exact ⟨cycles _ (Or.inr (Or.inl ⟨entry, member, rfl⟩)), link, responses _ response⟩
  · intro entry member
    rw [queue] at member
    rw [home, ready, devices]
    exact placed.queued entry member
  · intro frame member
    rw [stack] at member
    rw [home]
    exact placed.killed frame member
  · intro c member
    rw [stack] at member
    rw [calls]
    exact ⟨cycles c (Or.inr (Or.inr (Or.inl member))), (placed.calls c member).2⟩
  · rw [stack]
    exact placed.called_nodup
  · intro cyclep handle responsep member
    rw [stack] at member
    exact responses _ (placed.responses cyclep handle responsep member)
  · intro c member
    rw [home, ready, closed, devices]
    exact placed.opened c (fewer c member)
  · rw [closed]
    exact ⟨placed.closed.1, fun c member => lt_of_lt_of_le (placed.closed.2 c member) fresh⟩
  · intro c member
    rw [unLink, home]
    exact ⟨cycles c (Or.inr (Or.inr (Or.inr member))), (placed.hand_cycle c member).2⟩
  · rw [tallied, closed]
    exact placed.tally_le
  · rw [tallied, closed]
    exact placed.kept
  · exact fun d device => placed.nonnull d ((devices d).mp device)

end

theorem take (placed : Placed exact w listed []) (frame' : Frame) {d c : Nat}
    (stacked : w.stack = frame :: stack) (device : frame.device? = some d) (first : firstp frame = c)
    (nonnull : c ≠ null)
    (device' : frame'.device? = some d) (next : firstp frame' = w.unLink c) (closes : closing frame' = closing frame)
    (same : bad frame' = bad frame) :
    ∃ items, listed d = c :: items ∧ Placed exact
      { w with unLink := update w.unLink c d, stack := frame' :: stack } (update listed d items) [c] := by
  obtain ⟨slot, chain, ready⟩ := placed.work frame (stacked ▸ List.mem_cons_self) d device
  have apart := placed.apart
  rw [stacked, working_cons device] at apart
  rw [first] at chain
  -- the list starts with the cycle
  obtain ⟨items, list⟩ : ∃ items, listed d = c :: items := by
    cases list : listed d with
    | nil => exact absurd (chain.head_eq.mpr list) nonnull
    | cons head items =>
      rw [list] at chain
      exact ⟨items, by rw [chain.1]⟩
  have member : c ∈ listed d := by
    rw [list]
    exact List.mem_cons_self
  obtain ⟨cycle, home⟩ := placed.listed_cycle d c member
  have fresh : c ∉ items := by
    have nodup := chain.nodup
    rw [list] at nodup
    exact (List.nodup_cons.mp nodup).1
  rw [list] at chain
  have elsewhere : ∀ other, other ≠ d → c ∉ listed other := by
    intro other different here
    exact different ((placed.listed_cycle other c here).2.symm.trans home)
  have wait : waiting { w with unLink := update w.unLink c d, stack := frame' :: stack } = waiting w := by
    show w.queue ++ (frame' :: stack).flatMap bad = w.queue ++ w.stack.flatMap bad
    rw [stacked, List.flatMap_cons, List.flatMap_cons, same]
  have calling : called (frame' :: stack) = called w.stack := by
    rw [stacked, called_cons device, called_cons device']
  have workers : working (frame' :: stack) = working w.stack := by
    rw [stacked, working_cons device, working_cons device']
  have tallied : tally { w with unLink := update w.unLink c d, stack := frame' :: stack }
      (update listed d items) [c] = tally w listed [] := by
    funext x
    unfold tally
    rw [wait]
    show (update listed d items (w.home x)).count x + _ + w.calls.count x + [c].count x = _
    by_cases there : w.home x = d
    · rw [there, update_self, list, List.count_cons, List.count_cons, List.count_nil]
      omega
    · rw [update_of_ne there]
      have other : c ≠ x := by
        rintro rfl
        exact there home
      rw [List.count_singleton, if_neg (by simpa using other), List.count_nil]
  refine ⟨items, list, ?_⟩
  refine { placed with
      listed_cycle := ?_, idle := ?_, work := ?_, apart := ?_, gone := ?_, wait := ?_, killed := ?_, calls := ?_,
      called_nodup := ?_, responses := ?_, hand_cycle := ?_, tally_le := tallied ▸ placed.tally_le,
      kept := tallied ▸ placed.kept }
  · intro e x here
    by_cases there : e = d
    · subst there
      rw [update_self] at here
      exact placed.listed_cycle e x (list ▸ List.mem_cons_of_mem _ here)
    · rw [update_of_ne there] at here
      exact placed.listed_cycle e x here
  · intro e here outside
    rw [workers] at outside
    have there : e ≠ d := by
      rintro rfl
      exact outside (mem_working (stacked ▸ List.mem_cons_self) device)
    rw [update_of_ne there]
    rcases placed.idle e here outside with served | ⟨active, ready⟩
    · exact Or.inl served
    · exact Or.inr ⟨active, ready.frame (elsewhere e there)⟩
  · intro other here e works
    rcases List.mem_cons.mp here with rfl | later
    · cases Option.some.inj (works.symm.trans device')
      rw [update_self, next, closes]
      exact ⟨slot, chain.2.2.frame fresh, ready⟩
    · obtain ⟨slot, chain, ready⟩ := placed.work other (stacked ▸ List.mem_cons_of_mem _ later) e works
      have there : e ≠ d := by
        rintro rfl
        exact (List.nodup_cons.mp apart).1 (mem_working later works)
      rw [update_of_ne there]
      exact ⟨slot, chain.frame (elsewhere e there), ready⟩
  · show (working (frame' :: stack)).Nodup
    rw [workers]
    exact placed.apart
  · intro e lost
    have there : e ≠ d := by
      rintro rfl
      exact lost slot
    rw [update_of_ne there]
    exact placed.gone e lost
  · intro entry here
    rw [wait] at here
    obtain ⟨cycle, link, response⟩ := placed.wait entry here
    refine ⟨cycle, ?_, response⟩
    exact (update_of_ne (placed.not_waiting member entry here) _ _).trans link
  · intro other here entry dead
    rcases List.mem_cons.mp here with rfl | later
    · rw [same] at dead
      rw [device', ← device]
      exact placed.killed frame (stacked ▸ List.mem_cons_self) entry dead
    · exact placed.killed other (stacked ▸ List.mem_cons_of_mem _ later) entry dead
  · intro x here
    rw [calling] at here
    exact placed.calls x here
  · show (called (frame' :: stack)).Nodup
    rw [calling]
    exact placed.called_nodup
  · intro cyclep handle responsep here
    rcases List.mem_cons.mp here with rfl | later
    · cases device'
    · exact placed.responses cyclep handle responsep (stacked ▸ List.mem_cons_of_mem _ later)
  · intro x here
    rw [List.mem_singleton.mp here]
    exact ⟨cycle, (update_self _ _ _).trans home.symm⟩

theorem call (placed : Placed exact w listed [c]) {handle : Nat} {responsep : Option Nat}
    (response : ∀ r ∈ responsep, Responded (w.slot r)) :
    Placed exact { w with calls := c :: w.calls, stack := .callback c handle responsep :: w.stack } listed [] := by
  have cycle := (placed.hand_cycle c (List.mem_singleton_self c)).1
  have fresh : c ∉ called w.stack := by
    intro again
    have one := placed.alone c
    have before := List.one_le_count_iff.mpr (placed.calls c again).2
    unfold tally at one
    rw [List.count_singleton_self] at one
    omega
  have tallied : tally { w with calls := c :: w.calls, stack := .callback c handle responsep :: w.stack } listed [] =
      tally w listed [c] := by
    funext x
    show (listed (w.home x)).count x + ((waiting w).map Entry.cycle).count x + (c :: w.calls).count x + 0 =
      (listed (w.home x)).count x + ((waiting w).map Entry.cycle).count x + w.calls.count x + [c].count x
    rw [List.count_cons, List.count_singleton]
    omega
  refine { placed with
      work := ?_, killed := ?_, calls := ?_, called_nodup := List.nodup_cons.mpr ⟨fresh, placed.called_nodup⟩,
      responses := ?_, hand_cycle := List.forall_mem_nil _, tally_le := tallied ▸ placed.tally_le,
      kept := tallied ▸ placed.kept }
  · intro frame member d device
    rcases List.mem_cons.mp member with rfl | later
    · cases device
    · exact placed.work frame later d device
  · intro frame member entry dead
    rcases List.mem_cons.mp member with rfl | later
    · cases dead
    · exact placed.killed frame later entry dead
  · intro x member
    rcases List.mem_cons.mp member with rfl | later
    · exact ⟨cycle, List.mem_cons_self⟩
    · exact ⟨(placed.calls x later).1, List.mem_cons_of_mem _ (placed.calls x later).2⟩
  · intro cyclep handle r member
    rcases List.mem_cons.mp member with same | later
    · cases same
      exact response r rfl
    · exact placed.responses cyclep handle r later

theorem respond (placed : Placed exact w listed [c]) (entry : Entry) (same : entry.cycle = c)
    (home : w.slot (w.home c) = .device ∧ w.ready (w.home c) ≠ w.home c) (response : Responded (w.slot entry.slot)) :
    Placed exact { w with queue := w.queue ++ [entry] } listed [] := by
  obtain ⟨cycle, link⟩ := placed.hand_cycle c (List.mem_singleton_self c)
  have tallied : tally { w with queue := w.queue ++ [entry] } listed [] = tally w listed [c] := by
    funext x
    show _ + ((w.queue ++ [entry] ++ w.stack.flatMap bad).map Entry.cycle).count x + _ + 0 =
      _ + ((w.queue ++ w.stack.flatMap bad).map Entry.cycle).count x + _ + [c].count x
    rw [← same]
    simp only [List.map_append, List.count_append, List.map_cons, List.map_nil]
    omega
  refine { placed with
      wait := ?_, queued := ?_, hand_cycle := List.forall_mem_nil _, tally_le := tallied ▸ placed.tally_le,
      kept := tallied ▸ placed.kept }
  · intro other member
    have member : other ∈ w.queue ++ [entry] ++ w.stack.flatMap bad := member
    simp only [List.mem_append, List.mem_singleton] at member
    rcases member with (before | rfl) | dead
    · exact placed.wait other (List.mem_append_left _ before)
    · rw [same]
      exact ⟨cycle, link, response⟩
    · exact placed.wait other (List.mem_append_right _ dead)
  · intro other member
    rcases List.mem_append.mp member with before | last
    · exact placed.queued other before
    · rw [List.mem_singleton.mp last, same]
      exact home

theorem moves (placed : Placed exact w listed hand) {queue : List Entry} {hand' : List Nat}
    (workers : working stack = working w.stack) (callers : called stack = called w.stack)
    (work : ∀ frame ∈ stack, ∀ d, frame.device? = some d →
      w.slot d = .device ∧ Chain null w.unLink (firstp frame) (listed d) ∧ (closing frame = true ↔ w.ready d = d))
    (wait : ∀ entry ∈ queue ++ stack.flatMap bad, ∃ before ∈ waiting w, before.cycle = entry.cycle ∧
      before.slot = entry.slot)
    (queued : ∀ entry ∈ queue, ∃ before ∈ w.queue, before.cycle = entry.cycle)
    (killed : ∀ frame ∈ stack, ∀ entry ∈ bad frame, frame.device? = some (w.home entry.cycle))
    (responses : ∀ cyclep handle responsep, .callback cyclep handle (some responsep) ∈ stack →
      .callback cyclep handle (some responsep) ∈ w.stack)
    (hand_cycle : ∀ c ∈ hand', w.slot c = .cycle ∧ w.unLink c = w.home c)
    (counts : ∀ c, ((queue ++ stack.flatMap bad).map Entry.cycle).count c + hand'.count c =
      ((waiting w).map Entry.cycle).count c + hand.count c) :
    Placed exact { w with queue := queue, stack := stack } listed hand' := by
  have tallied : tally { w with queue := queue, stack := stack } listed hand' = tally w listed hand := by
    funext c
    have same := counts c
    show (listed (w.home c)).count c + ((queue ++ stack.flatMap bad).map Entry.cycle).count c + w.calls.count c + _ =
      (listed (w.home c)).count c + _ + w.calls.count c + _
    omega
  refine { placed with
      idle := ?_, work := work, apart := ?_, wait := ?_, queued := ?_, killed := killed, calls := ?_,
      called_nodup := ?_, responses := ?_, hand_cycle := hand_cycle, tally_le := tallied ▸ placed.tally_le,
      kept := tallied ▸ placed.kept }
  · intro d
    show _ → d ∉ working stack → _
    rw [workers]
    exact placed.idle d
  · show (working stack).Nodup
    rw [workers]
    exact placed.apart
  · intro entry member
    obtain ⟨before, here, cycle, slot⟩ := wait entry member
    rw [← cycle, ← slot]
    exact placed.wait before here
  · intro entry member
    obtain ⟨before, here, cycle⟩ := queued entry member
    rw [← cycle]
    exact placed.queued before here
  · show ∀ c ∈ called stack, _
    rw [callers]
    exact placed.calls
  · show (called stack).Nodup
    rw [callers]
    exact placed.called_nodup
  · exact fun cyclep handle r member => placed.responses cyclep handle r (responses cyclep handle r member)

theorem unqueue (placed : Placed exact w listed []) {i : Nat} {entry : Entry} (found : w.queue[i]? = some entry) :
    Placed exact { w with queue := w.queue.eraseIdx i } listed [entry.cycle] := by
  have member : entry ∈ waiting w := List.mem_append_left _ (List.mem_of_getElem? found)
  have shorter : ∀ other ∈ w.queue.eraseIdx i, other ∈ w.queue := fun _ => List.mem_of_mem_eraseIdx
  apply placed.moves rfl rfl placed.work _ _ placed.killed (fun _ _ _ here => here)
  · intro c here
    rw [List.mem_singleton.mp here]
    exact ⟨(placed.wait entry member).1, (placed.wait entry member).2.1⟩
  · intro x
    have perm : w.queue.Perm (entry :: w.queue.eraseIdx i) := by
      obtain ⟨short, same⟩ := List.getElem?_eq_some_iff.mp found
      rw [← same]
      exact (List.getElem_cons_eraseIdx_perm short).symm
    have counts := (perm.map Entry.cycle).count_eq x
    rw [waiting, List.map_append, List.map_append, List.count_append, List.count_append, counts]
    simp only [List.map_cons, List.count_cons, List.count_nil]
    omega
  · intro other here
    rcases List.mem_append.mp here with before | dead
    · exact ⟨other, List.mem_append_left _ (shorter other before), rfl, rfl⟩
    · exact ⟨other, List.mem_append_right _ dead, rfl, rfl⟩
  · exact fun other here => ⟨other, shorter other here, rfl⟩

theorem setEntry (placed : Placed exact w listed []) {i : Nat} {entry entry' : Entry} (found : w.queue[i]? = some entry)
    (cycle : entry'.cycle = entry.cycle) (slot : entry'.slot = entry.slot) :
    Placed exact { w with queue := w.queue.set i entry' } listed [] := by
  have member : entry ∈ w.queue := List.mem_of_getElem? found
  have same : (w.queue.set i entry').map Entry.cycle = w.queue.map Entry.cycle := by
    rw [List.map_set, cycle]
    apply List.ext_getElem?
    intro j
    rw [List.getElem?_set, List.getElem?_map]
    split
    next here =>
      subst here
      rw [found]
      split <;> simp_all
    · rfl
  have before : ∀ other ∈ w.queue.set i entry', ∃ before ∈ w.queue, before.cycle = other.cycle ∧
    before.slot = other.slot := by
    intro other here
    rcases List.mem_or_eq_of_mem_set here with old | rfl
    · exact ⟨other, old, rfl, rfl⟩
    · exact ⟨entry, member, cycle.symm, slot.symm⟩
  apply placed.moves rfl rfl placed.work _ _ placed.killed (fun _ _ _ here => here) (by simp)
  · intro x
    rw [waiting, List.map_append, List.map_append, same]
  · intro other here
    rcases List.mem_append.mp here with queued | dead
    · obtain ⟨earlier, old, facts⟩ := before other queued
      exact ⟨earlier, List.mem_append_left _ old, facts⟩
    · exact ⟨other, List.mem_append_right _ dead, rfl, rfl⟩
  · intro other here
    obtain ⟨earlier, old, facts⟩ := before other here
    exact ⟨earlier, old, facts.1⟩

theorem unkill (placed : Placed exact w listed []) {d first : Nat} {entry : Entry} {entries : List Entry}
    (stacked : w.stack = .kill d (entry :: entries) first :: stack) :
    Placed exact { w with stack := .kill d entries first :: stack } listed [entry.cycle] := by
  have here : Frame.kill d (entry :: entries) first ∈ w.stack := stacked ▸ List.mem_cons_self
  have member : entry ∈ waiting w :=
    List.mem_append_right _ (List.mem_flatMap.mpr ⟨_, here, List.mem_cons_self⟩)
  apply placed.moves
  · rw [stacked]
    rfl
  · rw [stacked]
    rfl
  · intro frame inside e device
    rcases List.mem_cons.mp inside with rfl | later
    · exact placed.work _ here e device
    · exact placed.work frame (stacked ▸ List.mem_cons_of_mem _ later) e device
  · intro other inside
    refine ⟨other, ?_, rfl, rfl⟩
    show other ∈ w.queue ++ w.stack.flatMap bad
    rw [stacked]
    rcases List.mem_append.mp inside with queued | dead
    · exact List.mem_append_left _ queued
    · apply List.mem_append_right
      exact List.mem_cons_of_mem _ dead
  · exact fun other inside => ⟨other, inside, rfl⟩
  · intro frame inside other dead
    rcases List.mem_cons.mp inside with rfl | later
    · exact placed.killed _ here other (List.mem_cons_of_mem _ dead)
    · exact placed.killed frame (stacked ▸ List.mem_cons_of_mem _ later) other dead
  · intro cyclep handle r inside
    rcases List.mem_cons.mp inside with same | later
    · cases same
    · exact stacked ▸ List.mem_cons_of_mem _ later
  · intro c inside
    rw [List.mem_singleton.mp inside]
    exact ⟨(placed.wait entry member).1, (placed.wait entry member).2.1⟩
  · intro x
    rw [waiting, stacked, List.flatMap_cons, List.flatMap_cons]
    simp only [bad, List.map_append, List.count_append, List.map_cons, List.count_cons, List.count_nil]
    omega

theorem fresh_free (placed : Placed exact w listed hand) : ¬ Held w listed hand w.fresh := by
  intro held
  exact absurd (placed.closed.2 _ (placed.closed_of_held held)) (Nat.lt_irrefl _)

theorem opened_free (placed : Placed exact w listed hand) (member : c ∈ w.opened) : ¬ Held w listed hand c :=
  fun held => (placed.opened c member).2.2 (placed.closed_of_held held)

theorem allocate (placed : Placed exact w listed hand) (unused : w.slot w.fresh = .unused) {slot : Slot}
    (other : slot ≠ .device) : Placed exact (w.allocate slot) listed hand := by
  apply placed.frees (w.allocate slot) _ _ _ (Nat.le_succ _) (fun _ member => member) rfl
  · intro c held
    have different : c ≠ w.fresh := by
      rintro rfl
      exact placed.fresh_free held
    exact (update_of_ne different _ _).trans (placed.cycle_of_held held)
  · intro handle
    show update w.slot w.fresh slot handle = .device ↔ _
    by_cases same : handle = w.fresh
    · rw [same, update_self, unused]
      exact iff_of_false other (by decide)
    · rw [update_of_ne same]
  · intro handle responded
    show Responded (update w.slot w.fresh slot handle)
    by_cases same : handle = w.fresh
    · rw [same, unused] at responded
      rcases responded with no | no <;> cases no
    · rw [update_of_ne same]
      exact responded

theorem openDevice (placed : Placed exact w listed []) (counted : Counted w) (passive : Bool)
    (port : Port) (mtu : Nat) :
    Placed exact (w.ebDeviceOpen passive port mtu) listed [] := by
  have unused := counted.unused w.fresh (Nat.le_refl _)
  have used : ∀ handle, w.slot handle = .device → handle ≠ w.fresh := by
    rintro handle device rfl
    rw [unused] at device
    cases device
  have cycles : ∀ c, w.slot c = .cycle → update w.slot w.fresh .device c = .cycle := by
    intro c cycle
    have different : c ≠ w.fresh := by
      rintro rfl
      rw [unused] at cycle
      cases cycle
    exact (update_of_ne different _ _).trans cycle
  have devices : ∀ handle, w.slot handle = .device → update w.slot w.fresh .device handle = .device :=
    fun handle device => (update_of_ne (used handle device) _ _).trans device
  have kept : ∀ handle, w.slot handle = .device → (w.ebDeviceOpen passive port mtu).ready handle = w.ready handle :=
    fun handle device => update_of_ne (used handle device) _ _
  have responses : ∀ handle, Responded (w.slot handle) → Responded (update w.slot w.fresh .device handle) := by
    intro handle responded
    by_cases same : handle = w.fresh
    · rw [same, unused] at responded
      rcases responded with no | no <;> cases no
    · rw [update_of_ne same]
      exact responded
  have empty : listed w.fresh = [] := placed.gone w.fresh (by rw [unused]; decide)
  refine { placed with
      listed_cycle := ?_, idle := ?_, work := ?_, gone := ?_, wait := ?_, queued := ?_, calls := ?_, responses := ?_,
      opened := ?_, closed := ?_, hand_cycle := List.forall_mem_nil _, nonnull := ?_ }
  · exact fun d c member => ⟨cycles c (placed.listed_cycle d c member).1, (placed.listed_cycle d c member).2⟩
  · intro d device outside
    by_cases same : d = w.fresh
    · subst same
      rw [empty, show (w.ebDeviceOpen passive port mtu).ready w.fresh = _ from update_self _ _ _]
      cases passive with
      | true => exact Or.inl ⟨rfl, rfl⟩
      | false =>
        have positive : w.fresh ≠ null := Nat.ne_of_gt counted.null_old.1
        exact Or.inr ⟨positive.symm, rfl⟩
    · have before : w.slot d = .device := (update_of_ne same _ _).symm.trans device
      rw [kept d before]
      exact placed.idle d before outside
  · intro frame member d device
    obtain ⟨slot, chain, ready⟩ := placed.work frame member d device
    rw [kept d slot]
    exact ⟨devices d slot, chain, ready⟩
  · intro d lost
    exact placed.gone d fun before => lost (devices d before)
  · intro entry member
    obtain ⟨cycle, link, response⟩ := placed.wait entry member
    exact ⟨cycles _ cycle, link, responses _ response⟩
  · intro entry member
    obtain ⟨device, active⟩ := placed.queued entry member
    refine ⟨devices _ device, ?_⟩
    show (w.ebDeviceOpen passive port mtu).ready (w.home entry.cycle) ≠ w.home entry.cycle
    rw [kept _ device]
    exact active
  · exact fun c member => ⟨cycles c (placed.calls c member).1, (placed.calls c member).2⟩
  · exact fun cyclep handle r member => responses _ (placed.responses cyclep handle r member)
  · intro c member
    obtain ⟨device, active, closed⟩ := placed.opened c member
    refine ⟨devices _ device, ?_, closed⟩
    show (w.ebDeviceOpen passive port mtu).ready (w.home c) ≠ w.home c
    rw [kept _ device]
    exact active
  · exact ⟨placed.closed.1, fun c member => Nat.lt_succ_of_lt (placed.closed.2 c member)⟩
  · intro d device
    by_cases same : d = w.fresh
    · rw [same]
      exact Nat.ne_of_gt counted.null_old.1
    · exact placed.nonnull d ((update_of_ne same _ _).symm.trans device)

end Placed

end BelProject.Etherbone.Completion
