import BelProject.Etherbone.Inflight

/-! Deadlines of the responses in flight. A response keeps the low half of its deadline; the
rest is put back by comparing with the time of the last check. The loop that kills expired
responses looks at the first list only. -/

namespace BelProject.Etherbone.Deadlines
open BelProject.Library BelProject.Memory.Array Inflight

/-- `response->deadline = aux->time_cache + 5`, as far as the field holds it. -/
def sendDeadline (s : Sock) : Nat := (s.timeCache + 5) % 2 ^ 16

/-- One turn of the first loop of `eb_socket_check`. The time is updated once it is over. -/
def checkPass (s : Sock) (now : Nat) : Option (Sock × Option Nat) :=
  (s.expire now).map fun (s, killed) => (if killed.isNone then { s with timeCache := now } else s, killed)

/-- All turns of the loop, with the responses killed, where the callbacks leave the queue alone. -/
def ebSocketCheck (now : Nat) : Nat → Sock → Option (Sock × List Nat)
  | 0, _ => none
  | fuel + 1, s =>
    match checkPass s now with
    | none => none
    | some (s, none) => some (s, [])
    | some (s, some response) =>
      (ebSocketCheck now fuel (s.release response)).map fun (s, killed) => (s, response :: killed)

/-- The time given to a check does not run backwards, and no response in flight is looked at
longer than the sign of the comparison allows. -/
structure Timely (s : Sock) (live : List Nat) (due : Nat → Nat) (now : Nat) : Prop where
  forward : s.timeCache ≤ now
  word : now < 2 ^ 32
  window : ∀ q, Represents s live q → ∀ item ∈ q.items, now ≤ due item + 2 ^ 15

/-- The events that have nothing to do with the time. -/
def Untimed : Event → Prop
  | .send _ _ _ _ => False
  | .expire _ => False
  | _ => True

/-- The states of a socket over all runs, with the responses allocated there and the whole
deadline of each. Callbacks may do anything between two turns of a check. -/
inductive Run : Sock → List Nat → (Nat → Nat) → Prop
  | fresh : Run Sock.fresh [] fun _ => 0
  | send {s : Sock} {live : List Nat} {due : Nat → Nat} (before : Run s live due) (response address device : Nat)
      (new : response ∉ live) (small : response < ebNull) (fits : s.timeCache + 5 < 2 ^ 32) :
      Run (s.send response address (sendDeadline s) device) (response :: live)
        (Function.update due response (s.timeCache + 5))
  | check {s s' : Sock} {live : List Nat} {due : Nat → Nat} {now : Nat} {killed : Option Nat} (before : Run s live due)
      (timely : Timely s live due now) (passed : checkPass s now = some (s', killed)) : Run s' live due
  | other {s s' : Sock} {live : List Nat} {due : Nat → Nat} {event : Event} {about : Option Nat}
      (before : Run s live due)
      (untimed : Untimed event) (allowed : Allowed s live event) (stepped : step s event = some (s', about)) :
      Run s' (allocated live event) due

/-- The queue is in the order of the deadlines, none of them further from the time than the
stored half can tell. -/
structure Clocked (s : Sock) (q : Queue) (due : Nat → Nat) : Prop where
  word : s.timeCache < 2 ^ 32
  sorted : q.items.Pairwise fun a b => due a ≤ due b
  stored : ∀ item ∈ q.items, s.deadline item = due item % 2 ^ 16
  fits : ∀ item ∈ q.items, due item < 2 ^ 32
  soon : ∀ item ∈ q.items, due item ≤ s.timeCache + 5
  window : ∀ item ∈ q.items, s.timeCache ≤ due item + 2 ^ 15

variable {s s' : Sock} {q q' : Queue} {due : Nat → Nat} {live front back : List Nat}

theorem Clocked.expiry_eq (clocked : Clocked s q due) {item : Nat} (member : item ∈ q.items) :
    s.expiry item = due item := by
  have stored := clocked.stored item member
  have fits := clocked.fits item member
  have soon := clocked.soon item member
  have window := clocked.window item member
  have word := clocked.word
  unfold Sock.expiry
  rw [stored]
  simp only []
  split <;> omega

theorem Clocked.sublist (clocked : Clocked s q due) (fewer : List.Sublist q'.items q.items)
    (deadline : s'.deadline = s.deadline) (time : s'.timeCache = s.timeCache) : Clocked s' q' due := by
  constructor
  · rw [time]
    exact clocked.word
  · exact List.Pairwise.sublist fewer clocked.sorted
  · intro item member
    rw [deadline]
    exact clocked.stored item (fewer.subset member)
  · intro item member
    exact clocked.fits item (fewer.subset member)
  · intro item member
    rw [time]
    exact clocked.soon item (fewer.subset member)
  · intro item member
    rw [time]
    exact clocked.window item (fewer.subset member)

theorem Clocked.send (clocked : Clocked s q due) (response address device : Nat) (new : response ∉ q.items)
    (fits : s.timeCache + 5 < 2 ^ 32) :
    Clocked (s.send response address (sendDeadline s) device) { q with items := q.items ++ [response] }
      (Function.update due response (s.timeCache + 5)) := by
  have other : ∀ item ∈ q.items, Function.update due response (s.timeCache + 5) item = due item := by
    intro item member
    apply Function.update_of_ne
    rintro rfl
    exact new member
  have same : Function.update due response (s.timeCache + 5) response = s.timeCache + 5 := Function.update_self ..
  have each : ∀ {P : Nat → Prop}, (∀ item ∈ q.items, P item) → P response → ∀ item ∈ q.items ++ [response], P item := by
    intro P old last item member
    rcases List.mem_append.mp member with before | here
    · exact old item before
    · rw [List.mem_singleton.mp here]
      exact last
  constructor
  · exact clocked.word
  · apply List.pairwise_append.mpr
    refine ⟨clocked.sorted.imp_of_mem ?_, List.pairwise_singleton _ _, ?_⟩
    · intro a b first second ordered
      rwa [other a first, other b second]
    · intro item member last here
      rw [List.mem_singleton.mp here, same, other item member]
      exact clocked.soon item member
  · apply each
    · intro item member
      have apart : item ≠ response := fun same => new (same ▸ member)
      rw [other item member]
      exact (Function.update_of_ne apart _ _).trans (clocked.stored item member)
    · rw [same]
      exact Function.update_self ..
  · apply each
    · intro item member
      rw [other item member]
      exact clocked.fits item member
    · rw [same]
      exact fits
  · apply each
    · intro item member
      rw [other item member]
      exact clocked.soon item member
    · rw [same]
      exact le_rfl
  · apply each
    · intro item member
      rw [other item member]
      exact clocked.window item member
    · rw [same]
      show s.timeCache ≤ _
      omega

theorem Clocked.tick (clocked : Clocked s q due) {now : Nat} (forward : s.timeCache ≤ now) (word : now < 2 ^ 32)
    (window : ∀ item ∈ q.items, now ≤ due item + 2 ^ 15) : Clocked { s with timeCache := now } q due := by
  refine ⟨word, clocked.sorted, clocked.stored, clocked.fits, ?_, window⟩
  intro item member
  exact (clocked.soon item member).trans (Nat.add_le_add_right forward 5)

variable {response : Nat}

theorem advance_frame {cursor : Option Nat} (advanced : s.advance cursor = some (s', response)) :
    s'.deadline = s.deadline ∧ s'.timeCache = s.timeCache := by
  unfold Sock.advance at advanced
  split at advanced
  · split at advanced
    · cases advanced
    · cases advanced
      exact ⟨rfl, rfl⟩
  · cases advanced
    exact ⟨rfl, rfl⟩

theorem walk_frame {addr fuel : Nat} {cursor : Option Nat} {found : Option (Option Nat × Nat)}
    (walked : Sock.walk addr fuel s cursor = some (s', found)) :
    s'.deadline = s.deadline ∧ s'.timeCache = s.timeCache := by
  induction fuel generalizing s cursor with
  | zero => cases walked
  | succ fuel ih =>
    rw [Sock.walk] at walked
    cases advanced : s.advance cursor with
    | none =>
      rw [advanced] at walked
      cases walked
    | some result =>
      obtain ⟨s₁, response⟩ := result
      obtain ⟨deadline, time⟩ := advance_frame advanced
      rw [advanced] at walked
      simp only [] at walked
      split at walked
      · cases walked
        exact ⟨deadline, time⟩
      · split at walked
        · cases walked
          exact ⟨deadline, time⟩
        · obtain ⟨deadline', time'⟩ := ih walked
          exact ⟨deadline'.trans deadline, time'.trans time⟩

theorem timeout_frame {deadline : Nat} (looked : s.ebSocketTimeout = some (s', deadline)) :
    s'.deadline = s.deadline ∧ s'.timeCache = s.timeCache := by
  rw [ebSocketTimeout_eq] at looked
  cases advanced : s.advance none with
  | none =>
    rw [advanced] at looked
    cases looked
  | some result =>
    rw [advanced] at looked
    cases looked
    exact advance_frame advanced

theorem step_frame {event : Event} {about : Option Nat} (untimed : Untimed event)
    (stepped : step s event = some (s', about)) : s'.deadline = s.deadline ∧ s'.timeCache = s.timeCache := by
  cases event with
  | send => exact untimed.elim
  | expire => exact untimed.elim
  | reply addr complete =>
    rw [Inflight.step, Sock.ebSocketWriteConfig] at stepped
    cases walked : Sock.walk (addr &&& 0xFFFE) (slots + 1) s none with
    | none =>
      rw [walked] at stepped
      cases stepped
    | some result =>
      obtain ⟨s₁, found⟩ := result
      have frame := walk_frame walked
      rw [walked] at stepped
      cases found with
      | none =>
        cases stepped
        exact frame
      | some place =>
        cases complete with
        | true =>
          cases stepped
          exact frame
        | false =>
          cases stepped
          exact frame
  | timeout =>
    rw [Inflight.step] at stepped
    cases looked : s.ebSocketTimeout with
    | none =>
      rw [looked] at stepped
      cases stepped
    | some result =>
      rw [looked] at stepped
      cases stepped
      exact timeout_frame looked
  | kill device =>
    rw [Inflight.step] at stepped
    cases killed : s.ebSocketKillInflight device with
    | none =>
      rw [killed] at stepped
      cases stepped
    | some s₁ =>
      rw [killed] at stepped
      cases stepped
      unfold Sock.ebSocketKillInflight at killed
      simp only [Option.bind_eq_bind, Option.bind_eq_some_iff] at killed
      obtain ⟨_, _, _, _, _, _, last⟩ := killed
      cases last
      exact ⟨rfl, rfl⟩
  | reap =>
    have reaped : s.reap = (s', about) := Option.some.inj stepped
    unfold Sock.reap at reaped
    split at reaped
    · cases reaped
      exact ⟨rfl, rfl⟩
    · split at reaped
      · cases reaped
        exact ⟨rfl, rfl⟩
      · cases reaped
        exact ⟨rfl, rfl⟩
  | release response =>
    cases stepped
    exact ⟨rfl, rfl⟩

theorem moves_sublist {event : Event} {about : Option Nat} (moves : Moves s q event q' about)
    (untimed : Untimed event) : List.Sublist q'.items q.items := by
  cases moves with
  | send => exact untimed.elim
  | completed addr before after response split =>
    rw [split]
    exact List.Sublist.append_left (List.sublist_cons_self response after) before
  | expired => exact untimed.elim
  | kill device => exact List.filter_sublist
  | _ => exact List.Sublist.refl _

theorem expire_eq (repr : Repr s q front back) (now : Nat) : s.expire now =
    match front.head? with
    | none => some (s, none)
    | some response => if s.expiry response ≤ now then some (s.unlink none response, some response)
        else some (s, none) := by
  unfold Sock.expire
  cases front with
  | nil =>
    rw [if_pos (show s.first = ebNull from repr.first)]
    rfl
  | cons response rest =>
    have head : s.first = response := repr.first.1
    have some : s.first ≠ ebNull := fun none => by cases repr.first.head_eq.mp none
    have looked : s.ebSocketTimeout = Option.some (s, s.expiry response) := by
      rw [Sock.ebSocketTimeout]
      simp only [if_neg some, if_pos some, Option.map_some]
      rw [head]
    rw [if_neg some, looked]
    simp only [head, List.head?_cons]

/-- A turn kills the oldest response once it is due. It ends the loop if that one is not due or
the first list is empty. -/
theorem checkPass_eq (repr : Repr s q front back) (clocked : Clocked s q due) (now : Nat) : checkPass s now =
    match front.head? with
    | none => some ({ s with timeCache := now }, none)
    | some response =>
      if due response ≤ now then some (s.unlink none response, some response)
      else some ({ s with timeCache := now }, none) := by
  rw [checkPass, expire_eq repr]
  cases front with
  | nil => rfl
  | cons response rest =>
    have member : response ∈ q.items := by
      rw [repr.items]
      exact List.mem_cons_self
    simp only [List.head?_cons, clocked.expiry_eq member]
    by_cases late : due response ≤ now
    · rw [if_pos late, if_pos late]
      rfl
    · rw [if_neg late, if_neg late]
      rfl

theorem repr_tick (repr : Repr s q front back) (now : Nat) : Repr { s with timeCache := now } q front back :=
  ⟨⟨repr.first, repr.last, repr.items, repr.frames, repr.dying⟩, repr.nodup, repr.bounded⟩

def killedFirst (q : Queue) (response : Nat) (rest back : List Nat) : Queue :=
  { q with items := rest ++ back.reverse, dying := response :: q.dying }

variable {rest : List Nat}

theorem killedFirst_perm (repr : Repr s q (response :: rest) back) :
    (killedFirst q response rest back).all.Perm q.all := by
  simp only [Queue.all, killedFirst, repr.items, List.append_assoc, List.cons_append]
  rw [← List.append_assoc, ← List.append_assoc]
  exact List.perm_middle.trans (by rw [List.append_assoc, List.append_assoc])

theorem repr_unlink (repr : Repr s q (response :: rest) back) :
    Repr (s.unlink none response) (killedFirst q response rest back) rest back := by
  have here : Repr s q ([] ++ response :: rest) back := repr
  have perm := killedFirst_perm repr
  refine ⟨here.unlink, perm.nodup_iff.mpr repr.nodup, ?_⟩
  intro item member
  exact repr.bounded item (perm.mem_iff.mp member)

structure Holds (s : Sock) (live : List Nat) (due : Nat → Nat) (q : Queue) (front back : List Nat) : Prop where
  repr : Repr s q front back
  perm : live.Perm q.all
  clocked : Clocked s q due

theorem Run.holds (run : Run s live due) : ∃ q front back, Holds s live due q front back := by
  induction run with
  | fresh =>
    refine ⟨⟨[], [], []⟩, [], [], repr_fresh, List.Perm.refl _, ?_⟩
    exact ⟨by decide, List.Pairwise.nil, by simp, by simp, by simp, by simp⟩
  | @send s live due before response address device new small fits ih =>
    obtain ⟨q, front, back, repr, perm, clocked⟩ := ih
    have allowed : Allowed s live (.send response address (sendDeadline s) device) := ⟨new, small⟩
    obtain ⟨s', q', about, stepped, moves, ⟨front', back', repr'⟩, perm'⟩ :=
      Represents.step ⟨⟨front, back, repr⟩, perm⟩ _ allowed
    cases stepped
    cases moves
    have outside : response ∉ q.items := fun member =>
      new (perm.mem_iff.mpr (List.mem_append_left _ (List.mem_append_left _ member)))
    exact ⟨_, front', back', repr', perm', clocked.send response address device outside fits⟩
  | @check s s' live due now killed before timely passed ih =>
    obtain ⟨q, front, back, repr, perm, clocked⟩ := ih
    have window := timely.window q ⟨⟨front, back, repr⟩, perm⟩
    have ended : Holds { s with timeCache := now } live due q front back :=
      ⟨repr_tick repr now, perm, clocked.tick timely.forward timely.word window⟩
    rw [checkPass_eq repr clocked] at passed
    cases front with
    | nil =>
      cases passed
      exact ⟨q, [], back, ended⟩
    | cons response rest =>
      simp only [List.head?_cons] at passed
      split at passed
      · cases passed
        have fewer : List.Sublist (killedFirst q response rest back).items q.items := by
          rw [repr.items]
          exact List.sublist_cons_self response _
        exact ⟨_, rest, back, repr_unlink repr, perm.trans (killedFirst_perm repr).symm, clocked.sublist fewer rfl rfl⟩
      · cases passed
        exact ⟨q, _, back, ended⟩
  | @other s s' live due event about before untimed allowed stepped ih =>
    obtain ⟨q, front, back, repr, perm, clocked⟩ := ih
    obtain ⟨s'', q', about', stepped', moves, ⟨front', back', repr'⟩, perm'⟩ :=
      Represents.step ⟨⟨front, back, repr⟩, perm⟩ event allowed
    rw [stepped] at stepped'
    cases stepped'
    obtain ⟨deadline, time⟩ := step_frame untimed stepped
    exact ⟨q', front', back', repr', perm', clocked.sublist (moves_sublist moves untimed) deadline time⟩

/-- The earliest of the deadlines of some responses, or 0 if there are none. -/
def Earliest (due : Nat → Nat) (items : List Nat) (deadline : Nat) : Prop :=
  if items = [] then deadline = 0
  else (∃ item ∈ items, due item = deadline) ∧ ∀ item ∈ items, deadline ≤ due item

theorem timeout_earliest (repr : Repr s q front back) (clocked : Clocked s q due) :
    ∃ s' deadline, s.ebSocketTimeout = some (s', deadline) ∧ Earliest due q.items deadline := by
  obtain ⟨s', _, _, looked, _⟩ := repr.timeout
  refine ⟨s', _, looked, ?_⟩
  unfold Earliest frontDeadline
  cases items : q.items with
  | nil =>
    rw [if_pos rfl]
    rfl
  | cons response rest =>
    have member : response ∈ q.items := by
      rw [items]
      exact List.mem_cons_self
    have oldest : ((response :: rest).head?.map s.expiry).getD 0 = due response := clocked.expiry_eq member
    have sorted := clocked.sorted
    rw [items, List.pairwise_cons] at sorted
    rw [if_neg (List.cons_ne_nil response rest), oldest]
    refine ⟨⟨response, List.mem_cons_self, rfl⟩, ?_⟩
    intro item later
    rcases List.mem_cons.mp later with rfl | after
    · exact le_rfl
    · exact sorted.1 item after

def expired (due : Nat → Nat) (now : Nat) (items : List Nat) : List Nat := items.filter fun item => due item ≤ now

theorem expired_eq_nil {now : Nat} {items : List Nat} :
    expired due now items = [] ↔ ∀ item ∈ items, now < due item := by
  rw [expired, List.filter_eq_nil_iff]
  simp only [decide_eq_true_eq, Nat.not_le]

theorem repr_released (repr : Repr s q (response :: rest) back) :
    Repr ((s.unlink none response).release response) { q with items := rest ++ back.reverse } rest back := by
  have after := repr_unlink repr
  have freed : ((s.unlink none response).release response).dying = q.dying := by
    show (s.unlink none response).dying.erase response = q.dying
    rw [after.dying]
    exact List.erase_cons_head ..
  have fewer : List.Sublist (Queue.all { q with items := rest ++ back.reverse })
    (killedFirst q response rest back).all :=
    List.Sublist.append_left (List.sublist_cons_self response q.dying) _
  refine ⟨⟨after.first, after.last, rfl, after.frames, freed⟩, after.nodup.sublist fewer, ?_⟩
  intro item member
  exact after.bounded item (fewer.subset member)

theorem ebSocketCheck_front (repr : Repr s q front back) (clocked : Clocked s q due) (now : Nat) {fuel : Nat}
    (enough : front.length < fuel) : ∃ s', ebSocketCheck now fuel s = some (s', expired due now front) := by
  induction front generalizing s q fuel with
  | nil =>
    obtain ⟨fuel, rfl⟩ := Nat.exists_eq_succ_of_ne_zero (Nat.ne_zero_of_lt enough)
    rw [ebSocketCheck, checkPass_eq repr clocked]
    exact ⟨_, rfl⟩
  | cons response rest ih =>
    obtain ⟨fuel, rfl⟩ := Nat.exists_eq_succ_of_ne_zero (Nat.ne_zero_of_lt enough)
    have items : q.items = response :: (rest ++ back.reverse) := repr.items
    have sorted := clocked.sorted
    rw [items, List.pairwise_cons] at sorted
    rw [ebSocketCheck, checkPass_eq repr clocked, List.head?_cons]
    by_cases late : due response ≤ now
    · have released := repr_released repr
      have fewer : List.Sublist (rest ++ back.reverse) q.items := by
        rw [items]
        exact List.sublist_cons_self response _
      have later : Clocked ((s.unlink none response).release response) { q with items := rest ++ back.reverse } due :=
        clocked.sublist fewer rfl rfl
      obtain ⟨s', looped⟩ := ih released later (Nat.lt_of_succ_lt_succ enough)
      refine ⟨s', ?_⟩
      simp only [if_pos late, looped, Option.map_some]
      rw [expired, expired, List.filter_cons, if_pos (decide_eq_true late)]
    · have none : expired due now (response :: rest) = [] := by
        rw [expired_eq_nil]
        intro item member
        rcases List.mem_cons.mp member with rfl | after
        · omega
        · have ordered := sorted.1 item (List.mem_append_left _ after)
          omega
      simp only [if_neg late]
      rw [none]
      exact ⟨_, rfl⟩

/-- A turn only kills what is expired. The turn that ends the loop leaves something expired
behind when it finds the first list empty and the second one not looked through. -/
def Turn (due : Nat → Nat) (now : Nat) (q : Queue) (front back : List Nat) : Option Nat → Prop
  | some response => response ∈ expired due now q.items
  | none => expired due now q.items = [] ↔ front ≠ [] ∨ expired due now back = []

theorem expired_items (repr : Repr s q front back) (now : Nat) :
    expired due now q.items = expired due now front ++ (expired due now back).reverse := by
  rw [repr.items, expired, List.filter_append, List.filter_reverse]
  rfl

theorem checkPass_turn (repr : Repr s q front back) (clocked : Clocked s q due) (now : Nat) :
    ∃ s' killed, checkPass s now = some (s', killed) ∧ Turn due now q front back killed := by
  rw [checkPass_eq repr clocked]
  cases front with
  | nil =>
    refine ⟨_, none, rfl, ?_⟩
    rw [Turn, expired_items repr]
    simp [expired]
  | cons response rest =>
    have items : q.items = response :: (rest ++ back.reverse) := repr.items
    have member : response ∈ q.items := by
      rw [items]
      exact List.mem_cons_self
    rw [List.head?_cons]
    by_cases late : due response ≤ now
    · refine ⟨_, some response, if_pos late, ?_⟩
      exact List.mem_filter.mpr ⟨member, decide_eq_true late⟩
    · refine ⟨_, none, if_neg late, ?_⟩
      have sorted := clocked.sorted
      rw [items, List.pairwise_cons] at sorted
      have none : expired due now q.items = [] := by
        rw [expired_eq_nil, items]
        intro item here
        rcases List.mem_cons.mp here with rfl | after
        · omega
        · have ordered := sorted.1 item after
          omega
      exact iff_of_true none (Or.inl (List.cons_ne_nil response rest))

/-- Timeouts are accurate to the whole second, whatever the stored half of the deadlines. In
every state of every run `eb_socket_timeout` returns the earliest deadline, a turn of
`eb_socket_check` kills nothing early, and a check kills all that is expired exactly if none of
it is in the second list. -/
theorem check_accurate (run : Run s live due) :
    ∃ q front back, Repr s q front back ∧ live.Perm q.all ∧
      (∃ s' deadline, s.ebSocketTimeout = some (s', deadline) ∧ Earliest due q.items deadline) ∧
      ∀ now, (∃ s' killed, checkPass s now = some (s', killed) ∧ Turn due now q front back killed) ∧
        ∃ s' killed, ebSocketCheck now slots s = some (s', killed) ∧
          (killed = expired due now q.items ↔ expired due now back = []) := by
  obtain ⟨q, front, back, repr, perm, clocked⟩ := run.holds
  refine ⟨q, front, back, repr, perm, timeout_earliest repr clocked, fun now => ⟨checkPass_turn repr clocked now, ?_⟩⟩
  obtain ⟨_, _, few⟩ := repr.lists
  obtain ⟨s', looped⟩ := ebSocketCheck_front repr clocked now (by omega : front.length < slots)
  refine ⟨s', _, looped, ?_⟩
  rw [expired_items repr, List.self_eq_append_right, List.reverse_eq_nil_iff]

def started : Sock := { Sock.fresh with timeCache := 1000 }

def waiting : Sock := started.send 1 0x8000 (sendDeadline started) 7

def waitingDue : Nat → Nat := Function.update (fun _ => 0) 1 1005

theorem timely_of_live {s : Sock} {live : List Nat} {due : Nat → Nat} {now : Nat} (forward : s.timeCache ≤ now)
    (word : now < 2 ^ 32) (window : ∀ item ∈ live, now ≤ due item + 2 ^ 15) : Timely s live due now := by
  refine ⟨forward, word, ?_⟩
  rintro q ⟨_, perm⟩ item member
  exact window item (perm.mem_iff.mpr (List.mem_append_left _ (List.mem_append_left _ member)))

theorem waiting_run : Run waiting [1] waitingDue := by
  have first : Run started [] fun _ => 0 :=
    .check .fresh (timely_of_live (by decide) (by decide : 1000 < 2 ^ 32) (by simp)) rfl
  exact .send first 1 0x8000 7 (by simp) (by decide) (by decide)

/-- The only response is five seconds late and still in the second list; the check does not
look at it. -/
theorem not_check_accurate : Run waiting [1] waitingDue ∧ Timely waiting [1] waitingDue 1010 ∧
    (∃ q, Represents waiting [1] q ∧ q.items = [1]) ∧ waitingDue 1 ≤ 1010 ∧
      (ebSocketCheck 1010 slots waiting).map Prod.snd = some [] := by
  refine ⟨waiting_run, timely_of_live (by decide) (by decide) (by decide), ?_, by decide, rfl⟩
  have chain : Repr waiting ⟨[1], [], []⟩ [] [1] :=
    ⟨⟨rfl, ⟨rfl, by decide, rfl⟩, rfl, .nil, rfl⟩, by decide, by decide⟩
  exact ⟨_, ⟨⟨_, _, chain⟩, List.Perm.refl _⟩, rfl⟩

theorem check_accurate_waiting :
    ∃ q front back, Repr waiting q front back ∧ [1].Perm q.all ∧
      (∃ s' deadline, waiting.ebSocketTimeout = some (s', deadline) ∧ Earliest waitingDue q.items deadline) ∧
      ∀ now, (∃ s' killed, checkPass waiting now = some (s', killed) ∧ Turn waitingDue now q front back killed) ∧
        ∃ s' killed, ebSocketCheck now slots waiting = some (s', killed) ∧
          (killed = expired waitingDue now q.items ↔ expired waitingDue now back = []) :=
  check_accurate waiting_run

end BelProject.Etherbone.Deadlines
