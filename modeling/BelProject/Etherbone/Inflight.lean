import BelProject.Memory.Array

/-! The responses in flight of a socket, as they lie in memory. New responses are pushed on
`last_response`, the oldest ones are taken from `first_response`; whoever reaches the end of
the first list flips the second one behind it. A response whose callback is running is out
of the lists but still allocated, and callbacks may send again. -/

namespace BelProject.Etherbone.Inflight
open BelProject.Library LinkedList BelProject.Memory.Array

def slots : Nat := 65536

/-- The responses and the two list heads of a socket. `frames` holds `next_responsep` of the
kill loops that are interrupted by a callback, `dying` the responses being called back. -/
structure Sock where
  next : Nat → Nat
  address : Nat → Nat
  deadline : Nat → Nat
  device : Nat → Nat
  first : Nat
  last : Nat
  timeCache : Nat
  frames : List Nat
  dying : List Nat

def Sock.fresh : Sock := ⟨fun _ => 0, fun _ => 0, fun _ => 0, fun _ => 0, ebNull, ebNull, 0, [], []⟩

def ebResponseFlip (next : Nat → Nat) (first : Nat) : Option ((Nat → Nat) × Nat) := flip ebNull slots next first ebNull

namespace Sock

/-- The end of `eb_device_flush`: chain it for response processing. -/
def send (s : Sock) (response address deadline device : Nat) : Sock :=
  { s with
    next := Function.update s.next response s.last
    address := Function.update s.address response address
    deadline := Function.update s.deadline response deadline
    device := Function.update s.device response device
    last := response }

/-- The link at the cursor; at the end of the first list, the second one is flipped behind it. -/
def advance (s : Sock) (cursor : Option Nat) : Option (Sock × Nat) :=
  if link s.next s.first cursor = ebNull then
    match ebResponseFlip s.next s.last with
    | none => none
    | some (next, responsep) =>
      let (next, first) := relink next s.first cursor responsep
      some ({ s with next := next, first := first, last := ebNull }, responsep)
  else some (s, link s.next s.first cursor)

def walk (addr : Nat) : Nat → Sock → Option Nat → Option (Sock × Option (Option Nat × Nat))
  | 0, _, _ => none
  | fuel + 1, s, cursor =>
    match s.advance cursor with
    | none => none
    | some (s, response) =>
      if response = ebNull then some (s, none)
      else if s.address response = addr then some (s, some (cursor, response))
      else walk addr fuel s (some response)

def unlink (s : Sock) (cursor : Option Nat) (response : Nat) : Sock :=
  let (next, first) := relink s.next s.first cursor (s.next response)
  { s with next := next, first := first, dying := response :: s.dying }

/-- The queue part of `eb_socket_write_config`; `complete` says whether the reply was the last
one the response waited for. -/
def ebSocketWriteConfig (s : Sock) (addr : Nat) (complete : Bool) : Option (Sock × Option Nat) :=
  match walk (addr &&& 0xFFFE) (slots + 1) s none with
  | none => none
  | some (s, none) => some (s, none)
  | some (s, some (cursor, response)) => some (if complete then s.unlink cursor response else s, some response)

/-- When a response expires, as a 32-bit time. Only the low half of it is stored. -/
def expiry (s : Sock) (response : Nat) : Nat :=
  let udelta := (s.deadline response + 2 ^ 16 - s.timeCache % 2 ^ 16) % 2 ^ 16
  -- sign conversion
  let sdelta := if udelta < 2 ^ 15 then udelta else udelta + (2 ^ 32 - 2 ^ 16)
  (s.timeCache + sdelta) % 2 ^ 32

def ebSocketTimeout (s : Sock) : Option (Sock × Nat) :=
  let flipped :=
    if s.first = ebNull then
      match ebResponseFlip s.next s.last with
      | none => none
      | some (next, first) => some { s with next := next, first := first, last := ebNull }
    else some s
  flipped.map fun s => (s, if s.first ≠ ebNull then s.expiry s.first else 0)

/-- A pass of the first loop of `eb_socket_check`. -/
def expire (s : Sock) (now : Nat) : Option (Sock × Option Nat) :=
  if s.first = ebNull then some (s, none)
  else
    match s.ebSocketTimeout with
    | none => none
    | some (s, deadline) => if deadline ≤ now then some (s.unlink none s.first, some s.first) else some (s, none)

/-- `eb_socket_filter_inflight` with `good` and `bad` threaded through. -/
def ebSocketFilterInflight (device : Nat → Nat) (devicep : Nat) (next : Nat → Nat) (first good bad : Nat) :
    Option ((Nat → Nat) × Nat × Nat) :=
  divide ebNull (fun response => device response == devicep) slots next first good bad

/-- `eb_socket_kill_inflight` up to its loop over the bad responses. -/
def ebSocketKillInflight (s : Sock) (devicep : Nat) : Option Sock := do
  let (next, good, bad) ← ebSocketFilterInflight s.device devicep s.next s.last ebNull ebNull
  let (next, first) ← ebResponseFlip next s.first
  let (next, good, bad) ← ebSocketFilterInflight s.device devicep next first good bad
  return { s with next := next, first := good, last := ebNull, frames := bad :: s.frames }

/-- A pass of that loop, up to its callback. -/
def reap (s : Sock) : Sock × Option Nat :=
  match s.frames with
  | [] => (s, none)
  | response :: frames =>
    if response = ebNull then ({ s with frames := frames }, none)
    else ({ s with frames := s.next response :: frames, dying := response :: s.dying }, some response)

def release (s : Sock) (response : Nat) : Sock := { s with dying := s.dying.erase response }

end Sock

inductive Event where
  | send (response address deadline device : Nat)
  | reply (addr : Nat) (complete : Bool)
  | timeout
  | expire (now : Nat)
  | kill (device : Nat)
  | reap
  | release (response : Nat)

def step (s : Sock) : Event → Option (Sock × Option Nat)
  | .send response address deadline device => some (s.send response address deadline device, some response)
  | .reply addr complete => s.ebSocketWriteConfig addr complete
  | .timeout => s.ebSocketTimeout.map fun (s, _) => (s, if s.first = ebNull then none else some s.first)
  | .expire now => s.expire now
  | .kill device => (s.ebSocketKillInflight device).map fun s => (s, none)
  | .reap => some s.reap
  | .release response => some (s.release response, some response)

/-! ### The queue it stands for -/

/-- One queue in sending order, the lists of responses being killed, and the responses being
called back. -/
structure Queue where
  items : List Nat
  killed : List (List Nat)
  dying : List Nat

def Queue.all (q : Queue) : List Nat := q.items ++ q.killed.flatten ++ q.dying

/-- What an event does to the queue, and which response it is about. -/
inductive Moves (s : Sock) (q : Queue) : Event → Queue → Option Nat → Prop
  | send (response address deadline device : Nat) :
      Moves s q (.send response address deadline device) { q with items := q.items ++ [response] } (some response)
  | ignored (addr : Nat) (complete : Bool) (unmatched : ∀ item ∈ q.items, s.address item ≠ addr &&& 0xFFFE) :
      Moves s q (.reply addr complete) q none
  | answered (addr : Nat) (before after : List Nat) (response : Nat) (split : q.items = before ++ response :: after)
      (oldest : ∀ item ∈ before, s.address item ≠ addr &&& 0xFFFE) (found : s.address response = addr &&& 0xFFFE) :
      Moves s q (.reply addr false) q (some response)
  | completed (addr : Nat) (before after : List Nat) (response : Nat) (split : q.items = before ++ response :: after)
      (oldest : ∀ item ∈ before, s.address item ≠ addr &&& 0xFFFE) (found : s.address response = addr &&& 0xFFFE) :
      Moves s q (.reply addr true) { q with items := before ++ after, dying := response :: q.dying } (some response)
  | timeout : Moves s q .timeout q q.items.head?
  -- a check does not look at responses that are all in `last_response`
  | waiting (now : Nat) (early : s.first ≠ ebNull → ∀ response ∈ q.items.head?, now < s.expiry response) :
      Moves s q (.expire now) q none
  | expired (now response : Nat) (rest : List Nat) (split : q.items = response :: rest)
      (late : s.expiry response ≤ now) :
      Moves s q (.expire now) { q with items := rest, dying := response :: q.dying } (some response)
  | kill (device : Nat) :
      Moves s q (.kill device) { q with
        items := q.items.filter fun item => !(s.device item == device)
        killed := (q.items.filter fun item => s.device item == device) :: q.killed } none
  | reap (response : Nat) (rest : List Nat) (killed : List (List Nat)) (split : q.killed = (response :: rest) :: killed) :
      Moves s q .reap { q with killed := rest :: killed, dying := response :: q.dying } (some response)
  | reaped (killed : List (List Nat)) (split : q.killed = [] :: killed) : Moves s q .reap { q with killed := killed } none
  | idle (split : q.killed = []) : Moves s q .reap q none
  | release (response : Nat) : Moves s q (.release response) { q with dying := q.dying.erase response } (some response)

/-- The lists in memory are the queue: `first_response` followed by the reverse of
`last_response`, next to the lists of the interrupted kill loops. -/
structure Lists (s : Sock) (q : Queue) (front back : List Nat) : Prop where
  first : Chain ebNull s.next s.first front
  last : Chain ebNull s.next s.last back
  items : q.items = front ++ back.reverse
  frames : List.Forall₂ (Chain ebNull s.next) s.frames q.killed
  dying : s.dying = q.dying

/-- Each response is in one place only. -/
structure Repr (s : Sock) (q : Queue) (front back : List Nat) : Prop extends Lists s q front back where
  nodup : q.all.Nodup
  bounded : ∀ item ∈ q.all, item < ebNull

theorem repr_fresh : Repr Sock.fresh ⟨[], [], []⟩ [] [] :=
  ⟨⟨rfl, rfl, rfl, .nil, rfl⟩, List.nodup_nil, by simp [Queue.all]⟩

variable {front back : List Nat} {q : Queue} {s : Sock}

theorem Repr.mem_items (repr : Repr s q front back) {item : Nat} (member : item ∈ front ++ back) : item ∈ q.items := by
  rw [repr.items]
  simpa using member

theorem Repr.lists (repr : Repr s q front back) :
    (front ++ back).Nodup ∧ front.Disjoint back ∧ front.length + back.length < slots := by
  have items : q.items.Nodup := (List.nodup_append.mp (List.nodup_append.mp repr.nodup).1).1
  have both : (front ++ back).Nodup := by
    rw [repr.items] at items
    exact (List.Perm.append_left front (List.reverse_perm back)).nodup_iff.mp items
  refine ⟨both, List.disjoint_of_nodup_append both, ?_⟩
  have inside : ∀ item ∈ (front ++ back).toFinset, item ∈ Finset.range ebNull := by
    intro item member
    apply Finset.mem_range.mpr
    apply repr.bounded
    have here := repr.mem_items (List.mem_toFinset.mp member)
    exact List.mem_append_left _ (List.mem_append_left _ here)
  have count := Finset.card_le_card inside
  rw [List.toFinset_card_of_nodup both, Finset.card_range, List.length_append] at count
  have null : ebNull = 65535 := rfl
  unfold slots
  omega

theorem Repr.killed_apart (repr : Repr s q front back)
    {killed : List Nat} (member : killed ∈ q.killed) {item : Nat} (inside : item ∈ killed) : item ∉ front ++ back := by
  intro here
  have items := (List.nodup_append.mp repr.nodup).1
  exact List.disjoint_of_nodup_append items (repr.mem_items here) (List.mem_flatten.mpr ⟨killed, member, inside⟩)

theorem forall₂_chain {next next' : Nat → Nat} {heads : List Nat} {lists : List (List Nat)}
    (chains : List.Forall₂ (Chain ebNull next) heads lists)
    (same : ∀ items ∈ lists, ∀ item ∈ items, next' item = next item) :
    List.Forall₂ (Chain ebNull next') heads lists := by
  induction chains with
  | nil => exact .nil
  | cons chain _ ih =>
    refine .cons (chain.congr (same _ List.mem_cons_self)) (ih ?_)
    intro items member
    exact same items (List.mem_cons_of_mem _ member)

/-! ### Every operation refines its move -/

theorem Repr.send (repr : Repr s q front back)
    (response address deadline device : Nat) (new : response ∉ q.all) (small : response < ebNull) :
    Lists (s.send response address deadline device) { q with items := q.items ++ [response] } front
      (response :: back) := by
  have outside : response ∉ q.items := fun member => new (List.mem_append_left _ (List.mem_append_left _ member))
  have apart : response ∉ front ++ back := fun member => outside (repr.mem_items member)
  rw [List.mem_append, not_or] at apart
  refine ⟨repr.first.frame apart.1, repr.last.push apart.2 (by omega), ?_, ?_, repr.dying⟩
  · rw [repr.items, List.reverse_cons, List.append_assoc]
  · apply forall₂_chain repr.frames
    intro items member item inside
    apply Function.update_of_ne
    rintro rfl
    exact new (List.mem_append_left _ (List.mem_append_right _ (List.mem_flatten.mpr ⟨items, member, inside⟩)))

theorem Repr.advance {before rest back : List Nat} (repr : Repr s q (before ++ rest) back) :
    ∃ s' response rest' back', s.advance before.getLast? = some (s', response) ∧
      Repr s' q (before ++ rest') back' ∧ Chain ebNull s'.next response rest' ∧ (rest' = [] → back' = []) ∧
      s'.address = s.address ∧ s'.device = s.device ∧ s'.deadline = s.deadline ∧ s'.timeCache = s.timeCache := by
  obtain ⟨both, apart, few⟩ := repr.lists
  have here := link_eq repr.first
  unfold Sock.advance
  cases rest with
  | cons item rest =>
    rw [if_neg (fun none => by cases here.head_eq.mp none)]
    exact ⟨s, _, item :: rest, back, rfl, repr, here, by simp, rfl, rfl, rfl, rfl⟩
  | nil =>
    rw [if_pos (show link s.next s.first before.getLast? = ebNull from here)]
    obtain ⟨next', first, flipped, chain, frame⟩ := flip_spec slots repr.last
      (show Chain ebNull s.next ebNull [] from rfl) (List.disjoint_nil_right _) (by omega)
    rw [List.append_nil] at chain apart
    have front : Chain ebNull next' s.first (before ++ []) :=
      repr.first.congr fun item member => frame item (fun behind => apart (List.append_nil before ▸ member) behind)
    have disjoint : before.Disjoint back.reverse := fun item member behind => apart member (List.mem_reverse.mp behind)
    have attached := relink_spec front chain disjoint
    have kept : ∀ item ∉ before, (relink next' s.first before.getLast? first).1 item = next' item := by
      intro item outside
      apply relink_next
      intro last
      exact outside (List.mem_of_getLast? last)
    refine ⟨{ s with
        next := (relink next' s.first before.getLast? first).1
        first := (relink next' s.first before.getLast? first).2
        last := ebNull }, first, back.reverse, [], by unfold ebResponseFlip; rw [flipped],
      ⟨⟨attached, rfl, ?_, ?_, repr.dying⟩, repr.nodup, repr.bounded⟩, ?_, fun _ => rfl, rfl, rfl, rfl, rfl⟩
    · rw [repr.items, List.append_nil, List.reverse_nil, List.append_nil]
    · apply forall₂_chain repr.frames
      intro items member item inside
      have outside := repr.killed_apart member inside
      rw [List.append_nil, List.mem_append, not_or] at outside
      exact (kept item outside.1).trans (frame item outside.2)
    · apply chain.congr
      intro item member
      exact kept item (fun front => disjoint front member)

theorem Repr.unlink {before after back : List Nat} {response : Nat}
    (repr : Repr s q (before ++ response :: after) back) :
    Lists (s.unlink before.getLast? response)
      { q with items := before ++ (after ++ back.reverse), dying := response :: q.dying } (before ++ after) back := by
  obtain ⟨both, apart, _⟩ := repr.lists
  have chain := repr.first
  have rest : Chain ebNull s.next (s.next response) after := (Chain.suffix chain).2.2
  have front : (before ++ response :: after).Nodup := chain.nodup
  have disjoint : before.Disjoint after := by
    intro item member behind
    exact List.disjoint_of_nodup_append front member (List.mem_cons_of_mem _ behind)
  have cursor : ∀ item ∉ before, (relink s.next s.first before.getLast? (s.next response)).1 item = s.next item := by
    intro item outside
    apply relink_next
    intro last
    exact outside (List.mem_of_getLast? last)
  refine ⟨relink_spec chain rest disjoint, ?_, ?_, ?_, ?_⟩
  · apply repr.last.congr
    intro item member
    exact cursor item (fun front => apart (List.mem_append_left _ front) member)
  · simp only [List.append_assoc]
  · apply forall₂_chain repr.frames
    intro items member item inside
    have outside := repr.killed_apart member inside
    apply cursor item
    intro front
    exact outside (List.mem_append_left _ (List.mem_append_left _ front))
  · show response :: s.dying = _
    rw [repr.dying]

theorem Repr.walk (addr fuel : Nat) {before rest back : List Nat}
    (repr : Repr s q (before ++ rest) back) (passed : ∀ item ∈ before, s.address item ≠ addr)
    (enough : rest.length + back.length < fuel) :
    ∃ s', s'.address = s.address ∧ s'.device = s.device ∧ s'.deadline = s.deadline ∧ s'.timeCache = s.timeCache ∧
      ((Sock.walk addr fuel s before.getLast? = some (s', none) ∧ (∀ item ∈ q.items, s.address item ≠ addr) ∧
          ∃ front, Repr s' q front []) ∨
        ∃ before' response after back', Sock.walk addr fuel s before.getLast? =
            some (s', some (before'.getLast?, response)) ∧
          (∀ item ∈ before', s.address item ≠ addr) ∧ s.address response = addr ∧
          Repr s' q (before' ++ response :: after) back') := by
  induction fuel generalizing s before rest back with
  | zero => omega
  | succ fuel ih =>
    obtain ⟨s₁, response, rest₁, back₁, step, repr₁, here, done, address, device, deadline, time⟩ := repr.advance
    have same : rest₁.length + back₁.length = rest.length + back.length := by
      have items := repr.items.symm.trans repr₁.items
      have lengths := congrArg List.length items
      simp only [List.length_append, List.length_reverse] at lengths
      omega
    unfold Sock.walk
    rw [step]
    dsimp only
    cases rest₁ with
    | nil =>
      refine ⟨s₁, address, device, deadline, time, Or.inl ⟨if_pos here, ?_, before ++ [], ?_⟩⟩
      · intro item member
        rw [repr₁.items, done rfl] at member
        exact passed item (by simpa using member)
      · rw [done rfl] at repr₁
        exact repr₁
    | cons item rest₁ =>
      obtain ⟨rfl, some, _⟩ := here
      rw [if_neg some, address]
      by_cases found : s.address response = addr
      · rw [if_pos found]
        exact ⟨s₁, address, device, deadline, time,
          Or.inr ⟨before, response, rest₁, back₁, rfl, passed, found, repr₁⟩⟩
      · rw [if_neg found]
        have moved : Repr s₁ q ((before ++ [response]) ++ rest₁) back₁ := by
          rw [List.append_assoc]
          exact repr₁
        have next := ih moved (by
          intro item member
          rw [address]
          rcases List.mem_append.mp member with old | new
          · exact passed item old
          · rw [List.mem_singleton.mp new]
            exact found) (by simp only [List.length_cons] at same; omega)
        rw [List.getLast?_concat] at next
        obtain ⟨s', address', device', deadline', time', result⟩ := next
        refine ⟨s', address'.trans address, device'.trans device, deadline'.trans deadline, time'.trans time, ?_⟩
        rw [address] at result
        exact result

theorem Repr.reply (repr : Repr s q front back) (addr : Nat)
    (complete : Bool) : ∃ s' q' about, s.ebSocketWriteConfig addr complete = some (s', about) ∧
      Moves s q (.reply addr complete) q' about ∧ ∃ front back, Lists s' q' front back := by
  obtain ⟨_, _, few⟩ := repr.lists
  have start : Repr s q ([] ++ front) back := repr
  obtain ⟨s', _, _, _, _, result⟩ := start.walk (addr &&& 0xFFFE) (slots + 1) (by simp) (by omega)
  rw [List.getLast?_nil] at result
  unfold Sock.ebSocketWriteConfig
  rcases result with ⟨walked, unmatched, front', repr'⟩ | ⟨before, response, after, back', walked, oldest, found, repr'⟩
  · rw [walked]
    exact ⟨s', q, none, rfl, .ignored addr complete unmatched, front', [], repr'.toLists⟩
  · rw [walked]
    have split : q.items = before ++ response :: (after ++ back'.reverse) := by
      rw [repr'.items, List.append_assoc, List.cons_append]
    cases complete with
    | false => exact ⟨s', q, some response, rfl, .answered addr _ _ response split oldest found, _, _,
        repr'.toLists⟩
    | true =>
      exact ⟨s'.unlink before.getLast? response, _, some response, rfl, .completed addr _ _ response split oldest found,
        _, _, repr'.unlink⟩

theorem ebSocketTimeout_eq (s : Sock) : s.ebSocketTimeout =
    (s.advance none).map fun (s', _) => (s', if s'.first ≠ ebNull then s'.expiry s'.first else 0) := by
  unfold Sock.ebSocketTimeout Sock.advance
  by_cases empty : s.first = ebNull
  · rw [if_pos empty, if_pos (show link s.next s.first none = ebNull from empty)]
    cases ebResponseFlip s.next s.last with
    | none => rfl
    | some flipped => rfl
  · rw [if_neg empty, if_neg (show link s.next s.first none ≠ ebNull from empty)]
    rfl

def frontDeadline (s : Sock) (q : Queue) : Nat := (q.items.head?.map s.expiry).getD 0

theorem Repr.timeout (repr : Repr s q front back) :
    ∃ s' front back, s.ebSocketTimeout = some (s', frontDeadline s q) ∧ Repr s' q front back ∧
      (if s'.first = ebNull then none else some s'.first) = q.items.head? ∧ s'.expiry = s.expiry := by
  have start : Repr s q ([] ++ front) back := repr
  obtain ⟨s', _, rest, back', advanced, repr', _, done, _, _, deadline, time⟩ := start.advance
  have expiry : s'.expiry = s.expiry := by
    funext response
    unfold Sock.expiry
    rw [deadline, time]
  have chain : Chain ebNull s'.next s'.first rest := repr'.first
  have items : q.items = rest ++ back'.reverse := repr'.items
  rw [List.getLast?_nil] at advanced
  have head : (if s'.first = ebNull then none else some s'.first) = q.items.head? := by
    cases rest with
    | nil =>
      rw [if_pos (show s'.first = ebNull from chain), items, done rfl]
      rfl
    | cons response rest =>
      rw [if_neg (fun none => by cases chain.head_eq.mp none), items, chain.1]
      rfl
  refine ⟨s', rest, back', ?_, repr', head, expiry⟩
  rw [ebSocketTimeout_eq, advanced, frontDeadline, ← head, ← expiry]
  by_cases none : s'.first = ebNull
  · simp [none]
  · simp [none]

theorem Repr.expire (repr : Repr s q front back) (now : Nat) :
    ∃ s' q' about, s.expire now = some (s', about) ∧ Moves s q (.expire now) q' about ∧
      ∃ front back, Lists s' q' front back := by
  unfold Sock.expire
  by_cases empty : s.first = ebNull
  · rw [if_pos empty]
    exact ⟨s, q, none, rfl, .waiting now (absurd empty), front, back, repr.toLists⟩
  · rw [if_neg empty]
    obtain ⟨s', front', back', looked, repr', head, _⟩ := repr.timeout
    rw [looked]
    dsimp only
    cases front with
    | nil => exact absurd repr.first empty
    | cons response rest =>
      have items : q.items = response :: (rest ++ back.reverse) := repr.items
      have value : frontDeadline s q = s.expiry response := by
        rw [frontDeadline, items]
        rfl
      rw [items, List.head?_cons] at head
      have first : s'.first = response := by
        split at head
        · cases head
        · exact Option.some.inj head
      rw [value]
      by_cases late : s.expiry response ≤ now
      · rw [if_pos late]
        cases front' with
        | nil =>
          rw [if_pos (show s'.first = ebNull from repr'.first)] at head
          cases head
        | cons other rest' =>
          have same : response = other := first.symm.trans repr'.first.1
          subst same
          have here : Repr s' q ([] ++ response :: rest') back' := repr'
          rw [first]
          exact ⟨_, _, some response, rfl, .expired now response (rest' ++ back'.reverse) repr'.items late, _, _,
            here.unlink⟩
      · rw [if_neg late]
        refine ⟨s', q, none, rfl, .waiting now (fun _ => ?_), front', back', repr'.toLists⟩
        rw [items, List.head?_cons]
        rintro _ ⟨⟩
        exact Nat.lt_of_not_le late

theorem Repr.kill (repr : Repr s q front back) (devicep : Nat) :
    ∃ s' front, s.ebSocketKillInflight devicep = some s' ∧
      Lists s' { q with
        items := q.items.filter fun item => !(s.device item == devicep)
        killed := (q.items.filter fun item => s.device item == devicep) :: q.killed } front [] := by
  obtain ⟨both, apart, few⟩ := repr.lists
  have nil : ∀ next : Nat → Nat, Chain ebNull next ebNull [] := fun _ => rfl
  let chosen : Nat → Bool := fun response => s.device response == devicep
  -- the newest responses first
  obtain ⟨next₁, good₁, bad₁, divided₁, goods₁, bads₁, frame₁⟩ := divide_spec chosen slots repr.last (nil _) (nil _)
    (List.disjoint_nil_right _) (List.disjoint_nil_right _) (by omega)
  rw [List.append_nil] at goods₁ bads₁
  have front₁ : Chain ebNull next₁ s.first front :=
    repr.first.congr fun item member => frame₁ item (fun behind => apart member behind)
  -- then the older ones, turned round
  obtain ⟨next₂, first₂, flipped, chain₂, frame₂⟩ := flip_spec slots front₁ (nil _) (List.disjoint_nil_right _) (by omega)
  rw [List.append_nil] at chain₂
  have behind : ∀ chosen : Nat → Bool, ∀ item ∈ (back.filter chosen).reverse, item ∉ front := by
    intro chosen item member inside
    exact apart inside (List.mem_of_mem_filter (List.mem_reverse.mp member))
  have goods₂ := goods₁.congr fun item member => frame₂ item (behind _ item member)
  have bads₂ := bads₁.congr fun item member => frame₂ item (behind _ item member)
  obtain ⟨next₃, good₃, bad₃, divided₃, goods₃, bads₃, frame₃⟩ := divide_spec chosen slots chain₂ goods₂ bads₂
    (by
      intro item member inside
      rw [List.mem_reverse] at member
      rcases List.mem_append.mp inside with kept | dropped
      · exact behind _ item kept member
      · exact behind _ item dropped member)
    (by
      intro item kept dropped
      have no := (List.mem_filter.mp (List.mem_reverse.mp kept)).2
      have yes := (List.mem_filter.mp (List.mem_reverse.mp dropped)).2
      rw [yes] at no
      cases no)
    (by rw [List.length_reverse]; omega)
  have filtered : ∀ chosen : Nat → Bool, (front.reverse.filter chosen).reverse ++ (back.filter chosen).reverse =
      q.items.filter chosen := by
    intro chosen
    rw [repr.items, List.filter_append, List.filter_reverse, List.reverse_reverse, List.filter_reverse]
  rw [filtered] at goods₃ bads₃
  refine ⟨{ s with next := next₃, first := good₃, last := ebNull, frames := bad₃ :: s.frames }, _, ?_,
    goods₃, rfl, by simp [chosen], .cons bads₃ ?_, repr.dying⟩
  · have first := divided₁
    have second := divided₃
    unfold Sock.ebSocketKillInflight Sock.ebSocketFilterInflight ebResponseFlip
    simp only [chosen] at first second
    rw [first]
    simp only [Option.bind_eq_bind, Option.bind_some, flipped, second]
    rfl
  · apply forall₂_chain repr.frames
    intro items member item inside
    have outside := repr.killed_apart member inside
    rw [List.mem_append, not_or] at outside
    calc next₃ item = next₂ item := frame₃ item (fun member => outside.1 (List.mem_reverse.mp member))
      _ = next₁ item := frame₂ item outside.1
      _ = s.next item := frame₁ item outside.2

theorem Repr.reap (repr : Repr s q front back) :
    ∃ q', Moves s q .reap q' s.reap.2 ∧ Lists s.reap.1 q' front back := by
  obtain ⟨items, killed, dying⟩ := q
  have frames := repr.frames
  unfold Sock.reap
  cases heads : s.frames with
  | nil =>
    rw [heads] at frames
    cases frames
    exact ⟨⟨items, [], dying⟩, .idle rfl, repr.toLists⟩
  | cons head heads' =>
    rw [heads] at frames
    cases frames with
    | @cons _ list _ lists chain rest =>
      dsimp only
      cases list with
      | nil =>
        rw [if_pos (show head = ebNull from chain)]
        exact ⟨_, .reaped lists rfl, repr.first, repr.last, repr.items, rest, repr.dying⟩
      | cons response list =>
        have some : head ≠ ebNull := fun none => by cases chain.head_eq.mp none
        obtain ⟨rfl, _, later⟩ := chain
        rw [if_neg some]
        refine ⟨_, .reap head list lists rfl, repr.first, repr.last, repr.items, .cons later rest, ?_⟩
        show head :: s.dying = _
        rw [repr.dying]

/-! ### Runs -/

/-- The allocator only returns slots that are not in use, and none that is null; a response is
freed once its callback has returned. -/
def Allowed (s : Sock) (live : List Nat) : Event → Prop
  | .send response _ _ _ => response ∉ live ∧ response < ebNull
  | .release response => response ∈ s.dying
  | _ => True

def allocated (live : List Nat) : Event → List Nat
  | .send response _ _ _ => response :: live
  | .release response => live.erase response
  | _ => live

/-- The states of a socket over all runs, with the responses allocated there. -/
inductive Reach : Sock → List Nat → Prop
  | fresh : Reach Sock.fresh []
  | event {s s' : Sock} {live : List Nat} {event : Event} {about : Option Nat} (before : Reach s live)
      (allowed : Allowed s live event) (stepped : step s event = some (s', about)) : Reach s' (allocated live event)

def Represents (s : Sock) (live : List Nat) (q : Queue) : Prop :=
  (∃ front back, Repr s q front back) ∧ live.Perm q.all

theorem Moves.all_perm {q q' : Queue} {event : Event} {about : Option Nat} (moves : Moves s q event q' about)
    (nodup : q.all.Nodup) (freed : ∀ response, event = .release response → response ∈ q.dying) :
    q'.all.Perm (allocated q.all event) := by
  cases moves with
  | send response =>
    simp only [Queue.all, allocated, List.append_assoc, List.singleton_append]
    exact List.perm_middle
  | ignored => exact List.Perm.refl _
  | answered => exact List.Perm.refl _
  | completed addr before after response split =>
    simp only [Queue.all, allocated, split, List.append_assoc, List.cons_append]
    apply List.Perm.append_left
    rw [← List.append_assoc, ← List.append_assoc]
    exact List.perm_middle.trans (by rw [List.append_assoc])
  | timeout => exact List.Perm.refl _
  | waiting => exact List.Perm.refl _
  | expired now response rest split =>
    simp only [Queue.all, allocated, split, List.append_assoc, List.cons_append]
    rw [← List.append_assoc]
    exact List.perm_middle.trans (by rw [List.append_assoc])
  | kill device =>
    have parts : ((q.items.filter fun item => !(s.device item == device)) ++
        q.items.filter fun item => s.device item == device).Perm q.items :=
      List.perm_append_comm.trans (List.filter_append_perm (fun item => s.device item == device) q.items)
    simp only [Queue.all, allocated, List.flatten_cons, List.append_assoc]
    rw [← List.append_assoc]
    exact parts.append_right _
  | reap response rest killed split =>
    simp only [Queue.all, allocated, split, List.flatten_cons, List.append_assoc, List.cons_append]
    apply List.Perm.append_left
    rw [← List.append_assoc]
    exact List.perm_middle.trans (by rw [List.append_assoc])
  | reaped killed split =>
    simp only [Queue.all, allocated, split, List.flatten_cons, List.nil_append]
    exact List.Perm.refl _
  | idle => exact List.Perm.refl _
  | release response =>
    have dying := freed response rfl
    have outside : response ∉ q.items ++ q.killed.flatten := by
      intro member
      exact List.disjoint_of_nodup_append nodup member dying
    simp only [allocated, Queue.all]
    rw [List.erase_append_right _ outside]

theorem Repr.step (repr : Repr s q front back) (event : Event)
    (allowed : Allowed s q.all event) : ∃ s' q' about, Inflight.step s event = some (s', about) ∧
      Moves s q event q' about ∧ ∃ front back, Lists s' q' front back := by
  cases event with
  | send response address deadline device =>
    exact ⟨_, _, _, rfl, .send response address deadline device, _, _,
      repr.send response address deadline device allowed.1 allowed.2⟩
  | reply addr complete => exact repr.reply addr complete
  | timeout =>
    obtain ⟨s', front', back', looked, repr', head, _⟩ := repr.timeout
    refine ⟨s', q, q.items.head?, ?_, .timeout, front', back', repr'.toLists⟩
    rw [Inflight.step, looked, ← head]
    rfl
  | expire now => exact repr.expire now
  | kill device =>
    obtain ⟨s', front', killed, lists⟩ := repr.kill device
    refine ⟨s', _, none, ?_, .kill device, front', [], lists⟩
    rw [Inflight.step, killed]
    rfl
  | reap =>
    obtain ⟨q', moves, lists⟩ := repr.reap
    exact ⟨s.reap.1, q', s.reap.2, rfl, moves, front, back, lists⟩
  | release response =>
    refine ⟨_, _, _, rfl, .release response, front, back, repr.first, repr.last, repr.items, repr.frames, ?_⟩
    show s.dying.erase response = _
    rw [repr.dying]

variable {live : List Nat}

theorem Represents.step (represents : Represents s live q) (event : Event)
    (allowed : Allowed s live event) : ∃ s' q' about, Inflight.step s event = some (s', about) ∧
      Moves s q event q' about ∧ Represents s' (allocated live event) q' := by
  obtain ⟨⟨front, back, repr⟩, same⟩ := represents
  have allowed' : Allowed s q.all event := by
    cases event with
    | send response => exact ⟨fun member => allowed.1 (same.mem_iff.mpr member), allowed.2⟩
    | _ => exact allowed
  obtain ⟨s', q', about, stepped, moves, front', back', lists⟩ := repr.step event allowed'
  have perm := moves.all_perm repr.nodup (by
    rintro response rfl
    exact repr.dying ▸ allowed)
  have whole : (allocated live event).Perm q'.all := by
    refine List.Perm.trans ?_ perm.symm
    cases event with
    | send response => exact same.cons response
    | release response => exact same.erase response
    | _ => exact same
  refine ⟨s', q', about, stepped, moves, ⟨front', back', lists, ?_, ?_⟩, whole⟩
  · apply perm.nodup_iff.mpr
    cases event with
    | send response => exact List.nodup_cons.mpr ⟨allowed'.1, repr.nodup⟩
    | release response => exact repr.nodup.erase response
    | _ => exact repr.nodup
  · intro item member
    have old := perm.mem_iff.mp member
    cases event with
    | send response =>
      rcases List.mem_cons.mp old with rfl | before
      · exact allowed'.2
      · exact repr.bounded item before
    | release response => exact repr.bounded item (List.mem_of_mem_erase old)
    | _ => exact repr.bounded item old

theorem Reach.represents (reach : Reach s live) : ∃ q, Represents s live q := by
  induction reach with
  | fresh => exact ⟨⟨[], [], []⟩, ⟨[], [], repr_fresh⟩, List.Perm.refl _⟩
  | event _ allowed stepped ih =>
    obtain ⟨q, represents⟩ := ih
    obtain ⟨s', q', about, again, _, next⟩ := represents.step _ allowed
    rw [stepped] at again
    cases again
    exact ⟨q', next⟩

/-- What the time-out does: it answers when the oldest response expires, and the check behind
it removes that response if it has, and none otherwise. -/
def TimesOut (s : Sock) (live : List Nat) (q : Queue) : Prop :=
  ∃ seen, s.ebSocketTimeout = some (seen, frontDeadline s q) ∧ Represents seen live q ∧ ∀ now, ∃ s' q',
    step seen (.expire now) = some (s', q.items.head?.filter (s.expiry · ≤ now)) ∧
      Moves seen q (.expire now) q' (q.items.head?.filter (s.expiry · ≤ now)) ∧ Represents s' live q'

theorem Represents.timesOut (represents : Represents s live q) : TimesOut s live q := by
  obtain ⟨⟨front, back, repr⟩, same⟩ := represents
  obtain ⟨seen, front', back', looked, repr', head, expiry⟩ := repr.timeout
  have after : Represents seen live q := ⟨⟨front', back', repr'⟩, same⟩
  refine ⟨seen, looked, after, fun now => ?_⟩
  obtain ⟨s', q', about, stepped, moves, done⟩ := after.step (.expire now) trivial
  have removed : about = q.items.head?.filter (s.expiry · ≤ now) := by
    rw [← expiry]
    cases moves with
    | waiting _ early =>
      cases items : q.items with
      | nil => rfl
      | cons response rest =>
        rw [items, List.head?_cons] at head early
        have some : seen.first ≠ ebNull := by
          intro none
          rw [if_pos none] at head
          cases head
        have late := early some response rfl
        rw [List.head?_cons, Option.filter_some, if_neg (by simpa using late)]
    | expired _ response rest split late =>
      rw [split, List.head?_cons, Option.filter_some, if_pos (decide_eq_true late)]
  exact ⟨s', q', removed ▸ stepped, removed ▸ moves, done⟩

/-- The two lists of a socket are one queue. In every state reached they hold it, with no
response lost or in two places, and whatever happens next ends and moves it as it should. A
time-out finds the oldest response in it, wherever that lies. -/
theorem responses_refine_queue (s : Sock) (live : List Nat) (reach : Reach s live) :
    ∃ q, Represents s live q ∧ (∀ event, Allowed s live event → ∃ s' q' about, step s event = some (s', about) ∧
      Moves s q event q' about ∧ Represents s' (allocated live event) q') ∧ TimesOut s live q := by
  obtain ⟨q, represents⟩ := reach.represents
  exact ⟨q, represents, fun event allowed => represents.step event allowed, represents.timesOut⟩

/-- Three responses of two devices: the first device is killed, or the oldest response times
out, which is still in the second list. -/
theorem responses_refine_queue_killed :
    ∃ s q, Represents s [3, 2, 1] q ∧ (∃ s' q', step s (.kill 7) = some (s', none) ∧ Moves s q (.kill 7) q' none ∧
      Represents s' [3, 2, 1] q') ∧ s.first = ebNull ∧ TimesOut s [3, 2, 1] q := by
  have send : ∀ {s : Sock} {live : List Nat}, Reach s live → ∀ response address device, response ∉ live →
      response < ebNull → Reach (s.send response address 5 device) (response :: live) := by
    intro s live reach response address device new small
    have allowed : Allowed s live (.send response address 5 device) := ⟨new, small⟩
    exact reach.event allowed rfl
  have third := send (send (send .fresh 1 0x8000 7 (by decide) (by decide)) 2 0x8002 8 (by decide) (by decide))
    3 0x8004 7 (by decide) (by decide)
  obtain ⟨q, represents, next, timed⟩ := responses_refine_queue _ _ third
  obtain ⟨s', q', about, stepped, moves, after⟩ := next (.kill 7) trivial
  cases moves
  exact ⟨_, q, represents, ⟨s', _, stepped, .kill 7, after⟩, rfl, timed⟩

end BelProject.Etherbone.Inflight
