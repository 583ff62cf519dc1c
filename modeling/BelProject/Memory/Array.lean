import BelProject.Library.LinkedList
import Mathlib.Tactic

/-! The array allocator. All objects of the library live in one array of unions with 16-bit
indices; free slots are threaded through the array itself, and the array doubles when none
is left. -/

namespace BelProject.Memory.Array
open BelProject.Library LinkedList

/-- `EB_NULL`, which is also `EB_END_OF_FREE`. -/
abbrev ebNull : Nat := 65535

/-- `union eb_memory_item`: a link of the free list, or an object. -/
inductive Item (α : Type) where
  | free (next : Nat)
  | object (value : α)

section
variable {α : Type}

/-- `free_item.next` of a slot; `overlay` is what the link of an object reads as. -/
def Item.next (overlay : α → Nat) : Item α → Nat
  | .free next => next
  | .object value => overlay value

/-- The globals of `array.c` and `dynamic.c`. -/
structure Arena (α : Type) where
  present : Bool
  items : Nat → Item α
  size : Nat
  free : Nat
  used : Nat

/-- Before the first allocation. What `malloc` will find in its memory is unknown. -/
def Arena.start (garbage : Nat → Item α) : Arena α := ⟨false, garbage, 128, ebNull, 0⟩

/-- The loop that links the new half together. -/
def linkItems (items : Nat → Item α) (i : Nat) : Nat → (Nat → Item α)
  | 0 => items
  | count + 1 => linkItems (Function.update items i (.free ((i + 1) % 2 ^ 16))) (i + 1) count

/-- `eb_expand_array`; `granted` is the answer of `realloc` or `malloc`. -/
def ebExpandArray (granted : Bool) (s : Arena α) : Option (Arena α) :=
  if s.size = 65536 then none
  else if granted then
    let nextSize := s.size + s.size
    let linked := linkItems s.items s.size (nextSize - s.size)
    some { s with
      present := true
      items := Function.update linked (nextSize - 1) (.free ebNull)
      free := s.size % 2 ^ 16
      size := nextSize }
  else none

def takeItem (overlay : α → Nat) (s : Arena α) : Nat × Arena α :=
  (s.free, { s with free := (s.items s.free).next overlay, used := (s.used + 1) % 2 ^ 16 })

def ebNewMemoryItem (overlay : α → Nat) (granted : Bool) (s : Arena α) : Nat × Arena α :=
  if s.free = ebNull then
    match ebExpandArray granted s with
    | none => (ebNull, s)
    | some s => takeItem overlay s
  else takeItem overlay s

def ebFreeMemoryItem (item : Nat) (s : Arena α) : Arena α :=
  { s with
    items := Function.update s.items item (.free s.free)
    free := item
    used := (s.used + 2 ^ 16 - 1) % 2 ^ 16 }

/-- The arena together with the slots handed out and not yet returned. -/
structure Pool (α : Type) where
  arena : Arena α
  live : List Nat

inductive Event (α : Type) where
  | new (granted : Bool)
  | free (item : Nat)
  | write (item : Nat) (value : α)

/-- Objects are only released or written while they are live. -/
def step (overlay : α → Nat) (s : Pool α) : Event α → Option (Pool α)
  | .new granted =>
    let (item, arena) := ebNewMemoryItem overlay granted s.arena
    some ⟨arena, if item = ebNull then s.live else item :: s.live⟩
  | .free item => if item ∈ s.live then some ⟨ebFreeMemoryItem item s.arena, s.live.erase item⟩ else none
  | .write item value =>
    if item ∈ s.live then
      some { s with arena := { s.arena with items := Function.update s.arena.items item (.object value) } }
    else none

def run (overlay : α → Nat) (s : Pool α) : List (Event α) → Option (Pool α)
  | [] => some s
  | event :: events => (step overlay s event).bind fun s => run overlay s events

/-- The slots of the array. The index that is the null pointer cannot be one. -/
def Slot (s : Arena α) (item : Nat) : Prop := s.present = true ∧ item < s.size ∧ item ≠ ebNull

/-- The slots an expansion has linked, as far as the code goes: the first array has 256 slots,
but only its upper half is linked. -/
def Managed (s : Arena α) (item : Nat) : Prop := s.present = true ∧ 128 ≤ item ∧ item < s.size ∧ item ≠ ebNull

/-- The free list holds exactly the managed slots that are not live. -/
structure Sound (overlay : α → Nat) (s : Pool α) (free : List Nat) : Prop where
  chain : Chain ebNull (fun item => (s.arena.items item).next overlay) s.arena.free free
  nodup : s.live.Nodup
  covers : ∀ item, Managed s.arena item ↔ item ∈ free ∨ item ∈ s.live
  apart : free.Disjoint s.live
  used_eq : s.arena.used = s.live.length
  absent : s.arena.present = false → s.arena.size = 128
  sizes : ∃ k, k ≤ 9 ∧ s.arena.size = 128 * 2 ^ k

variable {overlay : α → Nat}

theorem sound_start (garbage : Nat → Item α) : Sound overlay ⟨Arena.start garbage, []⟩ [] :=
  ⟨rfl, List.nodup_nil, by simp [Managed, Arena.start], by simp, rfl, fun _ => rfl, 0, by simp [Arena.start]⟩

variable {s : Pool α}

theorem Sound.live_lt {free : List Nat} (sound : Sound overlay s free) :
    s.live.length + free.length ≤ s.arena.size - 128 ∧ s.arena.size ≤ 65536 := by
  obtain ⟨k, small, size⟩ := sound.sizes
  have bound : s.arena.size ≤ 65536 := by
    rw [size]
    calc 128 * 2 ^ k ≤ 128 * 2 ^ 9 := Nat.mul_le_mul_left _ (Nat.pow_le_pow_right (by decide) small)
      _ = 65536 := by decide
  refine ⟨?_, bound⟩
  have both : (free ++ s.live).Nodup := List.Nodup.append sound.chain.nodup sound.nodup sound.apart
  have inside : ∀ item ∈ free ++ s.live, item ∈ Finset.Ico 128 s.arena.size := by
    intro item member
    have managed := (sound.covers item).mpr (List.mem_append.mp member)
    exact Finset.mem_Ico.mpr ⟨managed.2.1, managed.2.2.1⟩
  calc s.live.length + free.length = (free ++ s.live).toFinset.card := by
        rw [List.toFinset_card_of_nodup both, List.length_append, Nat.add_comm]
    _ ≤ (Finset.Ico 128 s.arena.size).card :=
        Finset.card_le_card (fun item member => inside item (List.mem_toFinset.mp member))
    _ = s.arena.size - 128 := Nat.card_Ico _ _

theorem linkItems_eq (items : Nat → Item α) (i count item : Nat) :
    linkItems items i count item =
      if i ≤ item ∧ item < i + count then .free ((item + 1) % 2 ^ 16) else items item := by
  induction count generalizing items i with
  | zero => rw [if_neg (by omega)]; rfl
  | succ count ih =>
    rw [linkItems, ih]
    by_cases later : i + 1 ≤ item ∧ item < i + 1 + count
    · rw [if_pos later, if_pos (by omega)]
    · rw [if_neg later]
      by_cases here : item = i
      · rw [here, Function.update_self, if_pos (by omega)]
      · rw [Function.update_of_ne here, if_neg (by omega)]

theorem chain_linked (next : Nat → Nat) (first count : Nat) (small : first + count ≤ ebNull)
    (linked : ∀ item, first ≤ item → item < first + count →
      next item = if item + 1 = first + count then ebNull else item + 1) (some : count ≠ 0 ∨ first = ebNull) :
    Chain ebNull next first (List.range' first count) := by
  induction count generalizing first with
  | zero => exact some.resolve_left (by simp)
  | succ count ih =>
    rw [List.range'_succ]
    refine ⟨rfl, by unfold ebNull at small ⊢; omega, ?_⟩
    rw [linked first le_rfl (by omega)]
    cases count with
    | zero => simp [Chain]
    | succ count =>
      rw [if_neg (by omega)]
      apply ih (first + 1) (by omega)
      · intro item low high
        rw [linked item (by omega) (by omega)]
        congr 1
        exact propext ⟨fun same => by omega, fun same => by omega⟩
      · exact Or.inl (by simp)

/-- With an empty free list an expansion succeeds unless memory or indices run out, and makes
exactly the new slots free. -/
theorem Sound.expand (sound : Sound overlay s []) {arena : Arena α} {granted : Bool}
    (expanded : ebExpandArray granted s.arena = some arena) :
    (∃ free, Sound overlay ⟨arena, s.live⟩ free ∧ free ≠ []) ∧ s.arena.size ≤ arena.size ∧
      ∀ item ∈ s.live, arena.items item = s.arena.items item := by
  unfold ebExpandArray at expanded
  split at expanded
  · cases expanded
  next notFull =>
  split at expanded
  next =>
    obtain ⟨k, small, size⟩ := sound.sizes
    have less : k ≤ 8 := by
      by_contra more
      have nine : k = 9 := by omega
      rw [nine] at size
      exact notFull (size.trans (by decide))
    have half : s.arena.size ≤ 32768 := by
      rw [size]
      calc 128 * 2 ^ k ≤ 128 * 2 ^ 8 := Nat.mul_le_mul_left _ (Nat.pow_le_pow_right (by decide) less)
        _ = 32768 := by decide
    have low : 128 ≤ s.arena.size := by
      rw [size]
      exact Nat.le_mul_of_pos_right _ (Nat.two_pow_pos _)
    have null : ebNull = 65535 := rfl
    have same := (Option.some.inj expanded).symm
    subst same
    -- the index 65535 is linked as well, but it is the end of the list
    have top : min (s.arena.size + s.arena.size) ebNull - s.arena.size ≠ 0 := by omega
    have untouched : ∀ item ∈ s.live, item < s.arena.size := by
      intro item member
      exact ((sound.covers item).mpr (Or.inr member)).2.2.1
    have linked : ∀ item, Function.update (linkItems s.arena.items s.arena.size
          (s.arena.size + s.arena.size - s.arena.size)) (s.arena.size + s.arena.size - 1) (Item.free ebNull) item =
        if s.arena.size ≤ item ∧ item < s.arena.size + s.arena.size then
          Item.free (if item + 1 = s.arena.size + s.arena.size then ebNull else item + 1)
        else s.arena.items item := by
      intro item
      by_cases last : item = s.arena.size + s.arena.size - 1
      · rw [last, Function.update_self, if_pos (by omega), if_pos (by omega)]
      · rw [Function.update_of_ne last, linkItems_eq, Nat.add_sub_cancel]
        split
        · rw [if_neg (by omega), Nat.mod_eq_of_lt (by omega)]
        · rfl
    refine ⟨⟨List.range' s.arena.size (min (s.arena.size + s.arena.size) ebNull - s.arena.size), ?_, ?_⟩, ?_, ?_⟩
    · refine ⟨?_, sound.nodup, ?_, ?_, sound.used_eq, by simp, k + 1, by omega, ?_⟩
      · dsimp only
        rw [Nat.mod_eq_of_lt (by omega)]
        apply chain_linked
        · omega
        · intro item first last
          rw [linked, if_pos (by omega)]
          simp only [Item.next]
          split_ifs <;> omega
        · exact Or.inl top
      · intro item
        have before := sound.covers item
        simp only [Managed, List.not_mem_nil, false_or] at before ⊢
        rw [List.mem_range'_1]
        constructor
        · rintro ⟨-, above, below, some⟩
          by_cases old : item < s.arena.size
          · right
            apply before.mp
            refine ⟨?_, above, old, some⟩
            by_contra absent
            have := sound.absent (by simpa using absent)
            omega
          · left
            omega
        · rintro (new | old)
          · refine ⟨trivial, by omega, by omega, by omega⟩
          · obtain ⟨-, above, below, some⟩ := before.mpr old
            exact ⟨trivial, above, by omega, some⟩
      · intro item member old
        have := untouched item old
        rw [List.mem_range'_1] at member
        omega
      · rw [size]
        ring
    · intro none
      have := congrArg List.length none
      rw [List.length_range'] at this
      exact top this
    · dsimp only
      omega
    · intro item member
      have := untouched item member
      dsimp only
      rw [linked, if_neg (by omega)]
  · cases expanded

theorem Sound.take {item : Nat} {free : List Nat} (sound : Sound overlay s (item :: free)) :
    (takeItem overlay s.arena).1 = item ∧
      Sound overlay ⟨(takeItem overlay s.arena).2, item :: s.live⟩ free := by
  obtain ⟨first, some, rest⟩ := sound.chain
  have fresh : item ∉ s.live := List.disjoint_left.mp sound.apart List.mem_cons_self
  have nodup := List.nodup_cons.mp sound.chain.nodup
  have room := sound.live_lt
  refine ⟨first, ?_, List.nodup_cons.mpr ⟨fresh, sound.nodup⟩, ?_, ?_, ?_, sound.absent, sound.sizes⟩
  · simp only [takeItem]
    rw [first]
    exact rest
  · intro other
    have before := sound.covers other
    rw [List.mem_cons] at before ⊢
    rw [or_assoc, or_left_comm] at before
    exact before
  · rw [List.disjoint_cons_right]
    exact ⟨nodup.1, (List.disjoint_cons_left.mp sound.apart).2⟩
  · simp only [takeItem, List.length_cons]
    rw [sound.used_eq, Nat.mod_eq_of_lt]
    simp only [List.length_cons] at room
    omega

theorem Sound.new {free : List Nat} (sound : Sound overlay s free) (granted : Bool) :
    (ebNewMemoryItem overlay granted s.arena = (ebNull, s.arena) ∧ free = [] ∧
        (granted = false ∨ s.arena.size = 65536)) ∨
      ∃ item rest arena, ebNewMemoryItem overlay granted s.arena = (item, arena) ∧ item ≠ ebNull ∧
        item < arena.size ∧ item ∉ s.live ∧ s.arena.size ≤ arena.size ∧
        (∀ other ∈ s.live, arena.items other = s.arena.items other) ∧
        Sound overlay ⟨arena, item :: s.live⟩ rest := by
  have taken : ∀ (arena : Arena α) (item : Nat) (rest : List Nat), Sound overlay ⟨arena, s.live⟩ (item :: rest) →
      (takeItem overlay arena).1 = item ∧ item ≠ ebNull ∧ item < (takeItem overlay arena).2.size ∧ item ∉ s.live ∧
        Sound overlay ⟨(takeItem overlay arena).2, item :: s.live⟩ rest := by
    intro arena item rest found
    obtain ⟨same, next⟩ := found.take
    have managed := (found.covers item).mpr (Or.inl List.mem_cons_self)
    exact ⟨same, managed.2.2.2, managed.2.2.1, List.disjoint_left.mp found.apart List.mem_cons_self, next⟩
  unfold ebNewMemoryItem
  cases free with
  | nil =>
    rw [if_pos (show s.arena.free = ebNull from sound.chain)]
    cases expanded : ebExpandArray granted s.arena with
    | none =>
      refine Or.inl ⟨rfl, rfl, ?_⟩
      unfold ebExpandArray at expanded
      split_ifs at expanded with full yes
      · exact Or.inr full
      · exact Or.inl (by simpa using yes)
    | some arena =>
      right
      obtain ⟨⟨free, next, more⟩, grown, kept⟩ := sound.expand expanded
      obtain ⟨item, rest, rfl⟩ := List.exists_cons_of_ne_nil more
      obtain ⟨same, some, inside, fresh, done⟩ := taken arena item rest next
      exact ⟨item, rest, (takeItem overlay arena).2, Prod.ext same rfl, some, inside, fresh, grown, kept, done⟩
  | cons item rest =>
    right
    rw [if_neg (fun none => by cases sound.chain.head_eq.mp none)]
    obtain ⟨same, some, inside, fresh, done⟩ := taken s.arena item rest sound
    exact ⟨item, rest, (takeItem overlay s.arena).2, Prod.ext same rfl, some, inside, fresh, le_rfl, fun _ _ => rfl,
      done⟩

theorem Sound.free {free : List Nat} (sound : Sound overlay s free) {item : Nat} (live : item ∈ s.live) :
    Sound overlay ⟨ebFreeMemoryItem item s.arena, s.live.erase item⟩ (item :: free) := by
  have managed := (sound.covers item).mpr (Or.inr live)
  have apart : item ∉ free := fun member => List.disjoint_left.mp sound.apart member live
  have positive := List.length_pos_of_mem live
  have room := sound.live_lt
  refine ⟨?_, sound.nodup.erase item, ?_, ?_, ?_, sound.absent, sound.sizes⟩
  · refine ⟨rfl, managed.2.2.2, ?_⟩
    have link : ((ebFreeMemoryItem item s.arena).items item).next overlay = s.arena.free := by
      simp only [ebFreeMemoryItem, Function.update_self, Item.next]
    dsimp only
    rw [link]
    apply sound.chain.congr
    intro other member
    have different : other ≠ item := by
      rintro rfl
      exact apart member
    simp only [ebFreeMemoryItem, Function.update_of_ne different]
  · intro other
    have before := sound.covers other
    simp only [Managed, ebFreeMemoryItem] at before ⊢
    rw [before, List.mem_cons, sound.nodup.mem_erase_iff]
    by_cases same : other = item
    · simp [same, live]
    · simp [same]
  · rw [List.disjoint_cons_left]
    refine ⟨fun member => (sound.nodup.mem_erase_iff.mp member).1 rfl, ?_⟩
    intro other member old
    exact List.disjoint_left.mp sound.apart member (List.mem_of_mem_erase old)
  · simp only [ebFreeMemoryItem]
    rw [sound.used_eq, List.length_erase_of_mem live,
      show s.live.length + 2 ^ 16 - 1 = s.live.length - 1 + 2 ^ 16 by omega, Nat.add_mod_right, Nat.mod_eq_of_lt (by omega)]

theorem Sound.write {free : List Nat} (sound : Sound overlay s free) {item : Nat} (live : item ∈ s.live)
    (value : α) : Sound overlay
      { s with arena := { s.arena with items := Function.update s.arena.items item (.object value) } } free := by
  refine ⟨?_, sound.nodup, sound.covers, sound.apart, sound.used_eq, sound.absent, sound.sizes⟩
  apply sound.chain.congr
  intro other member
  have different : other ≠ item := by
    rintro rfl
    exact List.disjoint_left.mp sound.apart member live
  dsimp only
  rw [Function.update_of_ne different]

theorem Sound.step_new {free : List Nat} (sound : Sound overlay s free) (granted : Bool) :
    (step overlay s (.new granted) = some s ∧ (granted = false ∨ s.arena.size = 65536)) ∨
      ∃ item arena rest, step overlay s (.new granted) = some ⟨arena, item :: s.live⟩ ∧
        s.arena.size ≤ arena.size ∧ Sound overlay ⟨arena, item :: s.live⟩ rest := by
  rcases sound.new granted with ⟨failed, _, why⟩ | ⟨item, rest, arena, got, some, _, _, grown, _, done⟩
  · exact Or.inl ⟨by simp only [step, failed, if_true], why⟩
  · exact Or.inr ⟨item, arena, rest, by simp only [step, got, if_neg some], grown, done⟩

variable {s next : Pool α}

theorem Sound.step {free : List Nat} (sound : Sound overlay s free) {event : Event α}
    (stepped : step overlay s event = some next) : ∃ free, Sound overlay next free := by
  cases event with
  | new granted =>
    rcases sound.step_new granted with ⟨same, _⟩ | ⟨item, arena, rest, got, _, done⟩
    · rw [same] at stepped
      exact ⟨free, Option.some.inj stepped ▸ sound⟩
    · rw [got] at stepped
      exact ⟨rest, Option.some.inj stepped ▸ done⟩
  | free item =>
    simp only [Array.step] at stepped
    split at stepped
    next live =>
      cases stepped
      exact ⟨_, sound.free live⟩
    · cases stepped
  | write item value =>
    simp only [Array.step] at stepped
    split at stepped
    next live =>
      cases stepped
      exact ⟨_, sound.write live value⟩
    · cases stepped

theorem Sound.run {free : List Nat} (sound : Sound overlay s free) {events : List (Event α)}
    (ran : run overlay s events = some next) : ∃ free, Sound overlay next free := by
  induction events generalizing s free with
  | nil =>
    cases ran
    exact ⟨free, sound⟩
  | cons event events ih =>
    obtain ⟨mid, stepped, rest⟩ := Option.bind_eq_some_iff.mp ran
    obtain ⟨free, after⟩ := sound.step stepped
    exact ih after rest

/-- What holds of the allocator between two calls, `among` being the slots it hands out. -/
structure Consistent (overlay : α → Nat) (among : Nat → Prop) (s : Pool α) : Prop where
  free_list : ∃ free, Chain ebNull (fun item => (s.arena.items item).next overlay) s.arena.free free ∧ free.Nodup ∧
    ∀ item, item ∈ free ↔ among item ∧ item ∉ s.live
  live_among : ∀ item ∈ s.live, among item
  live_nodup : s.live.Nodup
  used_eq : s.arena.used = s.live.length

/-- What a request for a slot does to it. -/
def Serves (overlay : α → Nat) (s : Pool α) (granted : Bool) : Prop :=
  (ebNewMemoryItem overlay granted s.arena = (ebNull, s.arena) ∧ s.arena.free = ebNull ∧
      (granted = false ∨ s.arena.size = 65536)) ∨
    ∃ item arena, ebNewMemoryItem overlay granted s.arena = (item, arena) ∧ item ≠ ebNull ∧ item < arena.size ∧
      item ∉ s.live ∧ ∀ other ∈ s.live, other < arena.size ∧ arena.items other = s.arena.items other

/-- In every run the free list is the list of the linked slots that are not live. A request
returns one of them or changes nothing, and no other slot is touched. -/
theorem ebNewMemoryItem_consistent (garbage : Nat → Item α) (events : List (Event α)) (s : Pool α)
    (ran : run overlay ⟨Arena.start garbage, []⟩ events = some s) :
    Consistent overlay (Managed s.arena) s ∧ (∀ granted, Serves overlay s granted) ∧
      (∀ item other, other ≠ item → (ebFreeMemoryItem item s.arena).items other = s.arena.items other) := by
  obtain ⟨free, sound⟩ := (sound_start garbage).run ran
  refine ⟨⟨⟨free, sound.chain, sound.chain.nodup, ?_⟩, ?_, sound.nodup, sound.used_eq⟩, ?_, ?_⟩
  · intro item
    rw [sound.covers]
    constructor
    · intro member
      exact ⟨Or.inl member, List.disjoint_left.mp sound.apart member⟩
    · rintro ⟨member | live, dead⟩
      · exact member
      · exact absurd live dead
  · intro item live
    exact (sound.covers item).mpr (Or.inr live)
  · intro granted
    rcases sound.new granted with ⟨failed, none, why⟩ | ⟨item, rest, arena, got, some, inside, fresh, grown, kept, _⟩
    · exact Or.inl ⟨failed, sound.chain.head_eq.mpr none, why⟩
    · refine Or.inr ⟨item, arena, got, some, inside, fresh, ?_⟩
      intro other live
      have managed := (sound.covers other).mpr (Or.inr live)
      exact ⟨lt_of_lt_of_le managed.2.2.1 grown, kept other live⟩
  · intro item other different
    exact Function.update_of_ne different _ _

/-! ### The lower half of the first array -/

theorem Sound.present_of_mem {free : List Nat} (sound : Sound overlay s free)
    (some : free ≠ []) : s.arena.present = true := by
  obtain ⟨item, member⟩ := List.exists_mem_of_ne_nil free some
  exact ((sound.covers item).mpr (Or.inl member)).1

theorem Sound.step_present {free : List Nat} (sound : Sound overlay s free) {event : Event α}
    (stepped : Array.step overlay s event = some next) :
    next.arena.present = true ↔ s.arena.present = true ∨ event = .new true := by
  cases event with
  | new granted =>
    have arena : next.arena = (ebNewMemoryItem overlay granted s.arena).2 :=
      congrArg Pool.arena (Option.some.inj stepped).symm
    rw [arena]
    unfold ebNewMemoryItem
    cases free with
    | cons item rest =>
      have present := sound.present_of_mem (List.cons_ne_nil item rest)
      rw [if_neg (fun none => by cases sound.chain.head_eq.mp none)]
      exact iff_of_true present (Or.inl present)
    | nil =>
      rw [if_pos (show s.arena.free = ebNull from sound.chain)]
      unfold ebExpandArray
      by_cases full : s.arena.size = 65536
      · have present : s.arena.present = true := by
          by_contra absent
          have small := sound.absent (Bool.eq_false_of_not_eq_true absent)
          omega
        rw [if_pos full]
        exact iff_of_true present (Or.inl present)
      · rw [if_neg full]
        cases granted with
        | true => exact iff_of_true rfl (Or.inr rfl)
        | false => simp
  | free item =>
    simp only [Array.step] at stepped
    split at stepped
    · cases stepped
      simp [ebFreeMemoryItem]
    · cases stepped
  | write item value =>
    simp only [Array.step] at stepped
    split at stepped
    · cases stepped
      simp
    · cases stepped

theorem Sound.run_present {free : List Nat} (sound : Sound overlay s free)
    {events : List (Event α)} (ran : Array.run overlay s events = some next) :
    next.arena.present = true ↔ s.arena.present = true ∨ .new true ∈ events := by
  induction events generalizing s free with
  | nil =>
    cases ran
    simp
  | cons event events ih =>
    obtain ⟨mid, stepped, rest⟩ := Option.bind_eq_some_iff.mp ran
    obtain ⟨free', after⟩ := sound.step stepped
    rw [ih after rest, sound.step_present stepped, List.mem_cons, or_assoc, eq_comm (a := event)]

/-- Slot 0 is there from the first expansion on, but the loop that links the array starts
behind it. -/
theorem Sound.lost {free : List Nat} (sound : Sound overlay s free) (present : s.arena.present = true) :
    Slot s.arena 0 ∧ 0 ∉ s.live ∧ 0 ∉ free := by
  obtain ⟨k, _, size⟩ := sound.sizes
  have unmanaged : ¬ Managed s.arena 0 := fun managed => absurd managed.2.1 (by decide)
  rw [sound.covers, not_or] at unmanaged
  refine ⟨⟨present, ?_, by decide⟩, unmanaged.2, unmanaged.1⟩
  rw [size]
  exact Nat.mul_pos (by decide) (Nat.two_pow_pos k)

/-- The free list is exact, with all else that a request and a release keep, as long as no
array has been granted. From the first expansion on slots of the array are lost. -/
theorem ebNewMemoryItem_exact_iff (garbage : Nat → Item α) (events : List (Event α)) (s : Pool α)
    (ran : run overlay ⟨Arena.start garbage, []⟩ events = some s) :
    (Consistent overlay (Slot s.arena) s ∧ (∀ granted, Serves overlay s granted) ∧
        (∀ item other, other ≠ item → (ebFreeMemoryItem item s.arena).items other = s.arena.items other)) ↔
      .new true ∉ events := by
  obtain ⟨free, sound⟩ := (sound_start garbage).run ran
  obtain ⟨kept, serves, frame⟩ := ebNewMemoryItem_consistent garbage events s ran
  have present := (sound_start garbage).run_present ran
  rw [show (Arena.start garbage).present = false from rfl, Bool.false_eq_true, false_or] at present
  rw [← present]
  constructor
  · rintro ⟨exact, -, -⟩ there
    obtain ⟨slot, dead, unlinked⟩ := sound.lost there
    obtain ⟨others, chain, -, members⟩ := exact.free_list
    rw [sound.chain.unique chain] at unlinked
    exact unlinked ((members 0).mpr ⟨slot, dead⟩)
  · intro absent
    have none : Slot s.arena = Managed s.arena := by
      funext item
      exact propext ⟨fun slot => absurd slot.1 absent, fun managed => absurd managed.1 absent⟩
    rw [none]
    exact ⟨kept, serves, frame⟩

theorem Sound.run_granted {free : List Nat} (sound : Sound overlay s free) (count : Nat) :
    ∃ next rest, Array.run overlay s (List.replicate count (.new true)) = some next ∧ Sound overlay next rest ∧
      s.arena.size ≤ next.arena.size ∧ (next.live.length = s.live.length + count ∨ next.arena.size = 65536) := by
  induction count generalizing s free with
  | zero => exact ⟨s, free, rfl, sound, le_rfl, Or.inl rfl⟩
  | succ count ih =>
    rw [List.replicate_succ]
    rcases sound.step_new true with ⟨same, full⟩ | ⟨item, arena, rest, got, grown, done⟩
    · obtain ⟨next, free', ran, after, larger, _⟩ := ih sound
      refine ⟨next, free', by rw [Array.run, same]; exact ran, after, larger, Or.inr ?_⟩
      have full : s.arena.size = 65536 := full.resolve_left (by simp)
      exact le_antisymm after.live_lt.2 (full ▸ larger)
    · obtain ⟨next, free', ran, after, larger, length⟩ := ih done
      refine ⟨next, free', by rw [Array.run, got]; exact ran, after, grown.trans larger, length.imp_left ?_⟩
      intro same
      rw [same, List.length_cons]
      omega

end

theorem run_first : ∃ s free, Array.run (fun _ : Unit => 0) ⟨Arena.start (fun _ => .free 0), []⟩ [.new true] = some s ∧
    Sound (fun _ => 0) s free ∧ s.arena.present = true := by
  have fresh : Sound (fun _ : Unit => 0) ⟨Arena.start (fun _ => .free 0), []⟩ [] := sound_start _
  obtain ⟨s, free, ran, sound, _⟩ := fresh.run_granted 1
  exact ⟨s, free, ran, sound, (fresh.run_present ran).mpr (Or.inr List.mem_cons_self)⟩

/-- The first slot requested: slot 0 of the new array is neither live nor on the free list. -/
theorem ebNewMemoryItem_lost_slot :
    ∃ s : Pool Unit, run (fun _ => 0) ⟨Arena.start (fun _ => .free 0), []⟩ [.new true] = some s ∧
      Slot s.arena 0 ∧ 0 ∉ s.live ∧
      ∀ free, Chain ebNull (fun item => (s.arena.items item).next fun _ => 0) s.arena.free free → 0 ∉ free := by
  obtain ⟨s, free, ran, sound, present⟩ := run_first
  obtain ⟨slot, dead, unlinked⟩ := sound.lost present
  refine ⟨s, ran, slot, dead, ?_⟩
  intro others chain
  rwa [← sound.chain.unique chain]

/-- A request that `malloc` refuses, and two hundred that it grants, so that the array grows
twice. -/
theorem ebNewMemoryItem_exact_iff_twice :
    (∃ s : Pool Unit, run (fun _ => 0) ⟨Arena.start (fun _ => .free 0), []⟩ [.new false] = some s ∧
      Consistent (fun _ => 0) (Slot s.arena) s) ∧
    ∃ s : Pool Unit, run (fun _ => 0) ⟨Arena.start (fun _ => .free 0), []⟩ (List.replicate 200 (.new true)) = some s ∧
      256 < s.arena.size ∧ (∀ granted, Serves (fun _ => 0) s granted) ∧ ¬ Consistent (fun _ => 0) (Slot s.arena) s := by
  constructor
  · refine ⟨⟨Arena.start fun _ => .free 0, []⟩, rfl, ?_⟩
    exact ((ebNewMemoryItem_exact_iff (fun _ => .free 0) [.new false] _ rfl).mpr (by simp)).1
  · have fresh : Sound (fun _ : Unit => 0) ⟨Arena.start (fun _ => .free 0), []⟩ [] := sound_start _
    obtain ⟨s, free, ran, sound, grown, enough⟩ := fresh.run_granted 200
    obtain ⟨-, serves, frame⟩ := ebNewMemoryItem_consistent (fun _ => .free 0) _ s ran
    refine ⟨s, ran, ?_, serves, ?_⟩
    · rcases enough with many | full
      · have room := sound.live_lt
        have many : s.live.length = 200 := by simpa using many
        omega
      · omega
    · intro exact
      refine (ebNewMemoryItem_exact_iff (fun _ => .free 0) _ s ran).mp ⟨exact, serves, frame⟩ ?_
      exact List.mem_replicate.mpr ⟨by decide, rfl⟩

end BelProject.Memory.Array
