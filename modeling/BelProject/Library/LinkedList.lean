import Mathlib.Data.List.Nodup
import Mathlib.Logic.Function.Basic
import Mathlib.Data.List.Basic

/-! Singly linked lists in memory. A list is threaded through a `next` field and ends at
the null pointer; what a traversal does is said by the items it meets, in order. -/

namespace BelProject.Library.LinkedList
open Function (update update_of_ne update_self)

section
variable {ι : Type} (null : ι)

/-- `items` is the list found by following `next` from `first`. -/
def Chain (next : ι → ι) : ι → List ι → Prop
  | first, [] => first = null
  | first, item :: items => first = item ∧ item ≠ null ∧ Chain next (next item) items

variable {null} {next next' : ι → ι}

theorem Chain.nil : Chain null next null [] := rfl

variable {first : ι} {items : List ι} {next : ι → ι}

theorem Chain.congr (chain : Chain null next first items)
    (same : ∀ item ∈ items, next' item = next item) : Chain null next' first items := by
  induction items generalizing first with
  | nil => exact chain
  | cons head items ih =>
    refine ⟨chain.1, chain.2.1, ?_⟩
    rw [same head List.mem_cons_self]
    exact ih chain.2.2 (fun item member => same item (List.mem_cons_of_mem _ member))

theorem Chain.unique {items others : List ι} (chain : Chain null next first items)
    (other : Chain null next first others) : items = others := by
  induction items generalizing first others with
  | nil =>
    cases others with
    | nil => rfl
    | cons head others => exact absurd (other.1.symm.trans chain) other.2.1
  | cons head items ih =>
    cases others with
    | nil => exact absurd (chain.1.symm.trans other) chain.2.1
    | cons head' others =>
      have same : head = head' := chain.1.symm.trans other.1
      subst same
      rw [ih chain.2.2 other.2.2]

theorem Chain.suffix {before items : List ι} {item : ι}
    (chain : Chain null next first (before ++ item :: items)) : Chain null next item (item :: items) := by
  induction before generalizing first with
  | nil => exact ⟨rfl, chain.2⟩
  | cons head before ih => exact ih chain.2.2

theorem Chain.nodup (chain : Chain null next first items) : items.Nodup := by
  induction items generalizing first with
  | nil => exact List.nodup_nil
  | cons head items ih =>
    refine List.nodup_cons.mpr ⟨?_, ih chain.2.2⟩
    intro again
    obtain ⟨before, after, split⟩ := List.append_of_mem again
    have rest := chain.2.2
    rw [split] at rest
    have longer : head :: after = head :: (before ++ head :: after) :=
      rest.suffix.unique (split ▸ ⟨rfl, chain.2⟩)
    have length := congrArg List.length longer
    simp only [List.length_cons, List.length_append] at length
    omega

theorem Chain.head_eq (chain : Chain null next first items) :
    first = null ↔ items = [] := by
  cases items with
  | nil => exact ⟨fun _ => rfl, fun _ => chain⟩
  | cons head items =>
    refine ⟨fun none => absurd (chain.1.symm.trans none) chain.2.1, fun none => by cases none⟩

variable [DecidableEq ι]

theorem Chain.frame {first item target : ι} (chain : Chain null next first items)
    (apart : item ∉ items) : Chain null (update next item target) first items := by
  apply chain.congr
  intro other member
  apply update_of_ne
  rintro rfl
  exact apart member

theorem Chain.push {first item : ι} (chain : Chain null next first items) (apart : item ∉ items)
    (some : item ≠ null) : Chain null (update next item first) item (item :: items) := by
  refine ⟨rfl, some, ?_⟩
  rw [update_self]
  exact chain.frame apart

variable (null)

/-- Reverse a list in place: every item is pushed in front of the items before it. -/
def flip : Nat → (ι → ι) → ι → ι → Option ((ι → ι) × ι)
  | 0, _, _, _ => none
  | fuel + 1, next, item, prev =>
    if item = null then some (next, prev)
    else flip fuel (update next item prev) (next item) item

/-- Distribute a list over two others, each item in front of the one it belongs to. -/
def divide (chosen : ι → Bool) : Nat → (ι → ι) → ι → ι → ι → Option ((ι → ι) × ι × ι)
  | 0, _, _, _, _ => none
  | fuel + 1, next, item, good, bad =>
    if item = null then some (next, good, bad)
    else if chosen item then divide chosen fuel (update next item bad) (next item) good item
    else divide chosen fuel (update next item good) (next item) item bad

/-- What the link at a cursor holds: the head of the list, or the `next` field of an item. -/
def link (next : ι → ι) (first : ι) : Option ι → ι
  | none => first
  | some item => next item

/-- Look for the first item that is chosen, with the cursor it was met at. -/
def seek (chosen : ι → Bool) (next : ι → ι) (first : ι) : Nat → Option ι → Option (Option (Option ι × ι))
  | 0, _ => none
  | fuel + 1, cursor =>
    let item := link next first cursor
    if item = null then some none
    else if chosen item then some (some (cursor, item))
    else seek chosen next first fuel (some item)

variable {null}

theorem flip_spec (fuel : Nat) {item prev : ι} {items done : List ι}
    (chain : Chain null next item items) (behind : Chain null next prev done) (apart : items.Disjoint done)
    (enough : items.length < fuel) :
    ∃ next' first, flip null fuel next item prev = some (next', first) ∧
      Chain null next' first (items.reverse ++ done) ∧ ∀ other ∉ items, next' other = next other := by
  induction items generalizing fuel next item prev done with
  | nil =>
    obtain ⟨fuel, rfl⟩ : ∃ rest, fuel = rest + 1 := ⟨fuel - 1, by omega⟩
    refine ⟨next, prev, ?_, behind, fun _ _ => rfl⟩
    unfold flip
    rw [if_pos (show item = null from chain)]
  | cons head items ih =>
    obtain ⟨fuel, rfl⟩ : ∃ rest, fuel = rest + 1 := ⟨fuel - 1, by omega⟩
    obtain ⟨rfl, some, rest⟩ := chain
    have whole : Chain null next item (item :: items) := ⟨rfl, some, rest⟩
    have fresh : item ∉ items := (List.nodup_cons.mp whole.nodup).1
    have new : item ∉ done := List.disjoint_left.mp apart List.mem_cons_self
    obtain ⟨next', first, run, reversed, frame⟩ := ih fuel (rest.frame fresh) (behind.push new some)
      (by
        rw [List.disjoint_cons_right]
        exact ⟨fresh, (List.disjoint_cons_left.mp apart).2⟩)
      (by simp only [List.length_cons] at enough; omega)
    refine ⟨next', first, ?_, ?_, ?_⟩
    · unfold flip
      rw [if_neg some]
      exact run
    · rw [List.reverse_cons, List.append_assoc]
      exact reversed
    · intro other outside
      rw [List.mem_cons, not_or] at outside
      rw [frame other outside.2, update_of_ne outside.1]

theorem flip_stays (P : ι → Prop) (fuel : Nat) {next next' : ι → ι} {item prev first : ι}
    (run : flip null fuel next item prev = some (next', first)) (here : P item) (behind : P prev)
    (step : ∀ x, P x → P (next x)) :
    P first ∧ (∀ x, P x → P (next' x)) ∧ ∀ x, ¬P x → next' x = next x := by
  induction fuel generalizing next item prev with
  | zero => cases run
  | succ fuel ih =>
    unfold flip at run
    split at run
    · cases run
      exact ⟨behind, step, fun _ _ => rfl⟩
    · have updated : ∀ x, P x → P (update next item prev x) := by
        intro x holds
        by_cases same : x = item
        · rw [same, update_self]
          exact behind
        · rw [update_of_ne same]
          exact step x holds
      obtain ⟨head, inside, outside⟩ := ih run (step item here) here updated
      refine ⟨head, inside, ?_⟩
      intro x other
      rw [outside x other, update_of_ne]
      rintro rfl
      exact other here

theorem divide_spec (chosen : ι → Bool) (fuel : Nat) {item good bad : ι} {items kept dropped : List ι}
    (chain : Chain null next item items) (keeps : Chain null next good kept) (drops : Chain null next bad dropped)
    (apart : items.Disjoint (kept ++ dropped)) (two : kept.Disjoint dropped) (enough : items.length < fuel) :
    ∃ next' good' bad', divide null chosen fuel next item good bad = some (next', good', bad') ∧
      Chain null next' good' ((items.filter fun item => !chosen item).reverse ++ kept) ∧
      Chain null next' bad' ((items.filter chosen).reverse ++ dropped) ∧
      ∀ other ∉ items, next' other = next other := by
  induction items generalizing fuel next item good bad kept dropped with
  | nil =>
    obtain ⟨fuel, rfl⟩ : ∃ rest, fuel = rest + 1 := ⟨fuel - 1, by omega⟩
    refine ⟨next, good, bad, ?_, keeps, drops, fun _ _ => rfl⟩
    unfold divide
    rw [if_pos (show item = null from chain)]
  | cons head items ih =>
    obtain ⟨fuel, rfl⟩ : ∃ rest, fuel = rest + 1 := ⟨fuel - 1, by omega⟩
    obtain ⟨rfl, some, rest⟩ := chain
    have whole : Chain null next item (item :: items) := ⟨rfl, some, rest⟩
    have fresh : item ∉ items := (List.nodup_cons.mp whole.nodup).1
    have new : item ∉ kept ++ dropped := List.disjoint_left.mp apart List.mem_cons_self
    rw [List.mem_append, not_or] at new
    have later : items.Disjoint (kept ++ dropped) := (List.disjoint_cons_left.mp apart).2
    rw [List.disjoint_append_right] at later
    have shorter : items.length < fuel := by simp only [List.length_cons] at enough; omega
    cases choice : chosen item with
    | true =>
      obtain ⟨next', good', bad', run, goods, bads, frame⟩ := ih fuel (rest.frame fresh) (keeps.frame new.1)
        (drops.push new.2 some)
        (by
          rw [List.disjoint_append_right, List.disjoint_cons_right]
          exact ⟨later.1, fresh, later.2⟩)
        (by
          rw [List.disjoint_cons_right]
          exact ⟨new.1, two⟩)
        shorter
      refine ⟨next', good', bad', ?_, ?_, ?_, ?_⟩
      · unfold divide
        rw [if_neg some, if_pos choice]
        exact run
      · simpa [choice] using goods
      · simpa [choice] using bads
      · intro other outside
        rw [List.mem_cons, not_or] at outside
        rw [frame other outside.2, update_of_ne outside.1]
    | false =>
      obtain ⟨next', good', bad', run, goods, bads, frame⟩ := ih fuel (rest.frame fresh) (keeps.push new.1 some)
        (drops.frame new.2)
        (by
          rw [List.disjoint_append_right, List.disjoint_cons_right]
          exact ⟨⟨fresh, later.1⟩, later.2⟩)
        (by
          rw [List.disjoint_cons_left]
          exact ⟨new.2, two⟩)
        shorter
      refine ⟨next', good', bad', ?_, ?_, ?_, ?_⟩
      · unfold divide
        rw [if_neg some, if_neg (by rw [choice]; exact Bool.false_ne_true)]
        exact run
      · simpa [choice] using goods
      · simpa [choice] using bads
      · intro other outside
        rw [List.mem_cons, not_or] at outside
        rw [frame other outside.2, update_of_ne outside.1]

/-- Store into the link at a cursor. -/
def relink (next : ι → ι) (first : ι) (cursor : Option ι) (target : ι) : (ι → ι) × ι :=
  match cursor with
  | none => (next, target)
  | some item => (update next item target, first)

omit [DecidableEq ι] in
theorem link_eq {before items : List ι} (chain : Chain null next first (before ++ items)) :
    Chain null next (link next first before.getLast?) items := by
  induction before generalizing first with
  | nil => exact chain
  | cons item before ih =>
    have rest := ih chain.2.2
    cases before with
    | nil => exact rest
    | cons other before =>
      rw [List.getLast?_cons_cons]
      cases last : (other :: before).getLast? with
      | none => simp at last
      | some found =>
        rw [last] at rest
        exact rest

theorem seek_spec (chosen : ι → Bool) (fuel : Nat) {before items : List ι}
    (chain : Chain null next first (before ++ items)) (enough : items.length < fuel) :
    (seek null chosen next first fuel before.getLast? = some none ∧ ∀ item ∈ items, chosen item = false) ∨
      ∃ passed item after, items = passed ++ item :: after ∧ chosen item = true ∧
        (∀ other ∈ passed, chosen other = false) ∧
        seek null chosen next first fuel before.getLast? = some (some ((before ++ passed).getLast?, item)) := by
  induction items generalizing before fuel with
  | nil =>
    obtain ⟨fuel, rfl⟩ : ∃ rest, fuel = rest + 1 := ⟨fuel - 1, by omega⟩
    have stop : link next first before.getLast? = null := link_eq chain
    left
    refine ⟨?_, by simp⟩
    unfold seek
    rw [if_pos stop]
  | cons head items ih =>
    obtain ⟨fuel, rfl⟩ : ∃ rest, fuel = rest + 1 := ⟨fuel - 1, by omega⟩
    have met := link_eq chain
    have here : link next first before.getLast? = head := met.1
    cases choice : chosen head with
    | true =>
      right
      refine ⟨[], head, items, rfl, choice, by simp, ?_⟩
      unfold seek
      rw [here, if_neg met.2.1, if_pos choice, List.append_nil]
    | false =>
      have onward : seek null chosen next first (fuel + 1) before.getLast? =
          seek null chosen next first fuel (before ++ [head]).getLast? := by
        rw [List.getLast?_concat]
        conv_lhs => unfold seek
        rw [here, if_neg met.2.1, if_neg (by rw [choice]; exact Bool.false_ne_true)]
      have shifted : Chain null next first ((before ++ [head]) ++ items) := by
        rw [List.append_assoc]
        exact chain
      rw [onward]
      rcases ih fuel shifted (by simp only [List.length_cons] at enough; omega) with ⟨stop, none⟩ | found
      · left
        refine ⟨stop, ?_⟩
        intro item member
        rcases List.mem_cons.mp member with rfl | later
        · exact choice
        · exact none item later
      · right
        obtain ⟨passed, item, after, split, yes, no, result⟩ := found
        refine ⟨head :: passed, item, after, by rw [split]; rfl, yes, ?_, ?_⟩
        · intro other member
          rcases List.mem_cons.mp member with rfl | later
          · exact choice
          · exact no other later
        · rw [result, List.append_assoc]
          rfl

theorem relink_spec {first target : ι} {before items others : List ι}
    (chain : Chain null next first (before ++ items)) (attached : Chain null next target others)
    (apart : before.Disjoint others) :
    Chain null (relink next first before.getLast? target).1 (relink next first before.getLast? target).2
      (before ++ others) := by
  induction before generalizing first with
  | nil => exact attached
  | cons item before ih =>
    obtain ⟨rfl, some, rest⟩ := chain
    rw [List.disjoint_cons_left] at apart
    cases before with
    | nil =>
      refine ⟨rfl, some, ?_⟩
      simp only [relink, List.getLast?_singleton, update_self]
      exact attached.frame apart.1
    | cons other before =>
      have later := ih rest apart.2
      rw [List.getLast?_cons_cons]
      cases last : (other :: before).getLast? with
      | none => simp at last
      | some found =>
        rw [last] at later
        have inside : found ∈ other :: before := List.mem_of_getLast? last
        have whole : Chain null next first (first :: (other :: before ++ items)) := ⟨rfl, some, rest⟩
        have different : first ≠ found := by
          rintro rfl
          exact (List.nodup_cons.mp whole.nodup).1 (List.mem_append_left _ inside)
        refine ⟨rfl, some, ?_⟩
        simp only [relink] at later ⊢
        rw [update_of_ne different]
        exact later

theorem relink_next {first target other : ι} {cursor : Option ι} (outside : cursor ≠ some other) :
    (relink next first cursor target).1 other = next other := by
  cases cursor with
  | none => rfl
  | some item => exact update_of_ne (fun same => outside (congrArg some same.symm)) _ _

end

end BelProject.Library.LinkedList
