import Mathlib.Data.List.Basic
import Mathlib.Algebra.BigOperators.Group.List.Basic
import Mathlib.Algebra.GroupWithZero.Nat

/-! Packing groups of sized items into parcels in order. A group must not be split: when
an item of it does not fit, the groups before it are shipped and the part already placed
moves to the next parcel; a group that does not fit a parcel of its own is dropped. -/

namespace BelProject.Library.Packing

variable {α : Type}

/-- A shipped parcel, with the items placed since the parcel before it was shipped. -/
structure Parcel (α : Type) where
  groups : List (List α)
  since : List α

/-- What has been shipped, the whole groups and the open group at hand, and the items
placed since the last shipment. -/
structure Draft (α : Type) where
  shipped : List (Parcel α)
  groups : List (List α)
  pending : List α
  since : List α

namespace Draft

def empty : Draft α := ⟨[], [], [], []⟩

/-- Everything in the parcel at hand, in order. -/
def items (d : Draft α) : List α := d.groups.flatten ++ d.pending

def ship (d : Draft α) : Draft α :=
  if d.groups.isEmpty then d
  else ⟨d.shipped ++ [⟨d.groups, d.since⟩], [], d.pending, []⟩

def push (d : Draft α) (item : α) : Draft α :=
  { d with pending := d.pending ++ [item], since := d.since ++ [item] }

end Draft

section Place
variable (size : α → Nat) (start limit : Nat)

def Draft.used (d : Draft α) : Nat := start + (d.items.map size).sum

def place (d : Draft α) (item : α) : Draft α × Bool :=
  if d.used size start + size item ≤ limit then (d.push item, true)
  else if d.ship.used size start + size item ≤ limit then (d.ship.push item, true)
  else (d.ship, false)

def placeGroup : Draft α → List α → Draft α × Bool
  | d, [] => ({ d with groups := d.groups ++ [d.pending], pending := [] }, true)
  | d, item :: items =>
    match place size start limit d item with
    | (d, true) => placeGroup d items
    | (d, false) => ({ d with pending := [] }, false)

def placeAll : Draft α → List (List α) → Draft α
  | d, [] => d
  | d, group :: groups => placeAll (placeGroup size start limit d group).1 groups

def layout (groups : List (List α)) : List (Parcel α) :=
  (placeAll size start limit Draft.empty groups).ship.shipped

end Place

theorem placeAll_append (size : α → Nat) (start limit : Nat) (d : Draft α) (first second : List (List α)) :
    placeAll size start limit d (first ++ second) =
      placeAll size start limit (placeAll size start limit d first) second := by
  induction first generalizing d with
  | nil => rfl
  | cons group groups ih => exact ih _

variable (size : α → Nat) (start limit : Nat)

/-- All whole groups so far, shipped or not, in order. -/
def Draft.whole (d : Draft α) : List (List α) := (d.shipped.map Parcel.groups).flatten ++ d.groups

variable (d : Draft α)

@[simp] theorem Draft.ship_pending : d.ship.pending = d.pending := by
  unfold ship
  split <;> rfl

@[simp] theorem Draft.ship_groups : d.ship.groups = [] := by
  unfold ship
  split
  next none => exact List.isEmpty_iff.mp none
  next => rfl

@[simp] theorem Draft.ship_whole : d.ship.whole = d.whole := by
  unfold ship whole
  split
  · rfl
  · simp

theorem place_whole (item : α) : (place size start limit d item).1.whole = d.whole := by
  unfold place
  split
  · rfl
  · split
    · exact d.ship_whole
    · exact d.ship_whole

theorem place_pending (item : α) (placed : (place size start limit d item).2 = true) :
    (place size start limit d item).1.pending = d.pending ++ [item] := by
  unfold place at placed ⊢
  split
  · rfl
  · split
    · simp only [Draft.push, Draft.ship_pending]
    · simp_all

theorem place_groups (item : α) (failed : (place size start limit d item).2 = false) :
    (place size start limit d item).1.groups = [] := by
  unfold place at failed ⊢
  split
  · simp_all
  · split
    · simp_all
    · exact d.ship_groups

theorem placeGroup_whole (group : List α) :
    ((placeGroup size start limit d group).2 = true →
        (placeGroup size start limit d group).1.whole = d.whole ++ [d.pending ++ group]) ∧
      ((placeGroup size start limit d group).2 = false → (placeGroup size start limit d group).1.whole = d.whole) ∧
      (placeGroup size start limit d group).1.pending = [] := by
  induction group generalizing d with
  | nil => simp [placeGroup, Draft.whole]
  | cons item items ih =>
    have whole := place_whole size start limit d item
    have pending := place_pending size start limit d item
    simp only [placeGroup]
    generalize place size start limit d item = step at whole pending ⊢
    obtain ⟨next, fits⟩ := step
    cases fits with
    | true =>
      obtain ⟨kept, dropped, done⟩ := ih next
      refine ⟨fun ok => ?_, fun bad => (dropped bad).trans whole, done⟩
      rw [kept ok, pending rfl, List.append_assoc]
      exact congrArg (· ++ [d.pending ++ ([item] ++ items)]) whole
    | false => exact ⟨fun ok => Bool.noConfusion ok, fun _ => whole, rfl⟩

/-- Shipped parcels and the one at hand respect the limit. -/
structure Draft.Fits (size : α → Nat) (start limit : Nat) (d : Draft α) : Prop where
  shipped : ∀ parcel ∈ d.shipped, start + (parcel.groups.flatten.map size).sum ≤ limit
  current : d.items ≠ [] → d.used size start ≤ limit

variable {size start limit}

theorem Draft.Fits.empty : (Draft.empty : Draft α).Fits size start limit :=
  ⟨by simp [Draft.empty], fun some => absurd rfl some⟩

theorem sum_groups_le : start + (d.groups.flatten.map size).sum ≤ d.used size start := by
  simp only [Draft.used, Draft.items, List.map_append, List.sum_append]
  omega

theorem sum_pending_le : d.ship.used size start ≤ d.used size start := by
  simp only [Draft.used, Draft.items, Draft.ship_groups, Draft.ship_pending, List.map_append, List.sum_append,
    List.flatten_nil, List.nil_append]
  omega

theorem Draft.Fits.ship {d : Draft α} (fits : d.Fits size start limit)
    (solid : ∀ group ∈ d.groups, group ≠ []) : d.ship.Fits size start limit := by
  refine ⟨?_, ?_⟩
  · unfold Draft.ship
    split
    · exact fits.shipped
    next some =>
      intro parcel member
      rcases List.mem_append.mp member with before | last
      · exact fits.shipped parcel before
      · rw [List.mem_singleton.mp last]
        have nonempty : d.items ≠ [] := by
          obtain ⟨first, groups, same⟩ := List.exists_cons_of_ne_nil (fun none => some (List.isEmpty_iff.mpr none))
          have solid := solid first (same ▸ List.mem_cons_self)
          simp [Draft.items, same, solid]
        exact Nat.le_trans (sum_groups_le d) (fits.current nonempty)
  · intro some
    have pending : d.pending ≠ [] := by
      intro none
      apply some
      simp [Draft.items, none]
    exact Nat.le_trans (sum_pending_le d) (fits.current (by simp [Draft.items, pending]))

theorem Draft.Fits.push {d : Draft α} {item : α} (fits : d.Fits size start limit)
    (room : d.used size start + size item ≤ limit) : (d.push item).Fits size start limit := by
  refine ⟨fits.shipped, fun _ => ?_⟩
  simp only [Draft.used, Draft.items, Draft.push, List.map_append, List.sum_append, List.map_cons, List.map_nil,
    List.sum_cons, List.sum_nil] at room ⊢
  omega

theorem place_fits {d : Draft α} (item : α) (fits : d.Fits size start limit)
    (solid : ∀ group ∈ d.groups, group ≠ []) :
    (place size start limit d item).1.Fits size start limit ∧
      ∀ group ∈ (place size start limit d item).1.groups, group ≠ [] := by
  have none : ∀ group ∈ d.ship.groups, group ≠ [] := by simp
  unfold place
  split
  next room => exact ⟨fits.push room, solid⟩
  next =>
    split
    next room => exact ⟨(fits.ship solid).push room, none⟩
    next => exact ⟨fits.ship solid, none⟩

theorem placeGroup_fits {d : Draft α} (group : List α) (fits : d.Fits size start limit)
    (solid : ∀ group ∈ d.groups, group ≠ []) (some : d.pending ++ group ≠ []) :
    (placeGroup size start limit d group).1.Fits size start limit ∧
      ∀ other ∈ (placeGroup size start limit d group).1.groups, other ≠ [] := by
  induction group generalizing d with
  | nil =>
    rw [List.append_nil] at some
    refine ⟨⟨fits.shipped, fun nonempty => ?_⟩, ?_⟩
    · have same := fits.current (by simp [Draft.items, some])
      simpa [placeGroup, Draft.used, Draft.items] using same
    · intro other member
      rcases List.mem_append.mp member with before | last
      · exact solid other before
      · rw [List.mem_singleton.mp last]
        exact some
  | cons item items ih =>
    obtain ⟨placed, still⟩ := place_fits item fits solid
    have pending := place_pending size start limit d item
    simp only [placeGroup]
    generalize place size start limit d item = step at placed still pending ⊢
    obtain ⟨next, ok⟩ := step
    cases ok with
    | true => exact ih placed still (by rw [pending rfl]; simp)
    | false =>
      refine ⟨⟨placed.shipped, fun nonempty => ?_⟩, still⟩
      have smaller : Draft.used size start { next with pending := [] } ≤ next.used size start := by
        have groups : start + (next.groups.flatten.map size).sum ≤ next.used size start := sum_groups_le next
        simp only [Draft.used, Draft.items, List.append_nil] at groups ⊢
        exact groups
      apply Nat.le_trans smaller
      apply placed.current
      intro none
      apply nonempty
      simp only [Draft.items, List.append_eq_nil_iff] at none ⊢
      exact ⟨none.1, trivial⟩

section Map
variable {β : Type} (f : α → β) (weight : β → Nat) (start limit : Nat)

def Parcel.map (parcel : Parcel α) : Parcel β := ⟨parcel.groups.map (List.map f), parcel.since.map f⟩

def Draft.map (d : Draft α) : Draft β :=
  ⟨d.shipped.map (Parcel.map f), d.groups.map (List.map f), d.pending.map f, d.since.map f⟩

variable (d : Draft α)

theorem Draft.map_used : (d.map f).used weight start = d.used (weight ∘ f) start := by
  simp only [used, items, map, List.map_append, List.map_flatten, List.map_map, Function.comp_def]

theorem Draft.map_ship : (d.map f).ship = d.ship.map f := by
  unfold ship map
  by_cases none : d.groups.isEmpty = true
  · simp [none]
  · simp [none, Parcel.map]

theorem Draft.map_push (item : α) : (d.map f).push (f item) = (d.push item).map f := by
  simp [push, map]

theorem map_place (item : α) :
    place weight start limit (d.map f) (f item) =
      ((place (weight ∘ f) start limit d item).1.map f, (place (weight ∘ f) start limit d item).2) := by
  simp only [place, Draft.map_used, Draft.map_ship, Draft.map_push, Function.comp_apply]
  split
  · rfl
  · split <;> rfl

theorem map_placeGroup (group : List α) :
    placeGroup weight start limit (d.map f) (group.map f) = ((placeGroup (weight ∘ f) start limit d group).1.map f,
        (placeGroup (weight ∘ f) start limit d group).2) := by
  induction group generalizing d with
  | nil => simp [placeGroup, Draft.map]
  | cons item items ih =>
    simp only [List.map_cons, placeGroup, map_place]
    generalize place (weight ∘ f) start limit d item = step
    obtain ⟨next, fits⟩ := step
    cases fits with
    | true => exact ih next
    | false => rfl

end Map

end BelProject.Library.Packing
