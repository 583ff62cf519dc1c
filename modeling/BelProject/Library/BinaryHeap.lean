import Mathlib.Data.Finset.Insert
import Mathlib.Data.Multiset.Basic
import Mathlib.Order.Interval.Finset.Nat
import Mathlib.Logic.Function.Basic

/-! Binary heaps with the root at 1, kept by moving a hole along a path. A hole is a place
whose entry has no meaning; a walk drags the entries on its path over it one by one, and the
moving entry is put where the walk stops. -/

namespace BelProject.Library.BinaryHeap
open Function (update update_of_ne update_self)

variable {α K : Type} [LinearOrder K]

/-- No entry is before its parent. -/
def Ordered (key : α → K) (a : Nat → α) (n : Nat) : Prop :=
  ∀ i, 2 ≤ i → i ≤ n → key (a (i / 2)) ≤ key (a i)

def entries (a : Nat → α) (n : Nat) : Multiset α := (Finset.Icc 1 n).val.map a

/-- The entries without the one in the hole. -/
def others (a : Nat → α) (n p : Nat) : Multiset α := ((Finset.Icc 1 n).erase p).val.map a

variable {key : α → K} {a : Nat → α} {n p q : Nat}

theorem Ordered.root_le (ordered : Ordered key a n) {i : Nat} (positive : 1 ≤ i) (small : i ≤ n) :
    key (a 1) ≤ key (a i) := by
  induction i using Nat.strong_induction_on with
  | _ i ih =>
    by_cases root : i = 1
    · rw [root]
    · have parent := ih (i / 2) (by omega) (by omega) (by omega)
      exact parent.trans (ordered i (by omega) small)

theorem mem_entries {e : α} : e ∈ entries a n ↔ ∃ i, 1 ≤ i ∧ i ≤ n ∧ a i = e := by
  simp [entries, and_assoc]

theorem card_entries : (entries a n).card = n := by
  simp [entries]

theorem entries_hole (positive : 1 ≤ p) (small : p ≤ n) : entries a n = a p ::ₘ others a n p := by
  have whole : insert p ((Finset.Icc 1 n).erase p) = Finset.Icc 1 n :=
    Finset.insert_erase (Finset.mem_Icc.mpr ⟨positive, small⟩)
  rw [entries, others, ← Multiset.map_cons, ← Finset.insert_val_of_notMem (Finset.notMem_erase p _), whole]

theorem others_update (e : α) : others (update a p e) n p = others a n p := by
  apply Multiset.map_congr rfl
  intro i member
  exact update_of_ne (Finset.ne_of_mem_erase (Finset.mem_def.mpr member)) e a

theorem entries_fill (e : α) (positive : 1 ≤ p) (small : p ≤ n) :
    entries (update a p e) n = e ::ₘ others a n p := by
  rw [entries_hole positive small, update_self, others_update]

theorem others_move (apart : q ≠ p) (from' : 1 ≤ q ∧ q ≤ n) (to' : 1 ≤ p ∧ p ≤ n) :
    others (update a p (a q)) n q = others a n p := by
  have filled := entries_fill (a := a) (a q) to'.1 to'.2
  rw [entries_hole from'.1 from'.2, update_of_ne apart] at filled
  exact (Multiset.cons_inj_right _).mp filled

theorem others_last : others a (n + 1) (n + 1) = entries a n := by
  have range : (Finset.Icc 1 (n + 1)).erase (n + 1) = Finset.Icc 1 n := by
    ext i
    simp only [Finset.mem_erase, Finset.mem_Icc]
    omega
  rw [others, range, entries]

theorem entries_succ : entries a (n + 1) = a (n + 1) ::ₘ entries a n := by
  rw [entries_hole (Nat.succ_pos n) le_rfl, others_last]

/-- The order everywhere but at the hole, and across it. -/
structure Hole (key : α → K) (a : Nat → α) (n p : Nat) : Prop where
  apart : ∀ i, 2 ≤ i → i ≤ n → i ≠ p → i / 2 ≠ p → key (a (i / 2)) ≤ key (a i)
  across : 2 ≤ p → ∀ i, 2 ≤ i → i ≤ n → i / 2 = p → key (a (p / 2)) ≤ key (a i)

/-- Upwards the moving entry is known to be before what is below the hole. -/
structure UpHole (key : α → K) (a : Nat → α) (n p : Nat) (e : α) : Prop extends Hole key a n p where
  below : ∀ i, 2 ≤ i → i ≤ n → i / 2 = p → key e ≤ key (a i)

/-- Downwards it is known to be after what is above the hole. -/
structure DownHole (key : α → K) (a : Nat → α) (n p : Nat) (e : α) : Prop extends Hole key a n p where
  above : 2 ≤ p → key (a (p / 2)) ≤ key e

variable {e : α}

theorem Hole.fill (hole : Hole key a n p) (above : 2 ≤ p → key (a (p / 2)) ≤ key e)
    (below : ∀ i, 2 ≤ i → i ≤ n → i / 2 = p → key e ≤ key (a i)) : Ordered key (update a p e) n := by
  intro i big small
  by_cases here : i = p
  · subst here
    rw [update_self, update_of_ne (by omega)]
    exact above big
  · rw [update_of_ne here]
    by_cases child : i / 2 = p
    · rw [child, update_self]
      exact below i big small child
    · rw [update_of_ne child]
      exact hole.apart i big small here child

theorem Ordered.upHole (ordered : Ordered key a n) : UpHole key a (n + 1) (n + 1) e := by
  refine ⟨⟨?_, ?_⟩, ?_⟩
  · intro i big small here _
    exact ordered i big (by omega)
  · intro _ i big small child
    omega
  · intro i big small child
    omega

theorem Ordered.downHole {m : Nat} (ordered : Ordered key a n) (less : m ≤ n) : DownHole key a m 1 e := by
  refine ⟨⟨?_, ?_⟩, ?_⟩
  · intro i big small _ _
    exact ordered i big (small.trans less)
  · intro big
    omega
  · intro big
    omega

theorem UpHole.move (hole : UpHole key a n p e) (big : 2 ≤ p) (small : p ≤ n) (after : key e ≤ key (a (p / 2))) :
    UpHole key (update a p (a (p / 2))) n (p / 2) e := by
  have parent : p / 2 ≠ p := by omega
  refine ⟨⟨?_, ?_⟩, ?_⟩
  · intro i big' small' _ notParent
    have here : i ≠ p := fun same => notParent (by rw [same])
    rw [update_of_ne here]
    by_cases child : i / 2 = p
    · rw [child, update_self]
      exact hole.across big i big' small' child
    · rw [update_of_ne child]
      exact hole.apart i big' small' here child
  · intro big'' i big' small' child
    have grand : key (a (p / 2 / 2)) ≤ key (a (p / 2)) := hole.apart (p / 2) big'' (by omega) parent (by omega)
    rw [update_of_ne (show p / 2 / 2 ≠ p by omega)]
    by_cases here : i = p
    · rw [here, update_self]
      exact grand
    · rw [update_of_ne here]
      have sibling := hole.apart i big' small' here (by rw [child]; exact parent)
      rw [child] at sibling
      exact grand.trans sibling
  · intro i big' small' child
    by_cases here : i = p
    · rw [here, update_self]
      exact after
    · rw [update_of_ne here]
      have sibling := hole.apart i big' small' here (by rw [child]; exact parent)
      rw [child] at sibling
      exact after.trans sibling

theorem DownHole.move (hole : DownHole key a n p e) (positive : 1 ≤ p) (child : q / 2 = p) (small : q ≤ n)
    (first : ∀ i, 2 ≤ i → i ≤ n → i / 2 = p → key (a q) ≤ key (a i)) (before : key (a q) ≤ key e) :
    DownHole key (update a p (a q)) n q e := by
  have below : p < q := by omega
  refine ⟨⟨?_, ?_⟩, ?_⟩
  · intro i big' small' other notChild
    by_cases here : i = p
    · subst here
      rw [update_self, update_of_ne (by omega)]
      exact hole.across big' q (by omega) small child
    · rw [update_of_ne here]
      by_cases sibling : i / 2 = p
      · rw [sibling, update_self]
        exact first i big' small' sibling
      · rw [update_of_ne sibling]
        exact hole.apart i big' small' here sibling
  · intro _ i big' small' grand
    have edge := hole.apart i big' small' (by omega) (by rw [grand]; omega)
    rw [child, update_self, update_of_ne (show i ≠ p by omega)]
    rw [grand] at edge
    exact edge
  · intro _
    rw [child, update_self]
    exact before

/-- The array after a walk, last place first: every place has the entry of the next one, and
the last place is the hole. -/
def shift (a : Nat → α) : List Nat → Nat → α
  | q :: p :: past => update (shift a (p :: past)) p (a q)
  | _ => a

@[simp] theorem shift_nil : shift a [] = a := rfl

@[simp] theorem shift_one : shift a [p] = a := rfl

@[simp] theorem shift_cons (past : List Nat) : shift a (q :: p :: past) = update (shift a (p :: past)) p (a q) := rfl

theorem shift_of_notMem {past : List Nat} {i : Nat} (outside : i ∉ past) : shift a (p :: past) i = a i := by
  induction past generalizing p with
  | nil => rfl
  | cons r past ih =>
    rw [List.mem_cons, not_or] at outside
    rw [shift_cons, update_of_ne outside.1, ih outside.2]

end BelProject.Library.BinaryHeap
