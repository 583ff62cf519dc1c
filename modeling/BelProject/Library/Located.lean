import Mathlib.Data.List.Basic
import Mathlib.Algebra.GroupWithZero.Nat

/-! Sized items laid out one after the other. Each item gets the offset it starts at, so
that the boundaries of two different divisions of the same bytes can be compared. -/

namespace BelProject.Library.Located

variable {α : Type}

def located (size : α → Nat) : Nat → List α → List (Nat × α)
  | _, [] => []
  | offset, item :: items => (offset, item) :: located size (offset + size item) items

theorem located_append (size : α → Nat) (offset : Nat) (first second : List α) :
    located size offset (first ++ second) =
      located size offset first ++ located size (offset + (first.map size).sum) second := by
  induction first generalizing offset with
  | nil => simp [located]
  | cons item items ih => simp only [List.cons_append, located, ih, List.map_cons, List.sum_cons, Nat.add_assoc]

variable {entry : Nat × α}

variable {size : α → Nat}

variable {items : List α}

theorem mem_located_tail {offset : Nat} {item : α}
    (member : entry ∈ located size (offset + size item) items) : entry ∈ located size offset (item :: items) :=
  List.mem_cons_of_mem _ member

theorem located_ge {offset : Nat}
    (member : entry ∈ located size offset items) : offset ≤ entry.1 := by
  induction items generalizing offset with
  | nil => cases member
  | cons item items ih =>
    rcases List.mem_cons.mp member with rfl | later
    · exact Nat.le_refl _
    · exact Nat.le_trans (Nat.le_add_right _ _) (ih later)

theorem located_lt {offset : Nat}
    (positive : ∀ item ∈ items, 0 < size item) (member : entry ∈ located size offset items) :
    entry.1 < offset + (items.map size).sum := by
  induction items generalizing offset with
  | nil => cases member
  | cons item items ih =>
    have room := positive item List.mem_cons_self
    rw [List.map_cons, List.sum_cons]
    rcases List.mem_cons.mp member with rfl | later
    · show offset < _
      omega
    · have below := ih (fun other inside => positive other (List.mem_cons_of_mem _ inside)) later
      omega

end BelProject.Library.Located
