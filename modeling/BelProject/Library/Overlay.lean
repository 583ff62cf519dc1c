import Mathlib.Data.List.Basic
import Mathlib.Data.List.GetD
import Mathlib.Logic.Function.Basic
import Mathlib.Data.Nat.Notation

/-! An array whose first cells are a list, and whose other cells are what they were. -/

namespace BelProject.Library.Overlay

universe u
variable {α : Type u} {cells : ℕ → α} {front rest : List α} {value other : α} {k : ℕ}

def overlay (cells : ℕ → α) (front : List α) : ℕ → α := fun k => (front[k]?).getD (cells k)

@[simp] theorem overlay_nil : overlay cells [] = cells := rfl

theorem overlay_inside (inside : k < front.length) : overlay cells front k = front[k] := by
  rw [overlay, List.getElem?_eq_getElem inside, Option.getD_some]

theorem overlay_behind (behind : front.length ≤ k) : overlay cells front k = cells k := by
  rw [overlay, List.getElem?_eq_none behind, Option.getD_none]

theorem overlay_append : overlay cells (front ++ value :: rest) front.length = value := by
  rw [overlay, List.getElem?_append_right (Nat.le_refl _), Nat.sub_self]
  rfl

theorem update_append : Function.update (overlay cells (front ++ value :: rest)) front.length other =
    overlay cells (front ++ other :: rest) := by
  funext k
  by_cases same : k = front.length
  · subst same
    rw [Function.update_self, overlay_append]
  · rw [Function.update_of_ne same]
    rcases Nat.lt_or_gt_of_ne same with before | behind
    · rw [overlay, overlay, List.getElem?_append_left before, List.getElem?_append_left before]
    · obtain ⟨n, rfl⟩ := Nat.exists_eq_add_of_lt behind
      rw [overlay, overlay, List.getElem?_append_right (by omega), List.getElem?_append_right (by omega),
        show front.length + n + 1 - front.length = n + 1 by omega]
      rfl

theorem update_length : Function.update (overlay cells front) front.length value = overlay cells (front ++ [value]) := by
  funext k
  by_cases same : k = front.length
  · subst same
    rw [Function.update_self, overlay_append]
  · rw [Function.update_of_ne same]
    rcases Nat.lt_or_gt_of_ne same with before | behind
    · rw [overlay, overlay, List.getElem?_append_left before]
    · have past : (front ++ [value]).length ≤ k := by
        rw [List.length_append, List.length_singleton]
        exact behind
      rw [overlay_behind (Nat.le_of_lt behind), overlay_behind past]

end BelProject.Library.Overlay
