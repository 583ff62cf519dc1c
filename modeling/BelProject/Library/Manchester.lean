import Mathlib.Data.Bool.Basic
import Mathlib.Data.List.Basic

/-! Manchester code, half bit by half bit. Of a waveform only the edges are kept: how many halves
lie between one edge and the next. -/

namespace BelProject.Library.Manchester

/-- The halves between the edges so far, the level behind the last edge, and how long it lasts. -/
structure Wave where
  gaps : List Nat
  level : Bool
  lasting : Nat
  deriving DecidableEq, Repr

def Wave.half (w : Wave) (level : Bool) : Wave :=
  if level = w.level then { w with lasting := w.lasting + 1 } else ⟨w.gaps ++ [w.lasting], level, 1⟩

/-- A bit has an edge in its middle, to `level`. -/
def Wave.bit (w : Wave) (level : Bool) : Wave := (w.half !level).half level

/-- A sync is three halves at each level. When the line was at the level of its first half before,
only the second half shows. -/
def sync (full : Bool) (first : Bool) : Wave :=
  if full then ((⟨[], first, 3⟩ : Wave).half !first).half (!first) |>.half (!first) else ⟨[], first, 3⟩

/-- A sync from the first edge, to the level `first`, and bits with an edge to each of the levels. -/
def message (full first : Bool) (levels : List Bool) : Wave := levels.foldl Wave.bit (sync full first)

variable {w : Wave} {level full first : Bool} {levels : List Bool}

theorem message_concat : message full first (levels ++ [level]) = (message full first levels).bit level :=
  List.foldl_concat _ _ _ _

@[simp] theorem half_same : w.half w.level = { w with lasting := w.lasting + 1 } := if_pos rfl

@[simp] theorem half_not : w.half (!w.level) = ⟨w.gaps ++ [w.lasting], !w.level, 1⟩ := if_neg (Bool.not_ne_self _)

theorem bit_not : w.bit (!w.level) = ⟨w.gaps ++ [w.lasting + 1], !w.level, 1⟩ := by
  rw [Wave.bit, Bool.not_not, half_same]
  exact if_neg (Bool.not_ne_self w.level)

theorem bit_same : w.bit w.level = ⟨w.gaps ++ [w.lasting, 1], w.level, 1⟩ := by
  rw [Wave.bit, half_not, Wave.half, if_neg (Bool.self_ne_not w.level), List.append_assoc]
  rfl

theorem bit_level : (w.bit level).level = level ∧ (w.bit level).lasting = 1 := by
  by_cases same : level = w.level
  · rw [same, bit_same]
    exact ⟨rfl, rfl⟩
  · rw [Bool.eq_not_of_ne same, bit_not]
    exact ⟨rfl, rfl⟩

theorem sync_half : sync false first = ⟨[], first, 3⟩ := rfl

theorem sync_full : sync true first = ⟨[3], !first, 3⟩ := by
  cases first <;> rfl

/-- The edge between two bits, when it has been seen already. -/
def Wave.ahead (w : Wave) (seen : Bool) : Wave := if seen then w.half (!w.level) else w

theorem ahead_bit : (w.ahead true).half w.level = w.bit w.level := by
  rw [Wave.bit, Wave.ahead, if_pos rfl]

end BelProject.Library.Manchester
