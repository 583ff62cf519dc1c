import BelProject.Library.Ring

/-! A ring of cells with two pointers and no count. One cell stays free, so the pointers meet only
when the queue is empty; a write to a full ring moves the read pointer over the oldest value. -/

namespace BelProject.Library.SpareRing
open BelProject.Library.Ring

variable {α : Type} {ram : ℕ → α} {size wr rd capacity : ℕ} {queue : List α} {value : α}

/-- A queue of limited length, which loses its oldest value for a new one. -/
def push (capacity : ℕ) (queue : List α) (value : α) : List α :=
  if queue.length = capacity then queue.tail ++ [value] else queue ++ [value]

/-- The queue lies between the pointers. -/
structure Laid (ram : ℕ → α) (size wr rd : ℕ) (queue : List α) : Prop where
  short : queue.length < size
  read : rd < size
  write : wr = (rd + queue.length) % size
  holds : Holds ram size rd queue

theorem laid_nil (ram : ℕ → α) (positive : 0 < size) : Laid ram size 0 0 [] :=
  ⟨positive, positive, (Nat.zero_mod size).symm, trivial⟩

section
variable (laid : Laid ram size wr rd queue)
include laid

theorem Laid.positive : 0 < size := Nat.zero_lt_of_lt laid.read

theorem Laid.write_lt : wr < size := by
  rw [laid.write]
  exact Nat.mod_lt _ laid.positive

theorem Laid.wraps : wr = rd + queue.length ∨ wr + size = rd + queue.length ∧ wr < rd := by
  have short := laid.short
  have read := laid.read
  rcases Nat.lt_or_ge (rd + queue.length) size with before | behind
  · left
    rw [laid.write, Nat.mod_eq_of_lt before]
  · right
    have write : wr = rd + queue.length - size := by
      rw [laid.write, Nat.mod_eq_sub_mod behind, Nat.mod_eq_of_lt (by omega)]
    omega

theorem Laid.empty_iff : wr = rd ↔ queue.length = 0 := by
  have wraps := laid.wraps
  have short := laid.short
  have read := laid.read
  omega

end

theorem mod_succ (inside : wr < size) : (wr + 1) % size = if wr + 1 = size then 0 else wr + 1 := by
  split_ifs with last
  · rw [last, Nat.mod_self]
  · exact Nat.mod_eq_of_lt (by omega)

theorem Laid.full_iff (laid : Laid ram size wr rd queue) : (wr + 1) % size = rd ↔ queue.length = size - 1 := by
  have wraps := laid.wraps
  have short := laid.short
  have read := laid.read
  have write := laid.write_lt
  rw [mod_succ write]
  split_ifs with last
  · omega
  · omega

theorem Laid.distance_iff (laid : Laid ram size wr rd queue) (odd : size % 2 = 1) :
    (wr : ℤ) - rd = queue.length ∨ (rd : ℤ) - wr = queue.length ↔ rd ≤ wr := by
  have wraps := laid.wraps
  have short := laid.short
  omega

theorem Laid.pop {values : List α} (laid : Laid ram size wr rd (value :: values)) :
    Laid ram size wr ((rd + 1) % size) values := by
  have short := laid.short
  rw [List.length_cons] at short
  refine ⟨Nat.lt_of_succ_lt short, Nat.mod_lt _ laid.positive, ?_, ?_⟩
  · rw [laid.write, List.length_cons, Nat.mod_add_mod, Nat.add_right_comm, Nat.add_assoc]
  · exact laid.holds.pop.congr (Nat.mod_modEq _ _).symm

theorem Laid.front {values : List α} (laid : Laid ram size wr rd (value :: values)) : ram rd = value := by
  have front := laid.holds.front
  rwa [Nat.mod_eq_of_lt laid.read] at front

theorem Laid.store (laid : Laid ram size wr rd queue) (value : α) (room : queue.length + 1 < size) :
    Laid (Function.update ram wr value) size ((wr + 1) % size) rd (queue ++ [value]) := by
  refine ⟨?_, laid.read, ?_, ?_⟩
  · rw [List.length_append, List.length_singleton]
    exact room
  · rw [laid.write, List.length_append, List.length_singleton, Nat.mod_add_mod, Nat.add_assoc]
  · rw [laid.write]
    exact laid.holds.push value laid.short

theorem Laid.replace (laid : Laid ram size wr rd queue) (value : α) (full : queue.length + 1 = size) (some : queue ≠ []) :
    Laid (Function.update ram wr value) size ((wr + 1) % size) ((rd + 1) % size) (queue.tail ++ [value]) := by
  cases queue with
  | nil => exact absurd rfl some
  | cons first rest =>
    have stored := laid.holds.push value laid.short
    rw [List.length_cons] at full
    refine ⟨?_, Nat.mod_lt _ laid.positive, ?_, ?_⟩
    · rw [List.tail_cons, List.length_append, List.length_singleton]
      omega
    · rw [laid.write, List.tail_cons, List.length_append, List.length_cons, List.length_singleton, Nat.mod_add_mod,
        Nat.mod_add_mod, Nat.add_right_comm]
    · rw [laid.write]
      exact stored.pop.congr (Nat.mod_modEq _ _).symm

theorem Laid.push (laid : Laid ram size wr rd queue) (value : α) (large : 1 < size) :
    Laid (Function.update ram wr value) size ((wr + 1) % size) (if (wr + 1) % size = rd then (rd + 1) % size else rd)
      (push (size - 1) queue value) := by
  have short := laid.short
  rw [SpareRing.push]
  by_cases full : queue.length = size - 1
  · rw [if_pos (laid.full_iff.mpr full), if_pos full]
    apply laid.replace value (by omega)
    rintro rfl
    rw [List.length_nil] at full
    omega
  · rw [if_neg (mt laid.full_iff.mp full), if_neg full]
    exact laid.store value (by omega)

end BelProject.Library.SpareRing
