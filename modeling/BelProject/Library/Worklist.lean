import Mathlib.Data.List.Basic
import Mathlib.Data.List.Perm.Basic
import Mathlib.Data.List.Flatten
import Mathlib.Algebra.BigOperators.Group.List.Basic
import Mathlib.Algebra.GroupWithZero.Nat

/-! Jobs that report something and leave further jobs behind, carried out in any order. As
long as the jobs below a job are fewer, every run ends, and what it reports does not depend
on the order. -/

namespace BelProject.Library.Worklist

/-- What a job reports itself, the jobs it leaves, and all that it and they will report. -/
structure Work (α β : Type) where
  here : α → List β
  more : α → List α
  all : α → List β
  size : α → Nat
  all_perm : ∀ a, (all a).Perm (here a ++ (more a).flatMap all)
  size_lt : ∀ a, ((more a).map size).sum < size a

variable {α β : Type}

theorem sum_flatMap_le {α γ : Type} (pieces : List γ) (more : γ → List α) (size : α → Nat) (bound : γ → Nat)
    (each : ∀ piece, ((more piece).map size).sum ≤ bound piece) :
    ((pieces.flatMap more).map size).sum ≤ (pieces.map bound).sum := by
  induction pieces with
  | nil => exact Nat.le_refl _
  | cons piece pieces ih =>
    have one := each piece
    rw [List.flatMap_cons, List.map_append, List.sum_append, List.map_cons, List.sum_cons]
    omega

/-- Jobs outstanding and reports made after a number of jobs, whichever was next. -/
inductive Run (work : Work α β) (start : List α) : Nat → List α → List β → Prop
  | start : Run work start 0 start []
  | job {n : Nat} {before after : List α} {a : α} {reports : List β}
      (run : Run work start n (before ++ a :: after) reports) :
      Run work start (n + 1) (before ++ after ++ work.more a) (reports ++ work.here a)

variable {work : Work α β} {start jobs : List α} {reports : List β} {n : Nat}

theorem Run.perm (run : Run work start n jobs reports) :
    (reports ++ jobs.flatMap work.all).Perm (start.flatMap work.all) := by
  induction run with
  | start => exact List.Perm.refl _
  | @job n before after a reports run ih =>
    refine List.Perm.trans ?_ ih
    have parts := (work.all_perm a).symm
    simp only [List.flatMap_append, List.flatMap_cons, List.append_assoc]
    apply List.Perm.append_left
    -- the reports of the job and those of the jobs it leaves, put back in its place
    calc List.Perm (work.here a ++ (before.flatMap work.all ++
      (after.flatMap work.all ++ (work.more a).flatMap work.all)))
          (work.here a ++ ((work.more a).flatMap work.all ++ (before.flatMap work.all ++ after.flatMap work.all))) := by
          rw [← List.append_assoc (before.flatMap work.all)]
          exact List.Perm.append_left _ List.perm_append_comm
      List.Perm _ (work.all a ++ (before.flatMap work.all ++ after.flatMap work.all)) := by
          rw [← List.append_assoc]
          exact List.Perm.append_right _ parts
      List.Perm _ (before.flatMap work.all ++ (work.all a ++ after.flatMap work.all)) := by
          rw [← List.append_assoc, ← List.append_assoc]
          exact List.Perm.append_right _ List.perm_append_comm

theorem Run.bound (run : Run work start n jobs reports) : n + (jobs.map work.size).sum ≤ (start.map work.size).sum := by
  induction run with
  | start => exact Nat.le_of_eq (Nat.zero_add _)
  | @job n before after a reports run ih =>
    have fewer := work.size_lt a
    simp only [List.map_append, List.map_cons, List.sum_append, List.sum_cons] at ih ⊢
    omega

end BelProject.Library.Worklist
