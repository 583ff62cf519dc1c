import BelProject.Library.Runs
import Mathlib.Tactic.Common
import Mathlib.Data.Nat.Notation

/-! The states of a machine on an endless stream of inputs. -/

namespace BelProject.Library.Traces

universe u v
variable {σ : Type u} {ι : Type v}

def trace (step : σ → ι → σ) (s : σ) (inputs : ℕ → ι) : ℕ → σ
  | 0 => s
  | n + 1 => step (trace step s inputs n) (inputs n)

variable {step : σ → ι → σ} {s : σ} {inputs : ℕ → ι}

theorem trace_succ (n : ℕ) : trace step s inputs (n + 1) = step (trace step s inputs n) (inputs n) := rfl

theorem trace_add (m n : ℕ) : trace step s inputs (m + n) = trace step (trace step s inputs m)
    (fun k => inputs (m + k)) n := by
  induction n with
  | zero => rfl
  | succ n ih =>
    change step (trace step s inputs (m + n)) (inputs (m + n)) =
      step (trace step (trace step s inputs m) _ n) (inputs (m + n))
    rw [ih]

theorem trace_run (n : ℕ) : ((List.range n).map inputs).foldl step s = trace step s inputs n := by
  induction n with
  | zero => rfl
  | succ n ih =>
    rw [List.range_succ, List.map_append, List.foldl_append, ih]
    rfl

theorem along_trace {condition : σ → ι → Prop} (n : ℕ) :
    Runs.Along step condition s ((List.range n).map inputs) ↔
      ∀ t < n, condition (trace step s inputs t) (inputs t) := by
  induction n with
  | zero => exact ⟨fun _ t early => absurd early (Nat.not_lt_zero t), fun _ => trivial⟩
  | succ n ih =>
    rw [List.range_succ, List.map_append, Runs.along_append, ih, trace_run]
    constructor
    · rintro ⟨before, last, _⟩ t early
      rcases Nat.lt_succ_iff_lt_or_eq.mp early with early | rfl
      · exact before t early
      · exact last
    · intro all
      exact ⟨fun t early => all t (Nat.lt_succ_of_lt early), all n (Nat.lt_succ_self n), trivial⟩

end BelProject.Library.Traces
