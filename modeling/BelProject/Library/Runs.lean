/-! Runs of a state machine on a list of inputs, in which each step meets a condition on the state
before it and on its input. -/

namespace BelProject.Library.Runs

universe u v
variable {σ : Type u} {ι : Type v}

/-- Each step of a run meets the condition. -/
def Along (step : σ → ι → σ) (condition : σ → ι → Prop) : σ → List ι → Prop
  | _, [] => True
  | s, i :: inputs => condition s i ∧ Along step condition (step s i) inputs

instance (step : σ → ι → σ) (condition : σ → ι → Prop) [∀ s i, Decidable (condition s i)] :
    ∀ (s : σ) (inputs : List ι), Decidable (Along step condition s inputs)
  | _, [] => isTrue trivial
  | s, i :: inputs =>
    have := instDecidableAlong step condition (step s i) inputs
    inferInstanceAs (Decidable (condition s i ∧ Along step condition (step s i) inputs))

variable {step : σ → ι → σ} {condition : σ → ι → Prop} {s : σ} {inputs : List ι}

theorem along_append {more : List ι} :
    Along step condition s (inputs ++ more) ↔ Along step condition s inputs ∧
      Along step condition (inputs.foldl step s) more := by
  induction inputs generalizing s with
  | nil => exact ⟨fun along => ⟨trivial, along⟩, fun along => along.2⟩
  | cons i inputs ih =>
    rw [List.cons_append, Along, ih, Along, List.foldl_cons, and_assoc]

theorem Along.invariant (holds : σ → Prop) (along : Along step condition s inputs) (first : holds s)
    (keeps : ∀ {s i}, holds s → condition s i → holds (step s i)) : holds (inputs.foldl step s) := by
  induction inputs generalizing s with
  | nil => exact first
  | cons i inputs ih =>
    obtain ⟨here, rest⟩ := along
    exact ih rest (keeps first here)

variable {other : σ → ι → Prop}

theorem Along.derive (holds : σ → Prop) (along : Along step condition s inputs) (first : holds s)
    (keeps : ∀ {s i}, holds s → condition s i → holds (step s i))
    (implies : ∀ {s i}, holds s → condition s i → other s i) :
    Along step other s inputs := by
  induction inputs generalizing s with
  | nil => trivial
  | cons i inputs ih =>
    obtain ⟨here, rest⟩ := along
    exact ⟨implies first here, ih rest (keeps first here)⟩

/-- A rank that each step lowers is down to zero after as many steps. -/
theorem Along.settles (holds : σ → Prop) (rank : σ → Nat) (along : Along step condition s inputs) (first : holds s)
    (keeps : ∀ {s i}, holds s → condition s i → holds (step s i))
    (lowers : ∀ {s i}, holds s → condition s i → rank (step s i) ≤ rank s - 1) (enough : rank s ≤ inputs.length) :
    rank (inputs.foldl step s) = 0 := by
  induction inputs generalizing s with
  | nil => exact Nat.eq_zero_of_le_zero enough
  | cons i inputs ih =>
    obtain ⟨here, rest⟩ := along
    have lower := lowers first here
    rw [List.length_cons] at enough
    exact ih rest (keeps first here) (by omega)

/-- Where each step reaches the goal or comes closer to it, and the goal stays reached. -/
theorem Along.reaches (holds goal : σ → Prop) (rank : σ → Nat) (along : Along step condition s inputs) (first : holds s)
    (closer : ∀ {s i}, holds s → condition s i → goal (step s i) ∨ holds (step s i) ∧ rank (step s i) < rank s)
    (stays : ∀ {s i}, goal s → condition s i → goal (step s i)) (enough : rank s < inputs.length) :
    goal (inputs.foldl step s) := by
  induction inputs generalizing s with
  | nil => exact absurd enough (Nat.not_lt_zero _)
  | cons i inputs ih =>
    obtain ⟨here, rest⟩ := along
    rw [List.length_cons] at enough
    rcases closer first here with reached | ⟨still, less⟩
    · exact rest.invariant goal reached stays
    · exact ih rest still (by omega)

theorem along_true (step : σ → ι → σ) (s : σ) (inputs : List ι) : Along step (fun _ _ => True) s inputs := by
  induction inputs generalizing s with
  | nil => trivial
  | cons i inputs ih => exact ⟨trivial, ih (step s i)⟩

theorem along_inputs {p : ι → Prop} : Along step (fun _ i => p i) s inputs ↔ ∀ i ∈ inputs, p i := by
  induction inputs generalizing s with
  | nil => exact ⟨fun _ i none => absurd none List.not_mem_nil, fun _ => trivial⟩
  | cons i inputs ih => rw [Along, ih, List.forall_mem_cons]

theorem Along.and (along : Along step condition s inputs) (others : ∀ i ∈ inputs, ∀ s, other s i) :
    Along step (fun s i => condition s i ∧ other s i) s inputs := by
  induction inputs generalizing s with
  | nil => trivial
  | cons i inputs ih =>
    exact ⟨⟨along.1, others i List.mem_cons_self s⟩, ih along.2 fun j listed =>
      others j (List.mem_cons_of_mem i listed)⟩

/-- A test of each step, for long runs. -/
def test (step : σ → ι → σ) (passes : σ → ι → Bool) : σ → List ι → Bool
  | _, [] => true
  | s, i :: inputs => bif passes s i then test step passes (step s i) inputs else false

theorem test_iff {passes : σ → ι → Bool} : test step passes s inputs = true ↔
    Along step (fun s i => passes s i = true) s inputs := by
  induction inputs generalizing s with
  | nil => exact ⟨fun _ => trivial, fun _ => rfl⟩
  | cons i inputs ih =>
    rw [test, Along, ← ih]
    cases passes s i with
    | false => exact ⟨fun never => absurd never Bool.false_ne_true, fun both => absurd both.1 Bool.false_ne_true⟩
    | true => exact ⟨fun later => ⟨rfl, later⟩, fun both => both.2⟩

theorem Along.mono (along : Along step condition s inputs) (implies : ∀ {s i}, condition s i → other s i) :
    Along step other s inputs :=
  along.derive (fun _ => True) trivial (fun _ _ => trivial) fun _ => implies

theorem along_iff : Along step condition s inputs ↔
    ∀ past i rest, inputs = past ++ i :: rest → condition (past.foldl step s) i := by
  constructor
  · rintro along past i rest rfl
    exact (along_append.mp along).2.1
  · intro everywhere
    induction inputs generalizing s with
    | nil => trivial
    | cons i inputs ih =>
      refine ⟨everywhere [] i inputs rfl, ih ?_⟩
      intro past j rest split
      apply everywhere (i :: past) j rest
      rw [split, List.cons_append]

/-- Conditions that are the same wherever an invariant holds, and keep it, are the same along a run. -/
theorem Along.congr (holds : σ → Prop) {one other : σ → ι → Prop}
    (along : Along step condition s inputs) (first : holds s)
    (same : ∀ {s i}, holds s → condition s i → (one s i ↔ other s i))
    (keeps : ∀ {s i}, holds s → condition s i → one s i → holds (step s i)) :
    Along step one s inputs ↔ Along step other s inputs := by
  induction inputs generalizing s with
  | nil => exact Iff.rfl
  | cons i inputs ih =>
    obtain ⟨here, rest⟩ := along
    constructor
    · rintro ⟨now, later⟩
      exact ⟨(same first here).mp now, (ih rest (keeps first here now)).mp later⟩
    · rintro ⟨now, later⟩
      have back := (same first here).mpr now
      exact ⟨back, (ih rest (keeps first here back)).mpr later⟩

/-- Where each step leads to a later state and reaches something that stays, a loop has reached it
for all of its inputs. -/
theorem foldl_reaches {later : σ → σ → Prop} (here : ∀ s, later s s)
    (on : ∀ {s s' s''}, later s s' → later s' s'' → later s s'')
    {f : σ → ι → σ} (reached : ι → σ → Prop) (stays : ∀ {i s s'}, later s s' → reached i s → reached i s')
    (steps : ∀ i ∈ inputs, ∀ s, later s (f s i) ∧ reached i (f s i)) (s : σ) :
    later s (inputs.foldl f s) ∧ ∀ i ∈ inputs, reached i (inputs.foldl f s) := by
  induction inputs generalizing s with
  | nil => exact ⟨here s, fun i none => absurd none List.not_mem_nil⟩
  | cons i inputs ih =>
    obtain ⟨first, now⟩ := steps i List.mem_cons_self s
    obtain ⟨rest, all⟩ := ih (fun j listed => steps j (List.mem_cons_of_mem i listed)) (f s i)
    refine ⟨on first rest, fun j member => ?_⟩
    rcases List.mem_cons.mp member with rfl | member
    · exact stays rest now
    · exact all j member

end BelProject.Library.Runs
