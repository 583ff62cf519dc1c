import BelProject.Library.Clocks
import Mathlib.Algebra.BigOperators.Group.List.Basic

/-! A counter that goes down in the enabled clocks. When it is down it gives a pulse of one clock,
in which it is loaded again whether the clock is enabled or not. -/

namespace BelProject.Library.Divider
open Clocks

/-- What is left of the n − 1 enabled clocks. -/
def left (n : ℕ) (ena : ℕ → Bool) : ℕ → ℕ
  | 0 => n - 1
  | t + 1 => if left n ena t = 0 then n - 1 else if ena t then left n ena t - 1 else left n ena t

def pulse (n : ℕ) (ena : ℕ → Bool) (t : ℕ) : Bool := decide (left n ena t = 0)

/-- The enabled clocks that are not counted, because they are those of a pulse. -/
def lost (n : ℕ) (ena : ℕ → Bool) (t : ℕ) : Bool := pulse n ena t && ena t

/-- Between the ends of two pulses that follow each other there are n enabled clocks. -/
def Divides (n : ℕ) (ena out : ℕ → Bool) : Prop :=
  ∀ s t, s < t → out s = true → out t = true → (∀ k, s < k → k < t → out k = false) →
    clocks ena (t + 1) = clocks ena (s + 1) + n

def Kept (ena out : ℕ → Bool) : Prop := ∀ s t, s < t → out s = true → out t = true → ena t = true

/-- Clock u is the last one of the first n − 1 enabled clocks. -/
def Fills (n : ℕ) (ena : ℕ → Bool) (u : ℕ) : Prop := ena u = true ∧ clocks ena (u + 1) = n - 1

/-- The enabled clocks from two behind clock u up to clock t. -/
def since (ena : ℕ → Bool) (u t : ℕ) : ℕ := clocks ena t - clocks ena (u + 2)

/-- Counted from two behind the first n − 1 enabled clocks, the last one before each multiple of n
is directly followed by an enabled clock. -/
def Adjacent (n : ℕ) (ena : ℕ → Bool) : Prop :=
  ∀ u, Fills n ena u → ∀ v, u + 1 < v → ena v = true → since ena u (v + 1) % n = n - 1 → ena (v + 1) = true

variable {n : ℕ} {ena : ℕ → Bool} {s t u : ℕ}

theorem pulse_iff : pulse n ena t = true ↔ left n ena t = 0 := decide_eq_true_iff

theorem left_le (n : ℕ) (ena : ℕ → Bool) (t : ℕ) : left n ena t ≤ n - 1 := by
  induction t with
  | zero => exact Nat.le_refl _
  | succ t ih =>
    rw [left]
    split_ifs <;> omega

theorem left_reload (down : pulse n ena t = true) : left n ena (t + 1) = n - 1 := by
  rw [left, if_pos (pulse_iff.mp down)]

theorem pulse_alone (many : 2 ≤ n) (down : pulse n ena t = true) : pulse n ena (t + 1) = false := by
  rw [pulse, left_reload down]
  exact decide_eq_false (by omega)

theorem pulse_succ (many : 2 ≤ n) (down : pulse n ena (t + 1) = true) : ena t = true ∧ pulse n ena t = false := by
  have fresh : pulse n ena t = false := by
    by_contra before
    have alone := pulse_alone many (Bool.eq_true_of_not_eq_false before)
    rw [down] at alone
    exact Bool.noConfusion alone
  refine ⟨?_, fresh⟩
  by_contra off
  have zero := pulse_iff.mp down
  have high : left n ena t ≠ 0 := of_decide_eq_false fresh
  rw [left, if_neg high, if_neg off] at zero
  exact high zero

theorem balance (n : ℕ) (ena : ℕ → Bool) (t : ℕ) :
    clocks ena t + left n ena t = (n - 1) * (clocks (pulse n ena) t + 1) + clocks (lost n ena) t := by
  induction t with
  | zero => simp [clocks, left]
  | succ t ih =>
    rw [clocks_succ, clocks_succ, clocks_succ, lost, left]
    cases down : pulse n ena t with
    | true =>
      rw [pulse_iff.mp down] at ih
      rw [if_pos (pulse_iff.mp down), Bool.true_and, if_pos rfl, Nat.mul_succ]
      omega
    | false =>
      have high : left n ena t ≠ 0 := of_decide_eq_false down
      rw [if_neg high]
      cases ena t with
      | true => simp; omega
      | false => simpa using ih

theorem clocks_turn (early : s < t) (first : pulse n ena s = true) (second : pulse n ena t = true)
    (quiet : ∀ k, s < k → k < t → pulse n ena k = false) :
    clocks ena (t + 1) = clocks ena (s + 1) + (n - 1) + if ena t then 1 else 0 := by
  have pulses : clocks (pulse n ena) (t + 1) = clocks (pulse n ena) (s + 1) + 1 := by
    rw [clocks_succ, second, if_pos rfl, clocks_quiet (Nat.succ_le_of_lt early) fun k from_ upTo => quiet k from_ upTo]
  have losses : clocks (lost n ena) (t + 1) = clocks (lost n ena) (s + 1) + if ena t then 1 else 0 := by
    rw [clocks_succ, lost, second, Bool.true_and, clocks_quiet (Nat.succ_le_of_lt early)]
    intro k from_ upTo
    rw [lost, quiet k from_ upTo, Bool.false_and]
  have before := balance n ena (s + 1)
  have behind := balance n ena (t + 1)
  rw [left_reload first] at before
  rw [left_reload second, pulses, losses, Nat.mul_succ] at behind
  omega

theorem divides_iff_kept (many : 1 ≤ n) : Divides n ena (pulse n ena) ↔ Kept ena (pulse n ena) := by
  constructor
  · intro divides s t early first second
    obtain ⟨last, _, before, high, quiet⟩ := exists_last first early
    have turn := clocks_turn before high second quiet
    rw [divides last t before high second quiet] at turn
    by_contra off
    rw [if_neg off] at turn
    omega
  · intro kept s t early first second quiet
    rw [clocks_turn early first second quiet, if_pos (kept s t early first second)]
    omega

theorem Fills.pulse (fills : Fills n ena u) : pulse n ena (u + 1) = true ∧ clocks (pulse n ena) (u + 1) = 0 := by
  have none : clocks (Divider.pulse n ena) (u + 1) = 0 := by
    apply clocks_zero_iff.mpr
    intro k early
    by_contra on
    have down := pulse_iff.mp (Bool.eq_true_of_not_eq_false on)
    have before := balance n ena k
    have full : n - 1 ≤ clocks ena k := by
      rw [down, Nat.mul_succ] at before
      omega
    have more : clocks ena k < clocks ena (u + 1) := calc
      clocks ena k ≤ clocks ena u := clocks_mono (Nat.le_of_lt_succ early)
      _ < clocks ena (u + 1) := clocks_lt fills.1 (Nat.lt_succ_self u)
    exact absurd (fills.2 ▸ more) (Nat.not_lt_of_le full)
  have unlost : clocks (lost n ena) (u + 1) = 0 := by
    apply clocks_zero_iff.mpr
    intro k early
    rw [lost, clocks_zero_iff.mp none k early, Bool.false_and]
  have sum := balance n ena (u + 1)
  rw [none, unlost, fills.2] at sum
  exact ⟨pulse_iff.mpr (by omega), none⟩

theorem exists_fills (many : 2 ≤ n) (down : pulse n ena t = true) : ∃ u, u + 1 ≤ t ∧ Fills n ena u := by
  obtain ⟨first, early, high, none⟩ := exists_first down
  cases first with
  | zero =>
    have start : n - 1 = 0 := pulse_iff.mp high
    omega
  | succ u =>
    refine ⟨u, early, (pulse_succ many high).1, ?_⟩
    have unlost : clocks (lost n ena) (u + 1) = 0 := by
      apply clocks_zero_iff.mpr
      intro k early
      rw [lost, clocks_zero_iff.mp none k early, Bool.false_and]
    have sum := balance n ena (u + 1)
    rw [none, unlost, pulse_iff.mp high] at sum
    omega

theorem Fills.since (many : 2 ≤ n) (fills : Fills n ena u) (later : u + 2 ≤ t)
    (kept : ∀ k, u + 2 ≤ k → k < t → Divider.pulse n ena k = true → ena k = true) :
    Divider.since ena u t + left n ena t + 1 = n * clocks (Divider.pulse n ena) t := by
  obtain ⟨first, none⟩ := fills.pulse
  have one : clocks (Divider.pulse n ena) (u + 2) = 1 := by
    rw [clocks_succ, none, first]
    rfl
  have losses : clocks (lost n ena) t + 1 = clocks (lost n ena) (u + 2) + clocks (Divider.pulse n ena) t := by
    induction t, later using Nat.le_induction with
    | base => rw [one]
    | succ t later ih =>
      have before := ih fun k from_ upTo => kept k from_ (Nat.lt_succ_of_lt upTo)
      rw [clocks_succ (lost n ena), clocks_succ (Divider.pulse n ena) t, lost]
      cases down : Divider.pulse n ena t with
      | true =>
        rw [kept t later (Nat.lt_succ_self t) down]
        simp
        omega
      | false =>
        simp
        omega
  have start := balance n ena (u + 2)
  have now := balance n ena t
  have grown : clocks ena (u + 2) ≤ clocks ena t := clocks_mono later
  rw [left_reload first, one] at start
  obtain ⟨load, rfl⟩ := Nat.exists_eq_add_of_le' (Nat.le_of_succ_le many)
  rw [Nat.add_sub_cancel] at start now
  rw [Divider.since, Nat.succ_mul]
  rw [Nat.mul_succ] at now
  omega

theorem kept_iff_adjacent (many : 2 ≤ n) : Kept ena (pulse n ena) ↔ Adjacent n ena := by
  constructor
  · intro kept u fills v later _ full
    have first := (fills.pulse).1
    have since := fills.since many (t := v + 1) (by omega) fun k from_ _ down => kept (u + 1) k (by omega) first down
    have small := left_le n ena (v + 1)
    -- What is left is a multiple of n that is smaller than n.
    have zero : left n ena (v + 1) = 0 := by
      have split := Nat.div_add_mod (Divider.since ena u (v + 1)) n
      rw [full] at split
      have multiple : n * (Divider.since ena u (v + 1) / n + 1) + left n ena (v + 1) =
        n * clocks (pulse n ena) (v + 1) := by
        rw [Nat.mul_succ]
        omega
      have divides : n ∣ left n ena (v + 1) := by
        apply (Nat.dvd_add_right (Nat.dvd_mul_right n _)).mp
        rw [multiple]
        exact Nat.dvd_mul_right n _
      exact Nat.eq_zero_of_dvd_of_lt divides (by omega)
    exact kept (u + 1) (v + 1) (by omega) first (pulse_iff.mpr zero)
  · intro adjacent s t early first second
    obtain ⟨u, start, fills⟩ := exists_fills many first
    induction t using Nat.strong_induction_on generalizing s with
    | _ t ih =>
      obtain ⟨v, rfl⟩ : ∃ v, t = v + 1 := ⟨t - 1, by omega⟩
      obtain ⟨enabled, fresh⟩ := pulse_succ many second
      have later : u + 1 < v := by
        have other : v ≠ u + 1 := by
          rintro rfl
          rw [(fills.pulse).1] at fresh
          exact Bool.noConfusion fresh
        omega
      have since := fills.since many (t := v + 1) (by omega) fun k from_ upTo down =>
        ih k upTo (u + 1) (by omega) (fills.pulse).1 down (Nat.le_refl _)
      rw [pulse_iff.mp second] at since
      apply adjacent u fills v later enabled
      obtain ⟨c, pulses⟩ : ∃ c, clocks (pulse n ena) (v + 1) = c + 1 := ⟨clocks (pulse n ena) (v + 1) - 1, by
        have some := clocks_lt (fills.pulse).1 (show u + 1 < v + 1 by omega)
        omega⟩
      rw [pulses, Nat.mul_succ] at since
      rw [show Divider.since ena u (v + 1) = n - 1 +
        n * c by omega, Nat.add_mul_mod_self_left, Nat.mod_eq_of_lt (by omega)]

theorem divides_iff (many : 2 ≤ n) : Divides n ena (pulse n ena) ↔ Adjacent n ena :=
  (divides_iff_kept (Nat.le_of_succ_le many)).trans (kept_iff_adjacent many)

theorem adjacent_always (on : ∀ t, ena t = true) : Adjacent n ena := fun _ _ v _ _ _ => on (v + 1)

/-- A divider with what enables it, for each one of a chain in which the output of one enables the
next. -/
def stages (out : ℕ → (ℕ → Bool) → ℕ → Bool) : List ℕ → (ℕ → Bool) → List (ℕ × (ℕ → Bool))
  | [], _ => []
  | n :: ns, ena => (n, ena) :: stages out ns (out n ena)

/-- The output of the last one. -/
def chain (out : ℕ → (ℕ → Bool) → ℕ → Bool) : List ℕ → (ℕ → Bool) → ℕ → Bool
  | [], ena => ena
  | n :: ns, ena => chain out ns (out n ena)

/-- The enable ends before the second pulse of the next divider. -/
def Few (n next : ℕ) (ena : ℕ → Bool) : Prop := ∀ u, Fills n ena u → ∀ t, since ena u t < (2 * next - 3) * n - 1

/-- The enables with which each divider of a chain divides. -/
def Suits : List ℕ → (ℕ → Bool) → Prop
  | [], _ => True
  | [n], ena => Adjacent n ena
  | n :: next :: _, ena => Adjacent n ena ∧ Few n next ena

def AtMostOnce (signal : ℕ → Bool) : Prop := ∀ s t, s < t → signal s = true → signal t = true → False

/-- No two clocks in a row. -/
def Sparse (signal : ℕ → Bool) : Prop := ∀ t, signal t = true → signal (t + 1) = false

theorem pulse_sparse (many : 2 ≤ n) : Sparse (pulse n ena) := fun _ => pulse_alone many

theorem clocks_le_one (once : AtMostOnce ena) (t : ℕ) : clocks ena t ≤ 1 := by
  induction t with
  | zero => exact Nat.zero_le 1
  | succ t ih =>
    rw [clocks_succ]
    cases on : ena t with
    | false => simpa using ih
    | true =>
      have none : clocks ena t = 0 := clocks_zero_iff.mpr fun k early =>
        Bool.eq_false_of_not_eq_true fun before => once k t early before on
      rw [none]
      simp

theorem divides_of_once {out : ℕ → Bool} (once : AtMostOnce out) : Divides n ena out :=
  fun s t early first second _ => (once s t early first second).elim

theorem clocks_two_pulses (early : s < t) (first : pulse n ena s = true) (second : pulse n ena t = true) :
    2 * (n - 1) ≤ clocks ena t := by
  have some := clocks_lt first early
  have sum := balance n ena t
  have twice : (n - 1) * 2 ≤ (n - 1) * (clocks (pulse n ena) t + 1) := Nat.mul_le_mul_left (n - 1) (by omega)
  rw [pulse_iff.mp second] at sum
  omega

theorem pulse_once (many : 2 ≤ n) (once : AtMostOnce ena) : AtMostOnce (pulse n ena) := by
  intro s t early first second
  have twice := clocks_two_pulses early first second
  have one := clocks_le_one once t
  omega

theorem lost_sparse (many : 2 ≤ n) (sparse : Sparse ena) (t : ℕ) : lost n ena t = false := by
  cases t with
  | zero =>
    have start : left n ena 0 ≠ 0 := by
      rw [left]
      omega
    rw [lost, pulse, decide_eq_false start, Bool.false_and]
  | succ t =>
    cases down : pulse n ena (t + 1) with
    | false => rw [lost, down, Bool.false_and]
    | true => rw [lost, sparse t (pulse_succ many down).1, Bool.and_false]

theorem kept_sparse (many : 2 ≤ n) (sparse : Sparse ena) : Kept ena (pulse n ena) ↔ AtMostOnce (pulse n ena) := by
  constructor
  · intro kept s t early first second
    have gone := lost_sparse many sparse t
    rw [lost, second, kept s t early first second] at gone
    exact Bool.noConfusion gone
  · exact fun once s t early first second => (once s t early first second).elim

theorem once_sparse (many : 2 ≤ n) (sparse : Sparse ena) :
    AtMostOnce (pulse n ena) ↔ ∀ t, clocks ena t < 2 * (n - 1) := by
  constructor
  · intro once t
    by_contra enough
    have unlost : clocks (lost n ena) t = 0 := clocks_zero_iff.mpr fun k _ => lost_sparse many sparse k
    have sum := balance n ena t
    have one := clocks_le_one once t
    rw [unlost, Nat.mul_succ] at sum
    have product : (n - 1) * clocks (pulse n ena) t ≤ (n - 1) * 1 := Nat.mul_le_mul_left (n - 1) one
    have down : pulse n ena t = true := pulse_iff.mpr (by omega)
    have earlier : clocks (pulse n ena) t ≠ 0 := by
      intro none
      rw [none] at sum
      omega
    have none : clocks (pulse n ena) t = 0 := clocks_zero_iff.mpr fun k early =>
      Bool.eq_false_of_not_eq_true fun before => once k t early before down
    exact earlier none
  · intro bound s t early first second
    exact absurd (clocks_two_pulses early first second) (Nat.not_le_of_lt (bound t))

theorem pulses_few {next : ℕ} (many : 2 ≤ n) (more : 2 ≤ next) (kept : Kept ena (pulse n ena)) :
    (∀ t, clocks (pulse n ena) t < 2 * (next - 1)) ↔ Few n next ena := by
  obtain ⟨m, rfl⟩ := Nat.exists_eq_add_of_le' more
  rw [Few, show 2 * (m + 2 - 1) = 2 * m + 2 by omega, show 2 * (m + 2) - 3 = 2 * m + 1 by omega]
  constructor
  · intro bound u fills t
    by_contra enough
    have least : n ≤ (2 * m + 1) * n := Nat.le_mul_of_pos_left n (Nat.succ_pos _)
    have later : u + 2 ≤ t := by
      by_contra early
      have none : since ena u t = 0 := Nat.sub_eq_zero_of_le (clocks_mono (Nat.le_of_not_le early))
      omega
    have count := fills.since many later fun k from_ _ down => kept (u + 1) k (by omega) fills.pulse.1 down
    have low := bound t
    have behind := bound (t + 1)
    rw [clocks_succ] at behind
    -- Fewer than 2 m + 1 pulses are too few for the enabled clocks, and with 2 m + 1 there is one more in this clock.
    have pulses : clocks (pulse n ena) t = 2 * m + 1 := by
      apply Nat.le_antisymm (Nat.le_of_lt_succ low)
      by_contra few
      have product : n * clocks (pulse n ena) t ≤ n * (2 * m) := Nat.mul_le_mul_left n (by omega)
      rw [Nat.add_mul, Nat.mul_comm (2 * m)] at enough
      omega
    rw [pulses, Nat.mul_comm] at count
    have down : pulse n ena t = true := pulse_iff.mpr (by omega)
    rw [if_pos down, pulses] at behind
    omega
  · intro few t
    by_contra enough
    have some : ∃ k < t, pulse n ena k = true := by
      by_contra none
      have zero : clocks (pulse n ena) t = 0 := clocks_zero_iff.mpr fun k early =>
        Bool.eq_false_of_not_eq_true fun on => none ⟨k, early, on⟩
      omega
    obtain ⟨k, before, on⟩ := some
    obtain ⟨u, early, fills⟩ := exists_fills many on
    have count := fills.since many (t := t) (by omega) fun k from_ _ down =>
      kept (u + 1) k (by omega) fills.pulse.1 down
    have bound := few u fills t
    have small := left_le n ena t
    have product : n * (2 * m + 2) ≤ n * clocks (pulse n ena) t := Nat.mul_le_mul_left n (by omega)
    rw [Nat.mul_comm (2 * m + 1)] at bound
    rw [show 2 * m + 2 = 2 * m + 1 + 1 by omega, Nat.mul_succ] at product
    omega

theorem stages_once {ns : List ℕ} (many : ∀ n ∈ ns, 2 ≤ n) (once : AtMostOnce ena) :
    (∀ stage ∈ stages pulse ns ena, AtMostOnce (pulse stage.1 stage.2)) ∧ AtMostOnce (chain pulse ns ena) := by
  induction ns generalizing ena with
  | nil => exact ⟨fun _ member => absurd member List.not_mem_nil, once⟩
  | cons n ns ih =>
    obtain ⟨head, tail⟩ := List.forall_mem_cons.mp many
    obtain ⟨each, last⟩ := ih tail (pulse_once head once)
    exact ⟨List.forall_mem_cons.mpr ⟨pulse_once head once, each⟩, last⟩

/-- Each divider of a chain divides what enables it, and the chain by the product. -/
theorem chain_divides_iff {ns : List ℕ} (many : ∀ n ∈ ns, 2 ≤ n) (ena : ℕ → Bool) :
    ((∀ stage ∈ stages pulse ns ena, Divides stage.1 stage.2 (pulse stage.1 stage.2)) ∧
      Divides ns.prod ena (chain pulse ns ena)) ↔
      Suits ns ena := by
  cases ns with
  | nil =>
    rw [Suits, iff_true]
    refine ⟨fun _ member => absurd member List.not_mem_nil, ?_⟩
    intro s t early _ second quiet
    change ena t = true at second
    have none : clocks ena t = clocks ena (s + 1) :=
      clocks_quiet (Nat.succ_le_of_lt early) fun k from_ upTo => quiet k from_ upTo
    rw [clocks_succ, second, if_pos rfl, none, List.prod_nil]
  | cons n ns =>
    obtain ⟨head, tail⟩ := List.forall_mem_cons.mp many
    cases ns with
    | nil =>
      have single : Divides [n].prod ena (chain pulse [n] ena) ↔ Divides n ena (pulse n ena) := by
        rw [List.prod_singleton]
        rfl
      rw [single, Suits, ← divides_iff head]
      constructor
      · exact fun both => both.2
      · exact fun divides => ⟨List.forall_mem_singleton.mpr divides, divides⟩
    | cons next rest =>
      obtain ⟨second, others⟩ := List.forall_mem_cons.mp tail
      have sparse : Sparse (pulse n ena) := pulse_sparse head
      rw [Suits, ← kept_iff_adjacent head]
      constructor
      · intro both
        have kept := (divides_iff_kept (Nat.le_of_succ_le head)).mp (both.1 (n, ena) List.mem_cons_self)
        have after := both.1 (next, pulse n ena) (List.mem_cons_of_mem _ List.mem_cons_self)
        have once := (kept_sparse second sparse).mp ((divides_iff_kept (Nat.le_of_succ_le second)).mp after)
        exact ⟨kept, (pulses_few head second kept).mp ((once_sparse second sparse).mp once)⟩
      · intro suits
        obtain ⟨kept, few⟩ := suits
        have once := (once_sparse second sparse).mpr ((pulses_few head second kept).mpr few)
        obtain ⟨each, last⟩ := stages_once others once
        refine ⟨List.forall_mem_cons.mpr ⟨?_, List.forall_mem_cons.mpr ⟨divides_of_once once, ?_⟩⟩,
          divides_of_once last⟩
        · exact (divides_iff_kept (Nat.le_of_succ_le head)).mpr kept
        · exact fun stage member => divides_of_once (each stage member)

end BelProject.Library.Divider
