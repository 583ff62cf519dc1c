import Mathlib.Data.List.Basic
import Mathlib.Tactic.SplitIfs

/-! What goes through an interface with a line that is high for the time of a cycle: the words of
the cycles that ended, and those of the cycle that has not. A cycle without a word leaves no trace. -/

namespace BelProject.Library.Cycles

universe u v
variable {α : Type u} {β : Type v}

structure Log (α : Type u) where
  ended : List (List α)
  current : List α
  deriving DecidableEq

namespace Log

def empty : Log α := ⟨[], []⟩

def close (log : Log α) : Log α :=
  match log.current with
  | [] => log
  | word :: words => ⟨log.ended ++ [word :: words], []⟩

def append (log : Log α) (words : List α) : Log α := { log with current := log.current ++ words }

def record (log : Log α) (cyc taken : Bool) (word : α) : Log α :=
  if cyc then if taken then log.append [word] else log else log.close

/-- Each word in pieces. -/
def expand (f : α → List β) (log : Log α) : Log β := ⟨log.ended.map (List.flatMap f), log.current.flatMap f⟩

/-- A log is what another one was, or could have been, earlier. -/
def Upto (log later : Log α) : Prop :=
  (log.ended = later.ended ∧ log.current <+: later.current) ∨
    ∃ cycle rest, log.current <+: cycle ∧ later.ended = log.ended ++ cycle :: rest

variable {log later last : Log α} {f : α → List β} {words more : List α}

@[simp] theorem append_nil (log : Log α) : log.append [] = log := by
  rw [append, List.append_nil]

theorem append_append (log : Log α) (words more : List α) :
    (log.append words).append more = log.append (words ++ more) := by
  rw [append, append, append, List.append_assoc]

theorem close_of_nil (none : log.current = []) : log.close = log := by
  rw [close, none]

@[simp] theorem close_current (log : Log α) : log.close.current = [] := by
  unfold close
  split
  next none => exact none
  next => rfl

@[simp] theorem close_close (log : Log α) : log.close.close = log.close := close_of_nil log.close_current

theorem close_of_ne (some : log.current ≠ []) : log.close = ⟨log.ended ++ [log.current], []⟩ := by
  unfold close
  split
  next none => exact absurd none some
  next word words current => rw [current]

@[simp] theorem expand_append : (log.append words).expand f = (log.expand f).append (words.flatMap f) := by
  rw [append, expand, expand, append, List.flatMap_append]

@[simp] theorem expand_empty : (empty : Log α).expand f = empty := rfl

theorem flatMap_eq_nil (full : ∀ word, f word ≠ []) : words.flatMap f = [] ↔ words = [] := by
  rw [List.flatMap_eq_nil_iff]
  refine ⟨fun nothing => ?_, fun none word listed => ?_⟩
  · cases words with
    | nil => rfl
    | cons word words => exact absurd (nothing word List.mem_cons_self) (full word)
  · rw [none] at listed
    exact absurd listed List.not_mem_nil

theorem expand_close (full : ∀ word, f word ≠ []) : log.close.expand f = (log.expand f).close := by
  by_cases none : log.current = []
  · have still : (log.expand f).current = [] := (flatMap_eq_nil full).mpr none
    rw [close_of_nil none, close_of_nil still]
  · have some : (log.expand f).current ≠ [] := fun nothing => none ((flatMap_eq_nil full).mp nothing)
    rw [close_of_ne none, close_of_ne some, expand, expand, List.map_append]
    rfl

theorem Upto.refl (log : Log α) : Upto log log := .inl ⟨rfl, List.prefix_refl _⟩

theorem upto_append (log : Log α) (words : List α) : Upto log (log.append words) := .inl ⟨rfl, List.prefix_append _ _⟩

theorem upto_close (log : Log α) : Upto log log.close := by
  by_cases none : log.current = []
  · rw [close_of_nil none]
    exact Upto.refl log
  · rw [close_of_ne none]
    exact .inr ⟨log.current, [], List.prefix_refl _, rfl⟩

theorem Upto.trans (first : Upto log later) (second : Upto later last) : Upto log last := by
  rcases first with ⟨same, begins⟩ | ⟨cycle, rest, begins, ended⟩
  · rcases second with ⟨same', begins'⟩ | ⟨cycle', rest', begins', ended'⟩
    · exact .inl ⟨same.trans same', begins.trans begins'⟩
    · exact .inr ⟨cycle', rest', begins.trans begins', by rw [ended', same]⟩
  · rcases second with ⟨same', begins'⟩ | ⟨cycle', rest', begins', ended'⟩
    · exact .inr ⟨cycle, rest, begins, by rw [← same', ended]⟩
    · exact .inr ⟨cycle, rest ++ cycle' :: rest', begins, by rw [ended', ended, List.append_assoc, List.cons_append]⟩

section
variable {size : Nat} (uniform : ∀ word, (f word).length = size) (positive : 0 < size)
  (injective : Function.Injective f)
include uniform

theorem length_flatMap : (words.flatMap f).length = words.length * size := by
  induction words with
  | nil => exact (Nat.zero_mul size).symm
  | cons word words ih => rw [List.flatMap_cons, List.length_append, uniform, ih, List.length_cons,
      Nat.succ_mul, Nat.add_comm]

include positive in
theorem expand_full (word : α) : f word ≠ [] := by
  apply List.ne_nil_of_length_pos
  rw [uniform]
  exact positive

include injective

theorem prefix_of_flatMap {pieces : List β} (few : pieces.length < size)
    (begins : words.flatMap f <+: more.flatMap f ++ pieces) :
    words <+: more := by
  induction words generalizing more with
  | nil => exact List.nil_prefix
  | cons word words ih =>
    rw [List.flatMap_cons] at begins
    cases more with
    | nil =>
      have length := begins.length_le
      rw [List.flatMap_nil, List.nil_append, List.length_append, uniform] at length
      omega
    | cons other more =>
      rw [List.flatMap_cons, List.append_assoc] at begins
      obtain ⟨rest, whole⟩ := begins
      rw [List.append_assoc] at whole
      obtain ⟨first, behind⟩ := List.append_inj whole ((uniform word).trans (uniform other).symm)
      rw [injective first]
      exact List.cons_prefix_cons.mpr ⟨rfl, ih ⟨rest, behind⟩⟩

include positive

theorem flatMap_injective : Function.Injective (List.flatMap f) := by
  intro words more same
  have begins : words <+: more := by
    refine prefix_of_flatMap uniform injective (by rwa [List.length_nil]) ?_
    exact ⟨[], by rw [List.append_nil, List.append_nil, same]⟩
  apply begins.eq_of_length
  have lengths := congrArg List.length same
  rw [length_flatMap uniform, length_flatMap uniform] at lengths
  exact Nat.eq_of_mul_eq_mul_right positive lengths

theorem expand_injective : Function.Injective (expand f) := by
  intro log later same
  obtain ⟨first, second⟩ := Log.mk.inj same
  have words := flatMap_injective uniform positive injective
  have ended := List.map_injective_iff.mpr words first
  cases log
  congr 1
  exact words second

theorem Upto.of_expand {pieces : List β} (few : pieces.length < size)
    (upto : Upto (log.expand f) ((later.expand f).append pieces)) :
    Upto log later := by
  have cycles := List.map_injective_iff.mpr (flatMap_injective uniform positive injective)
  rcases upto with ⟨same, begins⟩ | ⟨cycle, rest, begins, same⟩
  · exact .inl ⟨cycles same, prefix_of_flatMap uniform injective few begins⟩
  · obtain ⟨before, behind, split, first, second⟩ := List.map_eq_append_iff.mp same
    obtain ⟨cycle', rest', split', whole, -⟩ := List.map_eq_cons_iff.mp second
    rw [← whole] at begins
    have words : log.current <+: cycle' := by
      refine prefix_of_flatMap uniform injective (by rwa [List.length_nil]) ?_
      rw [List.append_nil]
      exact begins
    refine .inr ⟨cycle', rest', words, ?_⟩
    rw [split, cycles first, split']

end

end Log

end BelProject.Library.Cycles
