import Mathlib.Data.List.Basic
import Mathlib.Algebra.Group.Int.Defs
import Mathlib.Algebra.Group.Nat.Defs
import Mathlib.Data.List.TakeWhile
import Mathlib.Tactic.SplitIfs

/-! `strtol` of the C library, with a `long` of 32 bits, on a string without its terminating zero. -/

namespace BelProject.Library.Strtol

def digit (base : ℕ) (c : Char) : Option ℕ :=
  let n := c.toNat
  let worth :=
    if 48 ≤ n ∧ n ≤ 57 then some (n - 48)
    else if 97 ≤ n ∧ n ≤ 122 then some (n - 87)
    else if 65 ≤ n ∧ n ≤ 90 then some (n - 55)
    else none
  worth.filter (· < base)

def isDigit (base : ℕ) (c : Char) : Bool := (digit base c).isSome

def isSpace (c : Char) : Bool := c.toNat == 32 || 9 ≤ c.toNat && c.toNat ≤ 13

def value (base : ℕ) (digits : List Char) : ℕ := digits.foldl (fun n c => n * base + (digit base c).getD 0) 0

def sign : List Char → ℤ × List Char
  | '-' :: rest => (-1, rest)
  | '+' :: rest => (1, rest)
  | text => (1, text)

def afterPrefix (base : ℕ) : List Char → List Char
  | '0' :: x :: c :: rest => if base = 16 ∧ (x = 'x' ∨ x = 'X') ∧ isDigit 16 c then c :: rest else '0' :: x :: c :: rest
  | text => text

/-- `LONG_MIN` and `LONG_MAX` -/
def clamp (n : ℤ) : ℤ := max (-2 ^ 31) (min (2 ^ 31 - 1) n)

def strtol (nptr : List Char) (base : ℕ) : ℤ × List Char :=
  let (factor, unsigned) := sign (nptr.dropWhile isSpace)
  let text := afterPrefix base unsigned
  let digits := text.takeWhile (isDigit base)
  if digits = [] then (0, nptr) else (clamp (factor * value base digits), text.dropWhile (isDigit base))

def Stops (base : ℕ) (rest : List Char) : Prop := ∀ c more, rest = c :: more → isDigit base c = false ∧
    c ≠ 'x' ∧ c ≠ 'X'

variable {base : ℕ}

theorem isDigit_bounds {c : Char} (is : isDigit base c = true) : 48 ≤ c.toNat := by
  by_contra below
  rw [isDigit, digit] at is
  simp only [if_neg (show ¬(48 ≤ c.toNat ∧ c.toNat ≤ 57) by omega),
    if_neg (show ¬(97 ≤ c.toNat ∧ c.toNat ≤ 122) by omega),
    if_neg (show ¬(65 ≤ c.toNat ∧ c.toNat ≤ 90) by omega)] at is
  exact absurd is Bool.false_ne_true

theorem sign_digit {c : Char} (is : isDigit base c = true) (rest : List Char) : sign (c :: rest) = (1, c :: rest) := by
  have high := isDigit_bounds is
  unfold sign
  split
  · next same =>
    obtain ⟨rfl, -⟩ := List.cons.inj same
    exact absurd high (by decide)
  · next same =>
    obtain ⟨rfl, -⟩ := List.cons.inj same
    exact absurd high (by decide)
  · rfl

theorem isSpace_digit {c : Char} (is : isDigit base c = true) : isSpace c = false := by
  have high := isDigit_bounds is
  rw [isSpace, Bool.or_eq_false_iff, Bool.and_eq_false_iff, beq_eq_false_iff_ne,
    decide_eq_false_iff_not, decide_eq_false_iff_not]
  omega

theorem afterPrefix_of_second {text : List Char} (second : ∀ c more, text.tail = c :: more → c ≠ 'x' ∧ c ≠ 'X') :
    afterPrefix base text = text := by
  unfold afterPrefix
  split
  · next x c more =>
    obtain ⟨small, capital⟩ := second x (c :: more) rfl
    exact if_neg fun hex => hex.2.1.elim small capital
  · rfl

theorem afterPrefix_of_base (hex : base ≠ 16) (text : List Char) : afterPrefix base text = text := by
  unfold afterPrefix
  split
  · exact if_neg fun both => hex both.1
  · rfl

theorem afterPrefix_digits {digits rest : List Char} (some : digits ≠ []) (all : ∀ c ∈ digits, isDigit base c = true)
    (stops : Stops base rest) : afterPrefix base (digits ++ rest) = digits ++ rest := by
  by_cases hex : base = 16
  · subst hex
    obtain ⟨first, digits, rfl⟩ := List.exists_cons_of_ne_nil some
    apply afterPrefix_of_second
    intro c more next
    cases digits with
    | nil => exact (stops c more next).2
    | cons second digits =>
      obtain ⟨rfl, -⟩ := List.cons.inj next
      have is := all second (List.mem_cons_of_mem _ List.mem_cons_self)
      refine ⟨?_, ?_⟩
      · rintro rfl
        exact absurd is (by decide)
      · rintro rfl
        exact absurd is (by decide)
  · exact afterPrefix_of_base hex _

theorem Stops.takeWhile {rest : List Char} (stops : Stops base rest) : rest.takeWhile (isDigit base) = [] := by
  cases rest with
  | nil => rfl
  | cons c rest => rw [List.takeWhile_cons, if_neg (Bool.eq_false_iff.mp (stops c rest rfl).1)]

theorem strtol_digits {digits rest : List Char} (some : digits ≠ []) (all : ∀ c ∈ digits, isDigit base c = true)
    (stops : Stops base rest) : strtol (digits ++ rest) base = (clamp (value base digits), rest) := by
  have taken : (digits ++ rest).takeWhile (isDigit base) = digits := by
    rw [List.takeWhile_append_of_pos all, stops.takeWhile, List.append_nil]
  have left : (digits ++ rest).dropWhile (isDigit base) = rest := by
    have both := List.takeWhile_append_dropWhile (p := isDigit base) (l := digits ++ rest)
    rw [taken] at both
    exact List.append_cancel_left both
  have plain : sign ((digits ++ rest).dropWhile isSpace) = (1, digits ++ rest) := by
    obtain ⟨first, digits, rfl⟩ := List.exists_cons_of_ne_nil some
    have is := all first List.mem_cons_self
    rw [List.cons_append, List.dropWhile_cons, isSpace_digit is]
    exact sign_digit is (digits ++ rest)
  rw [strtol, plain]
  simp only [afterPrefix_digits some all stops, taken, left, if_neg some, Int.one_mul]

theorem clamp_of_le {n : ℕ} (small : n < 2 ^ 31) : clamp n = n := by
  rw [clamp]
  omega

end BelProject.Library.Strtol
