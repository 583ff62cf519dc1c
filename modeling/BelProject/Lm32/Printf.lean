import Mathlib.Data.BitVec
import Mathlib.Tactic.Common

/-! `mprintf` and `sprintf` of the embedded CPU: two copies of one interpreter of formats. A string
is the memory from a pointer on, with the zero that ends it. -/

namespace BelProject.Lm32.Printf

abbrev Byte := BitVec 8

def ascii (c : Char) : Byte := BitVec.ofNat 8 c.toNat

inductive Arg where
  | word (value : BitVec 32)
  | text (memory : List Byte)

/-- Memory is read behind a string, or written in front of the scratch buffer, or an argument is
missing or of another kind. -/
inductive Fault where
  | overrun | scratch | argument
  deriving DecidableEq

/-- `ch` of the digit loop. -/
def digit (uVal base : BitVec 32) : Byte :=
  let ch := (uVal % base).setWidth 8 + ascii '0'
  if ascii '9' < ch then ch + (ascii 'a' - ascii '9' - 1) else ch

/-- The digit loop. The scratch buffer is the place of `ptr` in it and the bytes from there on. -/
def convert (base : BitVec 32) : (ptr : ℕ) → (uVal : BitVec 32) → (width : Byte) → (cells : List Byte) →
    Except Fault (ℕ × Byte × List Byte)
  | 0, _, _, _ => .error .scratch
  | ptr + 1, uVal, width, cells =>
    let cells := digit uVal base :: cells
    let width := if width ≠ 0 then width - 1 else width
    if 0 < uVal / base then convert base ptr (uVal / base) width cells else .ok (ptr, width, cells)

/-- `while (width--)`. The width wraps at the end, and is set again for the next conversion. -/
def fillUp (fill : Byte) : (ptr : ℕ) → (width : Byte) → (cells : List Byte) → Except Fault (List Byte)
  | 0, width, cells => if width ≠ 0 then .error .scratch else .ok cells
  | ptr + 1, width, cells => if width ≠ 0 then fillUp fill ptr (width - 1) (fill :: cells) else .ok cells

/-- `while (*ptr)`. -/
def cString : List Byte → Except Fault (List Byte)
  | [] => .error .overrun
  | b :: memory => if b = 0 then .ok [] else (cString memory).map (b :: ·)

/-- From `CONVERSION_LOOP` on, behind the sign. The buffer has 16 bytes, the last one is zero. -/
def conversionLoop (base : BitVec 32) (fill width : Byte) (uVal : BitVec 32) : Except Fault (List Byte) := do
  let (ptr, width, cells) ← convert base 15 uVal width [0]
  let cells ← fillUp fill ptr width cells
  cString cells

def zeroPad : List Byte → Byte × List Byte
  | [] => (ascii ' ', [])
  | b :: format => if b - ascii '0' = 0 then (ascii '0', format) else (ascii ' ', b :: format)

def widthSpec : List Byte → Byte × List Byte
  | [] => (0, [])
  | b :: format => if 0 < b - ascii '0' ∧ b - ascii '0' ≤ 9 then (b - ascii '0', format) else (0, b :: format)

/-- What goes in front of a number, and what is converted. -/
abbrev Sign := (formatFlag : Byte) → (uVal : BitVec 32) → List Byte × BitVec 32

def number (sign : Sign) (formatFlag : Byte) (base : BitVec 32) (fill width : Byte) :
    List Arg → Except Fault (List Byte × List Arg)
  | .word uVal :: args => do
    let (front, uVal) := sign formatFlag uVal
    let text ← conversionLoop base fill width uVal
    .ok (front ++ text, args)
  | _ => .error .argument

/-- The `switch`. -/
def conversion (sign : Sign) (fill width formatFlag : Byte) (args : List Arg) : Except Fault (List Byte × List Arg) :=
  if formatFlag = ascii 'c' then
    match args with
    | .word value :: args => .ok ([value.setWidth 8], args)
    | _ => .error .argument
  else if formatFlag = ascii 'S' ∨ formatFlag = ascii 's' then
    match args with
    | .text memory :: args => (cString memory).map (·, args)
    | _ => .error .argument
  else if formatFlag = ascii 'd' ∨ formatFlag = ascii 'u' then number sign formatFlag 10 fill width args
  else if formatFlag = ascii 'x' then number sign formatFlag 16 fill width args
  else .ok ([formatFlag], args)

theorem zeroPad_length (format : List Byte) : (zeroPad format).2.length ≤ format.length := by
  cases format with
  | nil => exact Nat.le_refl 0
  | cons b format =>
    rw [zeroPad]
    split_ifs
    · exact Nat.le_succ _
    · exact Nat.le_refl _

theorem widthSpec_length (format : List Byte) : (widthSpec format).2.length ≤ format.length := by
  cases format with
  | nil => exact Nat.le_refl 0
  | cons b format =>
    rw [widthSpec]
    split_ifs
    · exact Nat.le_succ _
    · exact Nat.le_refl _

/-- The loop over the format, up to its terminating zero. -/
def interpret (sign : Sign) (format : List Byte) (args : List Arg) : Except Fault (List Byte) :=
  match format with
  | [] => .error .overrun
  | b :: format =>
    if b ≠ ascii '%' then
      if b = 0 then .ok [] else (interpret sign format args).map (b :: ·)
    else
      match _parts : (widthSpec (zeroPad format).2).2 with
      | [] => .error .overrun
      | formatFlag :: rest => do
        let (text, args) ← conversion sign (zeroPad format).1 (widthSpec (zeroPad format).2).1 formatFlag args
        (interpret sign rest args).map (text ++ ·)
  termination_by format.length
  decreasing_by
    · exact Nat.lt_succ_self _
    · have zero := zeroPad_length format
      have width := widthSpec_length (zeroPad format).2
      rw [_parts] at width
      simp only [List.length_cons] at width ⊢
      omega

def minus : Sign := fun formatFlag uVal =>
  if formatFlag = ascii 'd' ∧ uVal &&& 0x80000000 ≠ 0 then ([ascii '-'], -uVal) else ([], uVal)

/-- `_p_vsprintf` does not look at the sign. -/
def noSign : Sign := fun _ uVal => ([], uVal)

def vprintf (format : List Byte) (args : List Arg) : Except Fault (List Byte) := interpret minus format args

/-- The bytes from `dst` on. -/
def pVsprintf (format : List Byte) (args : List Arg) : Except Fault (List Byte) :=
  (interpret noSign format args).map (· ++ [0])

def mprintf (format : List Byte) (args : List Arg) : Except Fault (List Byte) := vprintf format args

def sprintf (format : List Byte) (args : List Arg) : Except Fault (List Byte) := pVsprintf format args

/-- The optional zero and the optional digit of the width, which is one more than the number here. -/
structure Padding where
  zero : Bool
  width : Option (Fin 9)

def Padding.text (p : Padding) : List Byte :=
  (if p.zero then [ascii '0'] else []) ++ p.width.toList.map fun w => ascii '1' + BitVec.ofNat 8 w

def Padding.fill (p : Padding) : Byte := if p.zero then ascii '0' else ascii ' '

def Padding.size (p : Padding) : ℕ := (p.width.map fun w => w.val + 1).getD 0

/-- The conversions of a number. -/
inductive Numeric where
  | d | u | x
  deriving DecidableEq

def Numeric.flag : Numeric → Byte
  | .d => ascii 'd'
  | .u => ascii 'u'
  | .x => ascii 'x'

def Numeric.base : Numeric → ℕ
  | .d | .u => 10
  | .x => 16

def Closes (formatFlag : Byte) : Prop := formatFlag ≠ 0 ∧ ¬formatFlag - ascii '0' ≤ 9

/-- A byte that only stands for itself behind a percent sign, as the percent sign itself. -/
def Literal (formatFlag : Byte) : Prop :=
  Closes formatFlag ∧ formatFlag ∉ [ascii 'c', ascii 'S', ascii 's', ascii 'd', ascii 'u', ascii 'x']

inductive Item where
  | plain (b : Byte) (itself : b ≠ 0 ∧ b ≠ ascii '%')
  | number (p : Padding) (conv : Numeric) (value : BitVec 32)
  | char (p : Padding) (value : BitVec 32)
  | string (p : Padding) (capital : Bool) (text : List Byte) (ended : ∀ b ∈ text, b ≠ 0) (behind : List Byte)
  | other (p : Padding) (formatFlag : Byte) (itself : Literal formatFlag)

def Item.format : Item → List Byte
  | .plain b _ => [b]
  | .number p conv _ => ascii '%' :: p.text ++ [conv.flag]
  | .char p _ => ascii '%' :: p.text ++ [ascii 'c']
  | .string p capital _ _ _ => ascii '%' :: p.text ++ [if capital then ascii 'S' else ascii 's']
  | .other p formatFlag _ => ascii '%' :: p.text ++ [formatFlag]

def Item.args : Item → List Arg
  | .plain _ _ => []
  | .number _ _ value => [.word value]
  | .char _ value => [.word value]
  | .string _ _ text _ behind => [.text (text ++ 0 :: behind)]
  | .other _ _ _ => []

def numeral (base n : ℕ) : List Byte := (Nat.toDigits base n).map ascii

def padded (p : Padding) (digits : List Byte) : List Byte := List.replicate (p.size - digits.length) p.fill ++ digits

def Numeric.negative (conv : Numeric) (value : BitVec 32) : Bool := conv == .d && decide (value.toInt < 0)

/-- The number of a value: signed for d. -/
def Numeric.magnitude (conv : Numeric) (value : BitVec 32) : ℕ := if conv = .d then value.toInt.natAbs else value.toNat

/-- What is printed for an item. The sign goes in front of the padding. -/
def Item.shown : Item → List Byte
  | .plain b _ => [b]
  | .number p conv value =>
    (if conv.negative value then [ascii '-'] else []) ++ padded p (numeral conv.base (conv.magnitude value))
  | .char _ value => [value.setWidth 8]
  | .string _ _ text _ _ => text
  | .other _ formatFlag _ => [formatFlag]

def Item.Negative : Item → Prop
  | .number _ conv value => conv.negative value = true
  | _ => False

def formatOf (items : List Item) (behind : List Byte) : List Byte := items.flatMap Item.format ++ 0 :: behind

def argsOf (items : List Item) (more : List Arg) : List Arg := items.flatMap Item.args ++ more

/-- Both calls come to their end, without a byte outside of the scratch buffer. `sprintf` stores
what `mprintf` sends, and a zero, and this is what the items are printed as. -/
def Agree (items : List Item) (behind : List Byte) (more : List Arg) : Prop :=
  ∃ sent, mprintf (formatOf items behind) (argsOf items more) = .ok sent ∧
    sprintf (formatOf items behind) (argsOf items more) = .ok (sent ++ [0]) ∧ sent = items.flatMap Item.shown

theorem digit_eq {uVal base : BitVec 32} (positive : 0 < base.toNat) (low : base.toNat ≤ 16) :
    digit uVal base = ascii (uVal.toNat % base.toNat).digitChar := by
  have all : ∀ d : Fin 16, (let ch := BitVec.ofNat 8 d + ascii '0'; if ascii '9' <
    ch then ch + (ascii 'a' - ascii '9' - 1) else ch) =
      ascii (Nat.digitChar d) := by decide
  have small : uVal.toNat % base.toNat < 16 := Nat.lt_of_lt_of_le (Nat.mod_lt _ positive) low
  have narrow : (uVal % base).setWidth 8 = BitVec.ofNat 8 (uVal.toNat % base.toNat) := by
    apply BitVec.eq_of_toNat_eq
    rw [BitVec.toNat_setWidth, BitVec.toNat_umod, BitVec.toNat_ofNat]
  rw [digit, narrow]
  exact all ⟨uVal.toNat % base.toNat, small⟩

theorem numeral_length_pos (base n : ℕ) : 0 < (numeral base n).length := by
  rw [numeral, List.length_map]
  exact Nat.length_toDigits_pos

theorem numeral_eq {base : ℕ} (many : 1 < base) (n : ℕ) :
    numeral base n = (if 0 < n / base then numeral base (n / base) else []) ++ [ascii (n % base).digitChar] := by
  rw [numeral, Nat.toDigits_eq_if many]
  by_cases small : n < base
  · rw [if_pos small, Nat.div_eq_of_lt small, if_neg (Nat.lt_irrefl 0), Nat.mod_eq_of_lt small]
    rfl
  · rw [if_neg small, if_pos (Nat.div_pos (Nat.le_of_not_lt small) (Nat.lt_of_succ_lt many)), List.map_append]
    rfl

theorem numeral_length_le {base n k : ℕ} (many : 1 < base) (some : 0 < k) (small : n < base ^ k) :
    (numeral base n).length ≤ k := by
  rw [numeral, List.length_map]
  exact (Nat.length_toDigits_le_iff many some).mpr small

theorem numeral_bytes {base : ℕ} (many : 1 < base) (low : base ≤ 16) (n : ℕ) :
    ∀ b ∈ numeral base n, b ≠ 0 ∧ b ≠ ascii '-' := by
  have all : ∀ d : Fin 16, ascii (Nat.digitChar d) ≠ 0 ∧ ascii (Nat.digitChar d) ≠ ascii '-' := by decide
  induction n using Nat.strong_induction_on with
  | _ n ih =>
    intro b member
    rw [numeral_eq many] at member
    rcases List.mem_append.mp member with front | last
    · by_cases more : 0 < n / base
      · rw [if_pos more] at front
        have positive : 0 < n := Nat.pos_of_ne_zero fun zero => by
          rw [zero, Nat.zero_div] at more
          exact Nat.lt_irrefl 0 more
        exact ih (n / base) (Nat.div_lt_self positive many) b front
      · rw [if_neg more] at front
        exact absurd front List.not_mem_nil
    · rw [List.mem_singleton.mp last]
      exact all ⟨n % base, Nat.lt_of_lt_of_le (Nat.mod_lt n (Nat.lt_of_succ_lt many)) low⟩

theorem width_pred (width : Byte) : (if width ≠ 0 then width - 1 else width).toNat = width.toNat - 1 := by
  split_ifs with some
  · have positive : width.toNat ≠ 0 := fun zero => some (BitVec.eq_of_toNat_eq zero)
    have bound := width.isLt
    rw [BitVec.toNat_sub]
    simp
    omega
  · rw [of_not_not some]
    rfl

theorem convert_eq {base : BitVec 32} (many : 1 < base.toNat) (low : base.toNat ≤ 16) (ptr : ℕ)
    (uVal : BitVec 32) (width : Byte)
    (cells : List Byte) (room : (numeral base.toNat uVal.toNat).length ≤ ptr) :
    ∃ width', convert base ptr uVal width cells =
        .ok (ptr - (numeral base.toNat uVal.toNat).length, width', numeral base.toNat uVal.toNat ++ cells) ∧
      width'.toNat = width.toNat - (numeral base.toNat uVal.toNat).length := by
  induction ptr generalizing uVal width cells with
  | zero => exact absurd (numeral_length_pos base.toNat uVal.toNat) (Nat.not_lt_of_le room)
  | succ ptr ih =>
    have quotient : (uVal / base).toNat = uVal.toNat / base.toNat := BitVec.toNat_udiv
    have positive : (0 < uVal / base) ↔ 0 < uVal.toNat / base.toNat := by
      rw [BitVec.lt_def, quotient]
      rfl
    have less := width_pred width
    rw [numeral_eq many] at room ⊢
    rw [convert, digit_eq (Nat.lt_of_succ_lt many) low]
    by_cases more : 0 < uVal.toNat / base.toNat
    · rw [if_pos more, List.length_append, List.length_singleton] at room
      obtain ⟨width', runs, count⟩ := ih (uVal / base) (if width ≠ 0 then width - 1 else width)
        (ascii (uVal.toNat % base.toNat).digitChar :: cells) (by rw [quotient]; omega)
      rw [quotient] at runs count
      refine ⟨width', ?_, ?_⟩
      · rw [if_pos (positive.mpr more), runs, if_pos more, List.length_append, List.length_singleton, List.append_assoc]
        exact congrArg (fun place => Except.ok (place, width', _)) (by omega)
      · rw [count, less, if_pos more, List.length_append, List.length_singleton]
        omega
    · refine ⟨if width ≠ 0 then width - 1 else width, ?_, ?_⟩
      · rw [if_neg fun up => more (positive.mp up), if_neg more]
        rfl
      · rw [less, if_neg more]
        rfl

theorem fillUp_eq (fill : Byte) (ptr : ℕ) (width : Byte) (cells : List Byte) (room : width.toNat ≤ ptr) :
    fillUp fill ptr width cells = .ok (List.replicate width.toNat fill ++ cells) := by
  induction ptr generalizing width cells with
  | zero =>
    have none : width = 0 := BitVec.eq_of_toNat_eq (Nat.le_zero.mp room)
    rw [none]
    rfl
  | succ ptr ih =>
    have less := width_pred width
    rw [fillUp]
    by_cases some : width ≠ 0
    · have positive : width.toNat ≠ 0 := fun zero => some (BitVec.eq_of_toNat_eq zero)
      rw [if_pos some] at less ⊢
      rw [ih (width - 1) (fill :: cells) (by omega), less]
      obtain ⟨n, size⟩ := Nat.exists_eq_succ_of_ne_zero positive
      rw [size, Nat.succ_sub_one, List.replicate_succ', List.append_assoc]
      rfl
    · rw [if_neg some, of_not_not some]
      rfl

theorem cString_eq (text : List Byte) (ended : ∀ b ∈ text, b ≠ 0) (behind : List Byte) :
    cString (text ++ 0 :: behind) = .ok text := by
  induction text with
  | nil => rfl
  | cons b text ih =>
    obtain ⟨here, rest⟩ := List.forall_mem_cons.mp ended
    rw [List.cons_append, cString, if_neg here, ih rest]
    rfl

theorem conversionLoop_eq {base : BitVec 32} (many : 10 ≤ base.toNat) (low : base.toNat ≤ 16)
    (p : Padding) (uVal : BitVec 32) :
    conversionLoop base p.fill (BitVec.ofNat 8 p.size) uVal = .ok (padded p (numeral base.toNat uVal.toNat)) := by
  have narrow : p.size ≤ 9 := by
    rw [Padding.size]
    cases p.width with
    | none => exact Nat.zero_le 9
    | some w => exact Nat.succ_le_of_lt w.isLt
  have short : (numeral base.toNat uVal.toNat).length ≤ 10 := by
    apply numeral_length_le (by omega) (by decide)
    calc
      uVal.toNat < 10 ^ 10 := Nat.lt_trans uVal.isLt (by decide)
      _ ≤ base.toNat ^ 10 := Nat.pow_le_pow_left many 10
  have size : (BitVec.ofNat 8 p.size).toNat = p.size := Nat.mod_eq_of_lt (by omega)
  obtain ⟨width', runs, count⟩ := convert_eq (by omega) low 15 uVal (BitVec.ofNat 8 p.size) [0] (by omega)
  rw [size] at count
  have text : ∀ b ∈ padded p (numeral base.toNat uVal.toNat), b ≠ 0 := by
    intro b member
    rcases List.mem_append.mp member with fill | digits
    · rw [List.eq_of_mem_replicate fill, Padding.fill]
      split_ifs <;> decide
    · exact (numeral_bytes (by omega) low uVal.toNat b digits).1
  have filled := fillUp_eq p.fill (15 - (numeral base.toNat uVal.toNat).length) width'
    (numeral base.toNat uVal.toNat ++ [0]) (by omega)
  rw [count, ← List.append_assoc] at filled
  rw [conversionLoop, runs]
  change (do
    let cells ← fillUp p.fill (15 - (numeral base.toNat uVal.toNat).length) width'
      (numeral base.toNat uVal.toNat ++ [0])
    cString cells) = _
  rw [filled]
  exact cString_eq _ text []

variable {formatFlag : Byte}

theorem ne_zero_of_closes (closes : Closes formatFlag) : formatFlag - ascii '0' ≠ 0 := by
  intro zero
  apply closes.2
  rw [zero]
  decide

theorem digit_width (w : Fin 9) (format : List Byte) :
    zeroPad ((ascii '1' + BitVec.ofNat 8 w) :: format) = (ascii ' ', (ascii '1' + BitVec.ofNat 8 w) :: format) ∧
      widthSpec ((ascii '1' + BitVec.ofNat 8 w) :: format) = (BitVec.ofNat 8 (w.val + 1), format) := by
  have all : ∀ w : Fin 9, ascii '1' + BitVec.ofNat 8 w - ascii '0' ≠ 0 ∧
      (0 < ascii '1' + BitVec.ofNat 8 w - ascii '0' ∧ ascii '1' + BitVec.ofNat 8 w - ascii '0' ≤ 9) ∧
      ascii '1' + BitVec.ofNat 8 w - ascii '0' = BitVec.ofNat 8 (w.val + 1) := by decide
  obtain ⟨some, range, value⟩ := all w
  constructor
  · rw [zeroPad, if_neg some]
  · rw [widthSpec, if_pos range, value]

theorem widthSpec_closes (closes : Closes formatFlag) (format : List Byte) :
    widthSpec (formatFlag :: format) = (0, formatFlag :: format) := by
  rw [widthSpec, if_neg fun digit => closes.2 digit.2]

theorem zeroPad_closes (closes : Closes formatFlag) (format : List Byte) :
    zeroPad (formatFlag :: format) = (ascii ' ', formatFlag :: format) := by
  rw [zeroPad, if_neg (ne_zero_of_closes closes)]

theorem zeroPad_zero (format : List Byte) : zeroPad (ascii '0' :: format) = (ascii '0', format) := by
  rw [zeroPad, if_pos (by decide)]

theorem padding_eq (p : Padding) (closes : Closes formatFlag) (format : List Byte) :
    ∃ rest, zeroPad (p.text ++ formatFlag :: format) = (p.fill, rest) ∧
      widthSpec rest = (BitVec.ofNat 8 p.size, formatFlag :: format) := by
  obtain ⟨zero, width⟩ := p
  cases zero with
  | true =>
    cases width with
    | none => exact ⟨_, zeroPad_zero _, widthSpec_closes closes format⟩
    | some w => exact ⟨_, zeroPad_zero _, (digit_width w _).2⟩
  | false =>
    cases width with
    | none => exact ⟨_, zeroPad_closes closes format, widthSpec_closes closes format⟩
    | some w => exact ⟨_, (digit_width w _).1, (digit_width w _).2⟩

section
variable {sign : Sign} {format : List Byte} {args : List Arg}

theorem interpret_percent {rest : List Byte} {fill width formatFlag : Byte} {behind : List Byte}
    (zero : zeroPad format = (fill, rest)) (spec : widthSpec rest = (width, formatFlag :: behind)) :
    interpret sign (ascii '%' :: format) args =
      (conversion sign fill width formatFlag args).bind fun result =>
      (interpret sign behind result.2).map (result.1 ++ ·) := by
  rw [interpret, if_neg (not_not.mpr rfl)]
  split
  case h_1 none =>
    rw [zero, spec] at none
    cases none
  case h_2 flag behind' some =>
    rw [zero, spec] at some
    obtain ⟨rfl, rfl⟩ := List.cons.inj some
    rw [zero, spec]
    rfl

theorem interpret_padding (p : Padding) (closes : Closes formatFlag) {text : List Byte} {more : List Arg}
    (converts : conversion sign p.fill (BitVec.ofNat 8 p.size) formatFlag args = .ok (text, more)) :
    interpret sign (ascii '%' :: p.text ++ [formatFlag] ++ format) args =
      (interpret sign format more).map (text ++ ·) := by
  obtain ⟨rest, zero, spec⟩ := padding_eq p closes format
  have split : ascii '%' :: p.text ++ [formatFlag] ++ format = ascii '%' :: (p.text ++ formatFlag :: format) := by
    rw [List.append_assoc]
    rfl
  rw [split, interpret_percent zero spec, converts]
  rfl

theorem closes_flag (conv : Numeric) : Closes conv.flag := by
  cases conv <;> exact ⟨by decide, by decide⟩

theorem conversion_number (p : Padding) (conv : Numeric) (value : BitVec 32) :
    conversion sign p.fill (BitVec.ofNat 8 p.size) conv.flag (.word value :: args) =
      .ok ((sign conv.flag value).1 ++ padded p (numeral conv.base (sign conv.flag value).2.toNat), args) := by
  have ten : conversionLoop 10 p.fill (BitVec.ofNat 8 p.size) (sign conv.flag value).2 =
      .ok (padded p (numeral 10 (sign conv.flag value).2.toNat)) := conversionLoop_eq (by decide) (by decide) p _
  have sixteen : conversionLoop 16 p.fill (BitVec.ofNat 8 p.size) (sign conv.flag value).2 =
      .ok (padded p (numeral 16 (sign conv.flag value).2.toNat)) := conversionLoop_eq (by decide) (by decide) p _
  cases conv with
  | d =>
    rw [conversion, if_neg (by decide), if_neg (by decide), if_pos (by decide), number]
    simp only [ten, Except.bind, bind]
    rfl
  | u =>
    rw [conversion, if_neg (by decide), if_neg (by decide), if_pos (by decide), number]
    simp only [ten, Except.bind, bind]
    rfl
  | x =>
    rw [conversion, if_neg (by decide), if_neg (by decide), if_neg (by decide), if_pos (by decide), number]
    simp only [sixteen, Except.bind, bind]
    rfl

/-- What an item is printed as with a treatment of the sign. -/
def Item.shownBy (sign : Sign) : Item → List Byte
  | .number p conv value => (sign conv.flag value).1 ++ padded p (numeral conv.base (sign conv.flag value).2.toNat)
  | item => item.shown

theorem interpret_item (item : Item) :
    interpret sign (item.format ++ format) (item.args ++ args) = (interpret sign format args).map
      (item.shownBy sign ++ ·) := by
  cases item with
  | plain b itself =>
    change interpret sign (b :: format) args = _
    rw [interpret, if_pos itself.2, if_neg itself.1]
    rfl
  | number p conv value => exact interpret_padding p (closes_flag conv) (conversion_number p conv value)
  | char p value => exact interpret_padding p ⟨by decide, by decide⟩ (if_pos rfl)
  | string p capital text ended behind =>
    have read : cString (text ++ 0 :: behind) = .ok text := cString_eq text ended behind
    cases capital with
    | false =>
      apply interpret_padding p ⟨by decide, by decide⟩
      change conversion sign _ _ (ascii 's') (.text (text ++ 0 :: behind) :: args) = .ok (text, args)
      rw [conversion, if_neg (by decide), if_pos (by decide)]
      simp only [read, Except.map]
    | true =>
      apply interpret_padding p ⟨by decide, by decide⟩
      change conversion sign _ _ (ascii 'S') (.text (text ++ 0 :: behind) :: args) = .ok (text, args)
      rw [conversion, if_neg (by decide), if_pos (by decide)]
      simp only [read, Except.map]
  | other p formatFlag itself =>
    obtain ⟨closes, none⟩ := itself
    apply interpret_padding p closes
    simp only [List.mem_cons, List.not_mem_nil, or_false, not_or] at none
    obtain ⟨c, capital, s, d, u, x⟩ := none
    unfold conversion
    rw [if_neg c, if_neg (not_or.mpr ⟨capital, s⟩), if_neg (not_or.mpr ⟨d, u⟩), if_neg x]
    rfl

theorem interpret_items (items : List Item) (behind : List Byte) (more : List Arg) :
    interpret sign (formatOf items behind) (argsOf items more) = .ok (items.flatMap (Item.shownBy sign)) := by
  induction items with
  | nil =>
    change interpret sign (0 :: behind) more = .ok []
    rw [interpret, if_pos (by decide), if_pos rfl]
  | cons item items ih =>
    change interpret sign (item.format ++ items.flatMap Item.format ++ 0 :: behind)
      (item.args ++ items.flatMap Item.args ++ more) = _
    rw [List.append_assoc, List.append_assoc, interpret_item]
    change (interpret sign (formatOf items behind) (argsOf items more)).map _ = _
    rw [ih]
    rfl

end

theorem minus_d (value : BitVec 32) : minus (ascii 'd') value = if value.toInt <
    0 then ([ascii '-'], -value) else ([], value) := by
  have top : value &&& 0x80000000 = if value.getLsbD 31 then 0x80000000 else 0 := BitVec.and_twoPow value 31
  have sign : value.getLsbD 31 = decide (value.toInt < 0) := BitVec.msb_eq_toInt (x := value)
  rw [minus, top, sign]
  by_cases negative : value.toInt < 0
  · rw [if_pos negative, if_pos (decide_eq_true negative), if_pos ⟨rfl, by decide⟩]
  · rw [if_neg negative, decide_eq_false negative, if_neg Bool.false_ne_true, if_neg fun both => both.2 rfl]

theorem minus_other (other : formatFlag ≠ ascii 'd') (value : BitVec 32) : minus formatFlag value = ([], value) :=
  if_neg fun both => other both.1

theorem magnitude_neg {value : BitVec 32} (negative : value.toInt < 0) : (-value).toNat = value.toInt.natAbs := by
  have bound := value.isLt
  rw [BitVec.toInt_eq_toNat_cond] at negative ⊢
  rw [BitVec.toNat_neg]
  split_ifs at negative ⊢ with low
  · omega
  · omega

theorem magnitude_pos {value : BitVec 32} (positive : ¬value.toInt < 0) : value.toNat = value.toInt.natAbs := by
  rw [BitVec.toInt_eq_toNat_cond] at positive ⊢
  have bound := value.isLt
  split_ifs at positive ⊢ with low
  · omega
  · omega

theorem shownBy_minus (item : Item) : item.shownBy minus = item.shown := by
  cases item with
  | number p conv value =>
    cases conv with
    | d =>
      rw [Item.shownBy, Item.shown, Numeric.flag, minus_d]
      by_cases negative : value.toInt < 0
      · have low : Numeric.d.negative value = true := decide_eq_true negative
        rw [if_pos negative, low, if_pos rfl, magnitude_neg negative]
        rfl
      · have high : Numeric.d.negative value = false := decide_eq_false negative
        rw [if_neg negative, high, if_neg Bool.false_ne_true, magnitude_pos negative]
        rfl
    | u =>
      rw [Item.shownBy, minus_other (by decide)]
      rfl
    | x =>
      rw [Item.shownBy, minus_other (by decide)]
      rfl
  | _ => rfl

theorem shownBy_noSign {item : Item} (other : ¬item.Negative) : item.shownBy noSign = item.shown := by
  rw [← shownBy_minus]
  cases item with
  | number p conv value =>
    have none : minus conv.flag value = ([], value) := by
      cases conv with
      | d => exact (minus_d value).trans (if_neg fun negative => other (decide_eq_true negative))
      | u => exact minus_other (by decide) value
      | x => exact minus_other (by decide) value
    rw [Item.shownBy, Item.shownBy, none]
    rfl
  | _ => rfl

theorem negative_differs {item : Item} (negative : item.Negative) (front back : List Byte) :
    item.shownBy noSign ++ front ≠ item.shown ++ back := by
  cases item with
  | number p conv value =>
    have sign : conv.negative value = true := negative
    have low : conv.base ≤ 16 := by cases conv <;> decide
    have many : 1 < conv.base := by cases conv <;> decide
    rw [Item.shownBy, Item.shown, if_pos sign]
    change padded p (numeral conv.base value.toNat) ++ front ≠ ascii '-' :: _
    intro same
    have some := numeral_length_pos conv.base value.toNat
    -- The first byte is one of the padding or of the numeral.
    cases text : padded p (numeral conv.base value.toNat) with
    | nil =>
      have long := congrArg List.length text
      rw [padded, List.length_append, List.length_nil] at long
      omega
    | cons b rest =>
      rw [text] at same
      have first : b = ascii '-' := (List.cons.inj same).1
      have member : b ∈ padded p (numeral conv.base value.toNat) := by
        rw [text]
        exact List.mem_cons_self
      rcases List.mem_append.mp member with fill | digits
      · rw [first] at fill
        have dash := List.eq_of_mem_replicate fill
        rw [Padding.fill] at dash
        split_ifs at dash <;> revert dash <;> decide
      · exact (numeral_bytes many low value.toNat b digits).2 first
  | _ => cases negative

theorem flatMap_shownBy_iff (items : List Item) :
    items.flatMap (Item.shownBy noSign) = items.flatMap Item.shown ↔ ∀ item ∈ items, ¬item.Negative := by
  induction items with
  | nil => exact iff_of_true rfl fun _ member => absurd member List.not_mem_nil
  | cons item items ih =>
    rw [List.flatMap_cons, List.flatMap_cons, List.forall_mem_cons]
    by_cases negative : item.Negative
    · exact iff_of_false (negative_differs negative _ _) fun all => all.1 negative
    · rw [shownBy_noSign negative, List.append_cancel_left_eq, ih]
      exact ⟨fun all => ⟨negative, all⟩, fun all => all.2⟩

theorem mprintf_eq (items : List Item) (behind : List Byte) (more : List Arg) :
    mprintf (formatOf items behind) (argsOf items more) = .ok (items.flatMap Item.shown) := by
  have all : items.flatMap (Item.shownBy minus) = items.flatMap Item.shown := by
    rw [funext shownBy_minus]
  rw [← all]
  exact interpret_items items behind more

theorem sprintf_eq (items : List Item) (behind : List Byte) (more : List Arg) :
    sprintf (formatOf items behind) (argsOf items more) = .ok (items.flatMap (Item.shownBy noSign) ++ [0]) := by
  rw [sprintf, pVsprintf, interpret_items]
  rfl

/-- The two agree on a format if and only if none of its signed numbers is negative. -/
theorem printf_agree_iff (items : List Item) (behind : List Byte) (more : List Arg) :
    Agree items behind more ↔ ∀ item ∈ items, ¬item.Negative := by
  rw [Agree, mprintf_eq, sprintf_eq, ← flatMap_shownBy_iff]
  constructor
  · intro agree
    obtain ⟨sent, sends, stores, shown⟩ := agree
    have bytes := List.append_cancel_right (Except.ok.inj stores)
    exact bytes.trans shown
  · intro same
    exact ⟨_, rfl, by rw [same], rfl⟩

/-- `%d` of -1. -/
def minusOne : Item := .number ⟨false, none⟩ .d (-1)

/-- `sprintf` stores 4294967295 for it, and `mprintf` sends -1. -/
theorem minusOne_disagrees : ¬Agree [minusOne] [] [] := by
  rw [Agree, mprintf_eq, sprintf_eq]
  intro agree
  obtain ⟨sent, sends, stores, shown⟩ := agree
  have bytes := List.append_cancel_right (Except.ok.inj stores)
  rw [shown] at bytes
  revert bytes
  decide +kernel

end BelProject.Lm32.Printf
