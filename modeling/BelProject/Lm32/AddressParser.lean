import BelProject.Library.Strtol
import BelProject.Lm32.UdpHeader

/-! The addresses of the embedded CPU, as `hw/11:22:33:44:55:66/udp/192.168.0.1/port/60368`. A
string is the text in front of its terminating zero, and a pointer into it is the text from there
on. Nothing is checked but the three words, and the bytes of a field are read one behind the other,
whatever stands between them. -/

namespace BelProject.Lm32.AddressParser
open BelProject.Library.Strtol UdpHeader

abbrev Text := List Char

/-- A character is read behind the terminating zero, or a byte is written outside of its field. -/
inductive Fault where
  | overrun | outside
  deriving DecidableEq

/-- A pointer is `none` behind the terminating zero. -/
abbrev Pointer := Option Text

def strsplit (delimeter : Char) : Text → Text
  | [] => []
  | c :: pch => if c = delimeter then pch else strsplit delimeter pch

section
variable {n : ℕ}

def put (bytes : Fin n → BitVec 8) (k : ℕ) (byte : BitVec 8) : Except Fault (Fin n → BitVec 8) :=
  if inside : k < n then .ok (Function.update bytes ⟨k, inside⟩ byte) else .error .outside

/-- The loop, with what is missing of `len`. `strtol` sets the end of the number, and the split in
front of it only reads up to the terminating zero. -/
def numStrLoop (len base : ℕ) : ℕ → Pointer → (Fin n → BitVec 8) → Except Fault (Fin n → BitVec 8)
  | 0, _, bytes => .ok bytes
  | _ + 1, none, _ => .error .overrun
  | left + 1, some pch, bytes =>
    let (tmpconv, pend) := strtol pch base
    let byteCount := len - (left + 1)
    if tmpconv > 255 then do
      let bytes ← put bytes byteCount (BitVec.ofInt 8 (tmpconv / 256))
      let bytes ← put bytes (byteCount + 1) (BitVec.ofInt 8 tmpconv)
      match left with
      | 0 => .ok bytes
      | left + 1 => numStrLoop len base left pend.tail? bytes
    else do
      let bytes ← put bytes byteCount (BitVec.ofInt 8 tmpconv)
      numStrLoop len base left pend.tail? bytes

def numStrToBytes (numstr : Text) (bytes : Fin n → BitVec 8) (len base : ℕ) : Except Fault (Fin n → BitVec 8) :=
  numStrLoop len base len (some numstr) bytes

/-- `adress_type_t` -/
inductive AdressType where
  | mac | ip | port
  deriving DecidableEq

/-- The length and the base of the numbers. The field stays as it is for a port, which no caller
asks for. -/
def addressStrToBytes (addressStr : Text) (addressBytes : Fin n → BitVec 8) :
    AdressType → Except Fault (Fin n → BitVec 8)
  | .mac => numStrToBytes addressStr addressBytes 6 16
  | .ip => numStrToBytes addressStr addressBytes 4 10
  | .port => .ok addressBytes

end

def atoi (nptr : Text) : ℤ := (strtol nptr 10).1

/-- `EB_OK` and `EB_FAIL` -/
inductive Status where
  | ok | fail
  deriving DecidableEq

def hw : Text := ['h', 'w']
def udp : Text := ['u', 'd', 'p']
def port : Text := ['p', 'o', 'r', 't']

/-- `ebm_parse_adr` does the same. -/
def ebLm32UdpConnect (link : Link) (address : Text) : Except Fault (Link × Status) :=
  if hw <+: address then do
    let pch := strsplit '/' address
    let mac ← addressStrToBytes pch link.mac .mac
    let link := { link with mac }
    let pch := strsplit '/' pch
    if udp <+: pch then do
      let pch := strsplit '/' pch
      let ipv4 ← addressStrToBytes pch link.ipv4 .ip
      let link := { link with ipv4 }
      let pch := strsplit '/' pch
      if port <+: pch then
        let pch := strsplit '/' pch
        .ok ({ link with port := BitVec.ofInt 16 (atoi pch) }, .ok)
      else .ok (link, .fail)
    else .ok (link, .fail)
  else .ok (link, .fail)

/-- A number as it is written, that is not above some bound. -/
structure Numeral (base bound : ℕ) where
  digits : Text
  nonempty : digits ≠ []
  all : ∀ c ∈ digits, isDigit base c = true
  small : value base digits ≤ bound

def joined (separator : Char) (numerals : List Text) : Text := (numerals.intersperse [separator]).flatten

structure Address where
  mac : Fin 6 → Numeral 16 255
  ipv4 : Fin 4 → Numeral 10 255
  port : Numeral 10 65535

def Address.text (a : Address) : Text :=
  hw ++ '/' :: joined ':' (List.ofFn fun k => (a.mac k).digits) ++ '/' :: udp ++
    '/' :: joined '.' (List.ofFn fun k => (a.ipv4 k).digits) ++ '/' :: AddressParser.port ++ '/' :: a.port.digits

def Address.link (a : Address) : Link where
  mac k := BitVec.ofNat 8 (value 16 (a.mac k).digits)
  ipv4 k := BitVec.ofNat 8 (value 10 (a.ipv4 k).digits)
  port := BitVec.ofNat 16 (value 10 a.port.digits)

def Documented (s : Text) : Prop := ∃ a : Address, s = a.text

/-- No fault, the right answer, and for a documented address its numbers. -/
def Right (link : Link) (s : Text) : Prop :=
  ∃ link' status, ebLm32UdpConnect link s = .ok (link', status) ∧ (status = .ok ↔ Documented s) ∧ ∀ a :
    Address, s = a.text → link' = a.link

/-- The numbers in a text fill some bytes and do not run into its end. A number above a byte takes
two. -/
inductive Fills (base : ℕ) : ℕ → Pointer → Prop
  | full {pch : Pointer} : Fills base 0 pch
  | byte {left : ℕ} {pch : Text} (small : (strtol pch base).1 ≤ 255)
      (more : Fills base left (strtol pch base).2.tail?) :
      Fills base (left + 1) (some pch)
  | pair {left : ℕ} {pch : Text} (large : (strtol pch base).1 > 255)
      (more : Fills base left (strtol pch base).2.tail?) :
      Fills base (left + 2) (some pch)

section
variable {n base : ℕ} {pch : Pointer} {bytes : Fin n → BitVec 8}

theorem put_ok {k : ℕ} (inside : k < n) (byte : BitVec 8) :
    put bytes k byte = .ok (Function.update bytes ⟨k, inside⟩ byte) :=
  dif_pos inside

theorem put_error (k : ℕ) (outside : n ≤ k) (byte : BitVec 8) : put bytes k byte = .error .outside :=
  dif_neg (Nat.not_lt.mpr outside)

theorem loop_byte {left : ℕ} {pch : Text} (room : left < n) (small : (strtol pch base).1 ≤ 255) :
    numStrLoop n base (left + 1) (some pch) bytes = numStrLoop n base left (strtol pch base).2.tail?
      (Function.update bytes ⟨n - (left + 1), by omega⟩ (BitVec.ofInt 8 (strtol pch base).1)) := by
  rw [numStrLoop]
  simp only [if_neg (Int.not_lt.mpr small), put_ok (show n - (left + 1) < n by omega)]
  rfl

theorem loop_pair {left : ℕ} {pch : Text} (room : left + 1 < n) (large : (strtol pch base).1 > 255) :
    numStrLoop n base (left + 2) (some pch) bytes = numStrLoop n base left (strtol pch base).2.tail?
      (Function.update (Function.update bytes ⟨n - (left + 2), by omega⟩ (BitVec.ofInt 8 ((strtol pch base).1 / 256)))
        ⟨n - (left + 2) + 1, by omega⟩ (BitVec.ofInt 8 (strtol pch base).1)) := by
  rw [numStrLoop]
  simp only [if_pos large, put_ok (show n - (left + 1 + 1) < n by omega)]
  change (put _ (n - (left + 1 + 1) + 1) _).bind _ = _
  rw [put_ok (show n - (left + 1 + 1) + 1 < n by omega)]
  rfl

theorem loop_last {pch : Text} (room : 0 < n) (large : (strtol pch base).1 > 255) :
    numStrLoop n base 1 (some pch) bytes = .error .outside := by
  rw [numStrLoop]
  simp only [if_pos large, put_ok (show n - (0 + 1) < n by omega)]
  change (put _ (n - (0 + 1) + 1) _).bind _ = _
  rw [put_error _ (by omega)]
  rfl

theorem numStrLoop_ok_iff {left : ℕ} (room : left ≤ n) :
    (∃ filled, numStrLoop n base left pch bytes = .ok filled) ↔ Fills base left pch := by
  induction left using Nat.strong_induction_on generalizing pch bytes with
  | _ left ih =>
    cases left with
    | zero => exact ⟨fun _ => .full, fun _ => ⟨bytes, rfl⟩⟩
    | succ left =>
      cases pch with
      | none =>
        constructor
        · rintro ⟨filled, ran⟩
          cases ran
        · intro fills
          cases fills
      | some pch =>
        rcases le_or_gt (strtol pch base).1 255 with small | large
        · rw [loop_byte room small, ih left (Nat.lt_succ_self left) (by omega)]
          refine ⟨.byte small, fun fills => ?_⟩
          cases fills with
          | byte _ more => exact more
          | pair large _ => omega
        · cases left with
          | zero =>
            rw [loop_last room large]
            constructor
            · rintro ⟨filled, ran⟩
              cases ran
            · intro fills
              cases fills with
              | byte small _ => omega
          | succ left =>
            rw [loop_pair room large, ih left (by omega) (by omega)]
            refine ⟨.pair large, fun fills => ?_⟩
            cases fills with
            | byte small _ => omega
            | pair _ more => exact more

end

theorem strsplit_append {delimeter : Char} {text : Text} (absent : delimeter ∉ text) (rest : Text) :
    strsplit delimeter (text ++ delimeter :: rest) = rest := by
  induction text with
  | nil => exact if_pos rfl
  | cons c text ih =>
    rw [List.mem_cons, not_or] at absent
    rw [List.cons_append, strsplit, if_neg (Ne.symm absent.1), ih absent.2]

theorem stops_cons {base : ℕ} {c : Char} (is : isDigit base c = false ∧ c ≠ 'x' ∧ c ≠ 'X')
    (rest : Text) : Stops base (c :: rest) := by
  rintro c more same
  obtain ⟨rfl, -⟩ := List.cons.inj same
  exact is

theorem stops_nil {base : ℕ} : Stops base [] := fun _ _ none => nomatch none

section
variable {base bound : ℕ}

variable {rest : Text}

theorem Numeral.read (d : Numeral base bound) (fits : bound < 2 ^ 31) (stops : Stops base rest) :
    strtol (d.digits ++ rest) base = (((value base d.digits : ℕ) : ℤ), rest) := by
  rw [strtol_digits d.nonempty d.all stops, clamp_of_le (d.small.trans_lt fits)]

theorem Numeral.loop {n left : ℕ} (d : Numeral base 255) (room : left < n) (stops : Stops base rest)
    (bytes : Fin n → BitVec 8) : numStrLoop n base (left + 1) (some (d.digits ++ rest)) bytes =
      numStrLoop n base left rest.tail?
      (Function.update bytes ⟨n - (left + 1), by omega⟩ (BitVec.ofNat 8 (value base d.digits))) := by
  have read := d.read (by decide) stops
  have small : (strtol (d.digits ++ rest) base).1 ≤ 255 := by
    rw [read]
    exact Int.ofNat_le.mpr d.small
  rw [loop_byte room small, read, BitVec.ofInt_natCast]

theorem Numeral.slash (d : Numeral base bound) : '/' ∉ d.digits := fun inside =>
  absurd (isDigit_bounds (d.all '/' inside)) (by decide)

theorem joined_single (separator : Char) (last : Text) : joined separator [last] = last := List.append_nil last

theorem joined_cons (separator : Char) (first second : Text) (more : List Text) :
    joined separator (first :: second :: more) = first ++ separator :: joined separator (second :: more) := rfl

variable {separator : Char}

theorem joined_slash (other : '/' ≠ separator) (numerals : List (Numeral base bound)) :
    '/' ∉ joined separator (numerals.map Numeral.digits) := by
  induction numerals with
  | nil => exact List.not_mem_nil
  | cons first numerals ih =>
    cases numerals with
    | nil =>
      rw [List.map_singleton, joined_single]
      exact first.slash
    | cons second numerals =>
      rw [List.map_cons, List.map_cons, joined_cons, List.mem_append, List.mem_cons, not_or, not_or]
      exact ⟨first.slash, other, ih⟩

theorem loop_numerals {n : ℕ} (separates : isDigit base separator = false ∧ separator ≠ 'x' ∧ separator ≠ 'X')
    (numerals : List (Numeral base 255)) (room : numerals.length ≤ n) (stops : Stops base rest)
    (bytes : Fin n → BitVec 8) :
    ∃ filled, numStrLoop n base numerals.length
      (some (joined separator (numerals.map Numeral.digits) ++ rest)) bytes = .ok filled ∧
      (∀ k : Fin n, k < n - numerals.length → filled k = bytes k) ∧
      ∀ j (inside : j < numerals.length), filled ⟨n - numerals.length + j, by omega⟩ =
        BitVec.ofNat 8 (value base numerals[j].digits) := by
  induction numerals generalizing bytes with
  | nil => exact ⟨bytes, rfl, fun _ _ => rfl, fun j inside => absurd inside (Nat.not_lt_zero j)⟩
  | cons first numerals ih =>
    rw [List.length_cons] at room
    let next := Function.update bytes ⟨n - (numerals.length + 1), by omega⟩ (BitVec.ofNat 8 (value base first.digits))
    have turn : numStrLoop n base (numerals.length + 1)
      (some (joined separator ((first :: numerals).map Numeral.digits) ++ rest)) bytes =
        numStrLoop n base numerals.length (some (joined separator (numerals.map Numeral.digits) ++ rest)) next := by
      cases numerals with
      | nil =>
        rw [List.map_singleton, joined_single]
        exact first.loop room stops bytes
      | cons second numerals =>
        rw [List.map_cons, List.map_cons, joined_cons, List.append_assoc, List.cons_append]
        exact first.loop room (stops_cons separates _) bytes
    obtain ⟨filled, ran, before, behind⟩ := ih (by omega) next
    refine ⟨filled, turn.trans ran, fun k outside => ?_, fun j inside => ?_⟩
    · rw [List.length_cons] at outside
      rw [before k (by omega)]
      exact Function.update_of_ne (fun same => by rw [same] at outside; exact absurd outside (lt_irrefl _)) _ _
    · cases j with
      | zero =>
        have here :=
          before ⟨n - (numerals.length + 1), by omega⟩ (show n - (numerals.length + 1) < n - numerals.length by omega)
        exact here.trans (Function.update_self ..)
      | succ j =>
        have place : n - (numerals.length + 1) + (j + 1) = n - numerals.length + j := by omega
        have there := behind j (Nat.lt_of_succ_lt_succ inside)
        simp only [List.length_cons, place]
        exact there

theorem loop_field {n : ℕ} (separates : isDigit base separator = false ∧ separator ≠ 'x' ∧ separator ≠ 'X')
    (numerals : Fin n → Numeral base 255) (stops : Stops base rest) (bytes : Fin n → BitVec 8) :
    numStrLoop n base n (some (joined separator (List.ofFn fun k => (numerals k).digits) ++ rest)) bytes =
      .ok fun k => BitVec.ofNat 8 (value base (numerals k).digits) := by
  obtain ⟨filled, ran, -, all⟩ := loop_numerals separates (List.ofFn numerals) (List.length_ofFn ..).le stops bytes
  simp only [List.length_ofFn, List.map_ofFn, Nat.sub_self, Nat.zero_add, List.getElem_ofFn] at ran all
  refine ran.trans (congrArg _ (funext fun k => all k k.isLt))

end

theorem Address.text_eq (a : Address) : a.text =
    hw ++ '/' :: (joined ':' (List.ofFn fun k => (a.mac k).digits) ++ '/' :: (udp ++
      '/' :: (joined '.' (List.ofFn fun k => (a.ipv4 k).digits) ++ '/' ::
        (AddressParser.port ++ '/' :: a.port.digits)))) := by
  simp only [Address.text, List.append_assoc, List.cons_append]

theorem field_slash {n base bound : ℕ} {separator : Char} (other : '/' ≠ separator)
    (numerals : Fin n → Numeral base bound) :
    '/' ∉ joined separator (List.ofFn fun k => (numerals k).digits) := by
  have slash := joined_slash other (List.ofFn numerals)
  rwa [List.map_ofFn] at slash

def field : ℕ → Text → Text
  | 0, s => s
  | k + 1, s => strsplit '/' (field k s)

theorem connect_eq (link : Link) (s : Text) : ebLm32UdpConnect link s =
    if hw <+: s then
      (numStrLoop 6 16 6 (some (field 1 s)) link.mac).bind fun mac =>
        if udp <+: field 2 s then
          (numStrLoop 4 10 4 (some (field 3 s)) link.ipv4).bind fun ipv4 =>
            if port <+: field 4 s then .ok (⟨mac, ipv4, BitVec.ofInt 16 (atoi (field 5 s))⟩, .ok)
            else .ok (⟨mac, ipv4, link.port⟩, .fail)
        else .ok (⟨mac, link.ipv4, link.port⟩, .fail)
    else .ok (link, .fail) := rfl

theorem connect_text (link : Link) (a : Address) : ebLm32UdpConnect link a.text = .ok (a.link, .ok) := by
  have colon : isDigit 16 ':' = false ∧ ':' ≠ 'x' ∧ ':' ≠ 'X' := by decide
  have point : isDigit 10 '.' = false ∧ '.' ≠ 'x' ∧ '.' ≠ 'X' := by decide
  have slash : isDigit 16 '/' = false ∧ isDigit 10 '/' = false ∧ '/' ≠ 'x' ∧ '/' ≠ 'X' := by decide
  have first : field 1 a.text = _ := (congrArg _ a.text_eq).trans (strsplit_append (by decide) _)
  have second : field 2 a.text = _ := (congrArg _ first).trans (strsplit_append (field_slash (by decide) a.mac) _)
  have third : field 3 a.text = _ := (congrArg _ second).trans (strsplit_append (by decide) _)
  have fourth : field 4 a.text = _ := (congrArg _ third).trans (strsplit_append (field_slash (by decide) a.ipv4) _)
  have fifth : field 5 a.text = _ := (congrArg _ fourth).trans (strsplit_append (by decide) _)
  have number := a.port.read (by decide) stops_nil
  rw [List.append_nil] at number
  rw [connect_eq, first, second, third, fourth, fifth, if_pos (a.text_eq ▸ List.prefix_append ..),
    loop_field colon a.mac (stops_cons ⟨slash.1, slash.2.2⟩ _), Except.bind, if_pos (List.prefix_append ..),
    loop_field point a.ipv4 (stops_cons slash.2 _), Except.bind, if_pos (List.prefix_append ..), atoi,
      number, BitVec.ofInt_natCast]
  rfl

/-- Refused without a fault: another word in one of the three places, and fields in front of it that
end in time. -/
def Refused (s : Text) : Prop :=
  ¬hw <+: s ∨ Fills 16 6 (some (field 1 s)) ∧ (¬udp <+: field 2 s ∨ Fills 10 4 (some (field 3 s)) ∧ ¬port <+: field 4 s)

theorem field_bind_iff {n base : ℕ} {pch : Pointer} {bytes : Fin n → BitVec 8}
    {next : (Fin n → BitVec 8) → Except Fault (Link × Status)}
    {refused : Prop} (rest : ∀ filled, (∃ link', next filled = .ok (link', .fail)) ↔ refused) :
    (∃ link', (numStrLoop n base n pch bytes).bind next = .ok (link', .fail)) ↔ Fills base n pch ∧ refused := by
  have runs : (∃ filled, numStrLoop n base n pch bytes = .ok filled) ↔ Fills base n pch :=
    numStrLoop_ok_iff (Nat.le_refl n)
  rw [← runs]
  cases run : numStrLoop n base n pch bytes with
  | error fault =>
    constructor
    · rintro ⟨link', none⟩
      cases none
    · rintro ⟨⟨filled, none⟩, -⟩
      cases none
  | ok filled => exact (rest filled).trans ⟨fun refused => ⟨⟨filled, rfl⟩, refused⟩, fun both => both.2⟩

theorem refused_iff (link : Link) (s : Text) : (∃ link', ebLm32UdpConnect link s = .ok (link', .fail)) ↔ Refused s := by
  rw [connect_eq, Refused]
  by_cases first : hw <+: s
  · rw [if_pos first, field_bind_iff, or_iff_right (not_not.mpr first)]
    intro mac
    by_cases second : udp <+: field 2 s
    · rw [if_pos second, field_bind_iff, or_iff_right (not_not.mpr second)]
      intro ipv4
      by_cases third : port <+: field 4 s
      · rw [if_pos third]
        exact ⟨fun ⟨link', ran⟩ => Status.noConfusion (congrArg Prod.snd (Except.ok.inj ran)),
          fun other => absurd third other⟩
      · rw [if_neg third]
        exact ⟨fun _ => third, fun _ => ⟨_, rfl⟩⟩
    · rw [if_neg second]
      exact ⟨fun _ => .inl second, fun _ => ⟨_, rfl⟩⟩
  · rw [if_neg first]
    exact ⟨fun _ => .inl first, fun _ => ⟨_, rfl⟩⟩

/-- The parser does what its comment says exactly for the documented addresses and for those that it
refuses without a fault. -/
theorem right_iff (link : Link) (s : Text) : Right link s ↔ Documented s ∨ Refused s := by
  constructor
  · rintro ⟨link', status, ran, answer, -⟩
    cases status with
    | ok => exact .inl (answer.mp rfl)
    | fail => exact .inr ((refused_iff link s).mp ⟨link', ran⟩)
  · rintro (⟨a, rfl⟩ | refused)
    · refine ⟨a.link, .ok, connect_text link a, ⟨fun _ => ⟨a, rfl⟩, fun _ => rfl⟩, fun other same => ?_⟩
      have again := connect_text link other
      rw [← same, connect_text] at again
      exact congrArg Prod.fst (Except.ok.inj again)
    · obtain ⟨link', ran⟩ := (refused_iff link s).mpr refused
      have never (a : Address) : s ≠ a.text := by
        rintro rfl
        rw [connect_text] at ran
        exact Status.noConfusion (congrArg Prod.snd (Except.ok.inj ran))
      refine ⟨link', .fail, ran, ⟨fun ok => absurd ok (by decide), ?_⟩, fun a same => absurd same (never a)⟩
      rintro ⟨a, same⟩
      exact absurd same (never a)

/-- The word in front of the MAC address alone: the numbers are looked for behind the end. -/
theorem bare_overrun : ¬ Right someLink hw := by
  rintro ⟨link', status, ran, -⟩
  have fault : ebLm32UdpConnect someLink hw = .error .overrun := by rfl
  rw [fault] at ran
  cases ran

end BelProject.Lm32.AddressParser
