import BelProject.Library.OnesComplement

/-! The IP header checksum. `eb_checksum` adds up a word a clock in a register that is wide
enough for 2^12 of them and folds the carries in when its input pauses; the processes of the
transmitters feed it the words of a header. -/

namespace BelProject.SlaveCore.Checksum
open BelProject.Library OnesComplement

/-- The registers of `eb_checksum`; `addup` is the state `S_ADDUP`. -/
structure Adder where
  addup : Bool
  done : Bool
  sum : BitVec 28
  deriving DecidableEq

def Adder.reset : Adder := ⟨false, false, 0⟩

def Adder.sumO (a : Adder) : BitVec 16 := a.sum.extractLsb' 0 16

def sum0 (sum : BitVec 28) : BitVec 17 := (sum.extractLsb' 0 16).setWidth 17 + (sum.extractLsb' 16 12).setWidth 17

def sum1 (sum : BitVec 28) : BitVec 17 := (sum.extractLsb' 0 16).setWidth 17 + (sum.extractLsb' 16 12).setWidth 17 + 1

def fWrap (sum : BitVec 28) : BitVec 16 := if (sum0 sum).getLsbD 16 then (sum1 sum).setWidth 16
    else (sum0 sum).setWidth 16

def Adder.clock (a : Adder) (en : Bool) (data : BitVec 16) : Adder :=
  match a.addup with
  | false => { addup := en, done := false, sum := if en then data.setWidth 28 else a.sum }
  | true => if en then { a with sum := a.sum + data.setWidth 28 } else ⟨false, true, (fWrap a.sum).setWidth 28⟩

theorem fWrap_toNat (sum : BitVec 28) : (fWrap sum).toNat = residue (2 ^ 16 - 1) sum.toNat := by
  have below := sum.isLt
  have value : (sum0 sum).toNat = sum.toNat % 2 ^ 16 + sum.toNat / 2 ^ 16 := by
    have low : sum.toNat % 2 ^ 16 < 2 ^ 16 := Nat.mod_lt _ (by decide)
    have high : sum.toNat / 2 ^ 16 < 2 ^ 12 := by omega
    simp only [sum0, BitVec.toNat_add, BitVec.toNat_setWidth, BitVec.extractLsb'_toNat,
      Nat.shiftRight_eq_div_pow, Nat.pow_zero,
      Nat.div_one]
    rw [Nat.mod_eq_of_lt (a := sum.toNat % 2 ^ 16) (by omega), Nat.mod_eq_of_lt high,
      Nat.mod_eq_of_lt (a := sum.toNat / 2 ^ 16) (by omega), Nat.mod_eq_of_lt (by omega)]
  have next : (sum1 sum).toNat = (sum.toNat % 2 ^ 16 + sum.toNat / 2 ^ 16 + 1) % 2 ^ 17 := by
    rw [← value]
    exact BitVec.toNat_add (sum0 sum) 1
  have carry : (sum0 sum).getLsbD 16 = decide (2 ^ 16 ≤ (sum0 sum).toNat) := by
    rw [← BitVec.msb_eq_getLsbD_last, BitVec.msb_eq_decide]
  rw [fWrap, carry, residue]
  by_cases carries : 2 ^ 16 ≤ (sum0 sum).toNat
  · rw [if_pos (decide_eq_true carries), BitVec.toNat_setWidth, next]
    rw [value] at carries
    rw [if_neg (by omega)]
    omega
  · rw [if_neg (by rw [decide_eq_false carries]; exact Bool.false_ne_true), BitVec.toNat_setWidth, value]
    rw [value] at carries
    split_ifs with zero
    · omega
    · omega

/-- Some words were added up and no carry is lost. -/
structure Adder.Holds (a : Adder) (words : List (BitVec 16)) : Prop where
  addup : a.addup = true
  sum : a.sum.toNat = total words

structure Adder.Shows (a : Adder) (words : List (BitVec 16)) : Prop where
  idle : a.addup = false
  sumO : a.sumO = OnesComplement.sum words

variable {a : Adder} {words : List (BitVec 16)}

theorem Adder.first (idle : a.addup = false) (data : BitVec 16) : (a.clock true data).Holds [data] := by
  rw [Adder.clock, idle]
  refine ⟨rfl, ?_⟩
  have below := data.isLt
  show (data.setWidth 28).toNat = _
  rw [BitVec.toNat_setWidth, total_cons]
  exact Nat.mod_eq_of_lt (by omega)

theorem Adder.Holds.more (holds : a.Holds words) (data : BitVec 16) (few : words.length < 2 ^ 12) :
    (a.clock true data).Holds (words ++ [data]) := by
  have bound := total_le words
  have below := data.isLt
  rw [Adder.clock, holds.addup]
  refine ⟨rfl, ?_⟩
  show (a.sum + data.setWidth 28).toNat = _
  have value : total [data] = data.toNat := Nat.add_zero _
  rw [BitVec.toNat_add, BitVec.toNat_setWidth, holds.sum, total_append, value]
  omega

theorem Adder.Holds.fold (holds : a.Holds words) (data : BitVec 16) :
    (a.clock false data).Shows words ∧ (a.clock false data).done = true := by
  rw [Adder.clock, holds.addup]
  refine ⟨⟨rfl, ?_⟩, rfl⟩
  apply BitVec.eq_of_toNat_eq
  have below := (fWrap a.sum).isLt
  show (((fWrap a.sum).setWidth 28).extractLsb' 0 16).toNat = _
  rw [BitVec.extractLsb'_toNat, BitVec.toNat_setWidth, Nat.shiftRight_zero,
    Nat.mod_eq_of_lt (a := (fWrap a.sum).toNat) (by omega),
    Nat.mod_eq_of_lt below, fWrap_toNat, holds.sum, toNat_sum]

theorem Adder.Shows.stays (shows_ : a.Shows words) (data : BitVec 16) : (a.clock false data).Shows words := by
  rw [Adder.clock, shows_.idle]
  exact ⟨rfl, shows_.sumO⟩

theorem Adder.folded (idle : a.addup = false) (data : BitVec 16) (words : List (BitVec 16))
    (few : words.length < 2 ^ 12)
    (pause : BitVec 16) :
    (((data :: words).foldl (fun a data => a.clock true data) a).clock false pause).Shows (data :: words) := by
  have holds : ((data :: words).foldl (fun a data => a.clock true data) a).Holds (data :: words) := by
    induction words using List.reverseRecOn with
    | nil => exact Adder.first idle data
    | append_singleton words last ih =>
      rw [List.length_append, List.length_singleton] at few
      rw [← List.cons_append, List.foldl_append]
      exact (ih (by omega)).more last few
  exact (holds.fold pause).1

/-- `f_format_ip` of `c_ip_init` with the fields that are set later. -/
def formatIp (tol sum : BitVec 16) (src dst : BitVec 32) : BitVec 160 :=
  0x4#4 ++ 0x5#4 ++ 0x00#8 ++ tol ++ 0#16 ++ 0b010#3 ++ 0#13 ++ 0x3f#8 ++ 0x11#8 ++ sum ++ src ++ dst

/-- The word that goes out after `k` shifts. -/
def wordAt (x : BitVec 160) (k : Nat) : BitVec 16 := x.extractLsb' (144 - 16 * k) 16

def wordsOf (x : BitVec 160) : List (BitVec 16) := (List.range 10).map (wordAt x)

/-- One turn of the loop of `f_checksum`. -/
def checksumTurn (o : BitVec 17) (word : BitVec 16) : BitVec 17 :=
  let next := o + word.setWidth 17
  if next.getLsbD 16 then ((next + 1).setWidth 16).setWidth 17 else next

def fChecksum (words : List (BitVec 16)) : BitVec 16 := (words.foldl checksumTurn 0).setWidth 16

theorem formatIp_eq (tol sum : BitVec 16) (src dst : BitVec 32) : formatIp tol sum src dst =
    0x4500#16 ++ tol ++ 0#16 ++ 0x4000#16 ++ 0x3f11#16 ++ sum ++ src ++ dst := by
  have flags (x : BitVec 48) : x ++ 0b010#3 ++ 0#13 = x ++ 0x4000#16 := BitVec.append_assoc
  have protocol (x : BitVec 64) : x ++ 0x3f#8 ++ 0x11#8 = x ++ 0x3f11#16 := BitVec.append_assoc
  have version : 0x4#4 ++ 0x5#4 ++ 0x00#8 = 0x4500#16 := rfl
  rw [formatIp, version, flags, protocol]

theorem wordsOf_formatIp (tol sum : BitVec 16) (src dst : BitVec 32) : wordsOf (formatIp tol sum src dst) =
    [0x4500, tol, 0, 0x4000, 0x3f11, sum, src.extractLsb' 16 16, src.extractLsb' 0 16,
      dst.extractLsb' 16 16, dst.extractLsb' 0 16] := by
  rw [formatIp_eq]
  simp (disch := decide) only [wordsOf, wordAt, List.range, List.range.loop, List.map,
    BitVec.extractLsb'_append_eq_of_le,
    BitVec.extractLsb'_append_eq_of_add_le]
  simp

theorem wordAt_shift (x : BitVec 160) {k : Nat} (inside : k < 10) :
    (x <<< (16 * k)).extractLsb' 144 16 = wordAt x k := by
  apply BitVec.eq_of_getLsbD_eq
  intro i small
  rw [wordAt, BitVec.getLsbD_extractLsb', BitVec.getLsbD_extractLsb', BitVec.getLsbD_shiftLeft]
  have place : 144 + i - 16 * k = 144 - 16 * k + i := by omega
  have low : ¬144 + i < 16 * k := by omega
  simp only [small, low, place, decide_true, decide_false, Bool.not_false, Bool.true_and]
  rw [decide_eq_true (show 144 + i < 160 by omega), Bool.true_and, Bool.true_and]

def constSum : BitVec 16 := fChecksum (wordsOf (formatIp 0 0 0 0))

/-- A header whose ones'-complement sum is all ones. -/
def Valid (header : List (BitVec 16)) : Prop := OnesComplement.sum header = 0xffff

instance (header : List (BitVec 16)) : Decidable (Valid header) := inferInstanceAs (Decidable (_ = _))

theorem constSum_eq : constSum = 0xc411 := by
  decide +kernel

def addressWords (dst src : BitVec 32) : List (BitVec 16) :=
  [constSum, dst.extractLsb' 16 16, dst.extractLsb' 0 16, src.extractLsb' 16 16, src.extractLsb' 0 16]

theorem total_header (tol sum : BitVec 16) (src dst : BitVec 32) :
    total (wordsOf (formatIp tol sum src dst)) = total (addressWords dst src) + tol.toNat + sum.toNat := by
  rw [wordsOf_formatIp, addressWords, constSum_eq]
  simp only [total, List.map, List.sum_cons, List.sum_nil]
  show 0x4500 + _ = 0xc411 + _ + _ + _
  have zero : (0 : BitVec 16).toNat = 0 := rfl
  have flags : (0x4000 : BitVec 16).toNat = 0x4000 := rfl
  have protocol : (0x3f11 : BitVec 16).toNat = 0x3f11 := rfl
  omega

/-- A process `sum_header`, with states `σ`, and its adder. -/
structure Summer (σ : Type) where
  state : σ
  en : Bool
  data : BitVec 16
  adder : Adder

variable {σ : Type}

/-- Some words of a list are with the adder and the next one is on its input. -/
structure Feeding (s : Summer σ) (words : List (BitVec 16)) (fed : Nat) : Prop where
  en : s.en = true
  data : words[fed]? = some s.data
  adder : if fed = 0 then s.adder.addup = false else s.adder.Holds (words.take fed)

structure Fed (s : Summer σ) (words : List (BitVec 16)) : Prop where
  en : s.en = false
  adder : s.adder.Holds words ∨ s.adder.Shows words

variable {s s' : Summer σ} {fed : Nat}

theorem Feeding.taken (feeding : Feeding s words fed) (few : words.length ≤ 2 ^ 12) :
    (s.adder.clock s.en s.data).Holds (words.take (fed + 1)) := by
  obtain ⟨inside, here⟩ := List.getElem?_eq_some_iff.mp feeding.data
  have adder := feeding.adder
  rw [feeding.en, List.take_add_one, feeding.data]
  split_ifs at adder with first
  · rw [first, List.take_zero]
    exact Adder.first adder s.data
  · exact adder.more s.data (by rw [List.length_take]; omega)

theorem Feeding.next (feeding : Feeding s words fed) (few : words.length ≤ 2 ^ 12) (en : s'.en = true)
    (data : words[fed + 1]? = some s'.data) (adder : s'.adder = s.adder.clock s.en s.data) :
    Feeding s' words (fed + 1) := by
  refine ⟨en, data, ?_⟩
  rw [if_neg (Nat.succ_ne_zero fed), adder]
  exact feeding.taken few

theorem Feeding.last (feeding : Feeding s words fed) (few : words.length ≤ 2 ^ 12) (en : s'.en = false)
    (last : words.length = fed + 1) (adder : s'.adder = s.adder.clock s.en s.data) :
    Fed s' words ∧ s'.adder.Holds words := by
  have taken := feeding.taken few
  rw [← last, List.take_length, ← adder] at taken
  exact ⟨⟨en, .inl taken⟩, taken⟩

theorem Fed.next (fed : Fed s words) (en : s'.en = false) (adder : s'.adder = s.adder.clock s.en s.data) :
    Fed s' words ∧ s'.adder.Shows words := by
  rw [fed.en] at adder
  have shown : s'.adder.Shows words := by
    rw [adder]
    rcases fed.adder with holds | shown
    · exact (holds.fold s.data).1
    · exact shown.stays s.data
  exact ⟨⟨en, .inr shown⟩, shown⟩

/-- A clock of a process without new parameters. `fedOf` tells how many words the adder has in a
state; the process waits in the other states. -/
structure Follows (fedOf : σ → Option Nat) (words : List (BitVec 16)) (s s' : Summer σ) : Prop where
  adder : s'.adder = s.adder.clock s.en s.data
  next : ∀ k, fedOf s.state = some k → k + 1 < words.length → fedOf s'.state = some (k + 1) ∧
    s'.en = s.en ∧ words[k + 1]? = some s'.data
  last : ∀ k, fedOf s.state = some k → words.length = k + 1 → fedOf s'.state = none ∧ s'.en = false
  rests : fedOf s.state = none → fedOf s'.state = none ∧ s'.en = s.en

variable {fedOf : σ → Option Nat}

/-- In so many clocks the sum is on the output. -/
inductive Progress (fedOf : σ → Option Nat) (s : Summer σ) (words : List (BitVec 16)) (rest : Nat) : Prop where
  | feeding (fed : Nat) (state : fedOf s.state = some fed) (feeding : Feeding s words fed)
      (enough : words.length + 1 ≤ rest + fed)
  | adding (state : fedOf s.state = none) (fed : Fed s words) (enough : 1 ≤ rest)
  | shown (state : fedOf s.state = none) (en : s.en = false) (shown : s.adder.Shows words)

theorem Progress.mono {rest more : Nat} (progress : Progress fedOf s words rest) (later : rest ≤ more) :
    Progress fedOf s words more := by
  cases progress with
  | feeding fed state feeding enough => exact .feeding fed state feeding (by omega)
  | adding state fed enough => exact .adding state fed (by omega)
  | shown state en shown => exact .shown state en shown

theorem Progress.next {rest : Nat} (progress : Progress fedOf s words rest) (follows : Follows fedOf words s s')
    (few : words.length ≤ 2 ^ 12) : Progress fedOf s' words (rest - 1) := by
  cases progress with
  | feeding fed state feeding enough =>
    obtain ⟨inside, _⟩ := List.getElem?_eq_some_iff.mp feeding.data
    rcases Nat.lt_or_ge (fed + 1) words.length with more | carries
    · obtain ⟨state', en, data⟩ := follows.next fed state more
      exact .feeding (fed + 1) state' (feeding.next few (en.trans feeding.en) data follows.adder) (by omega)
    · obtain ⟨state', en⟩ := follows.last fed state (by omega)
      exact .adding state' (feeding.last few en (by omega) follows.adder).1 (by omega)
  | adding state fed enough =>
    obtain ⟨state', en⟩ := follows.rests state
    exact .shown state' (en.trans fed.en) (fed.next (en.trans fed.en) follows.adder).2
  | shown state en shown =>
    obtain ⟨state', same⟩ := follows.rests state
    refine .shown state' (same.trans en) ?_
    rw [follows.adder, en]
    exact shown.stays s.data

structure Waiting (fedOf : σ → Option Nat) (s : Summer σ) : Prop where
  state : fedOf s.state = none
  en : s.en = false
  idle : s.adder.addup = false

theorem Waiting.next (waiting : Waiting fedOf s) (follows : Follows fedOf words s s') : Waiting fedOf s' := by
  obtain ⟨state, en⟩ := follows.rests waiting.state
  refine ⟨state, en.trans waiting.en, ?_⟩
  rw [follows.adder, waiting.en, Adder.clock, waiting.idle]

theorem Waiting.start (waiting : Waiting fedOf s) (state : fedOf s'.state = some 0) (en : s'.en = true)
    (data : words[0]? = some s'.data)
    (adder : s'.adder = s.adder.clock s.en s.data) : Progress fedOf s' words (words.length + 1) := by
  refine .feeding 0 state ⟨en, data, ?_⟩ le_rfl
  rw [if_pos rfl, adder, waiting.en, Adder.clock, waiting.idle]

theorem Progress.waiting (progress : Progress fedOf s words 0) : Waiting fedOf s ∧ s.adder.Shows words := by
  cases progress with
  | feeding fed state feeding enough =>
    obtain ⟨inside, _⟩ := List.getElem?_eq_some_iff.mp feeding.data
    omega
  | adding state fed enough => exact absurd enough (by decide)
  | shown state en shown => exact ⟨⟨state, en, shown.idle⟩, shown⟩

def ipHeader (packet : List (BitVec 16)) : List (BitVec 16) := (packet.drop 7).take 10

theorem ipHeader_append {packet : List (BitVec 16)} (long : 17 ≤ packet.length) (more : List (BitVec 16)) :
    ipHeader (packet ++ more) = ipHeader packet := by
  rw [ipHeader, ipHeader, List.drop_append_of_le_length (by omega),
    List.take_append_of_le_length (by rw [List.length_drop]; omega)]

/-- Some words of the header are written, and the next one is on top of the shift register. -/
structure Heading (packet : List (BitVec 16)) (shift header : BitVec 160) (sent : Nat) : Prop where
  length : packet.length = 7 + sent
  words : packet.drop 7 = (wordsOf header).take sent
  shift : shift = header <<< (16 * sent)

variable {packet : List (BitVec 16)} {shift header : BitVec 160} {sent : Nat}

theorem heading_start (length : packet.length = 7) (header : BitVec 160) : Heading packet header header 0 :=
  ⟨length, by rw [List.drop_of_length_le length.le]; rfl, (BitVec.shiftLeft_zero header).symm⟩

theorem Heading.push (heading : Heading packet shift header sent) (inside : sent < 10) :
    Heading (packet ++ [shift.extractLsb' 144 16]) (shift <<< 16) header (sent + 1) := by
  refine ⟨?_, ?_, ?_⟩
  · rw [List.length_append, List.length_singleton, heading.length, Nat.add_assoc]
  · have here : (wordsOf header)[sent]? = some (wordAt header sent) := by
      rw [wordsOf, List.getElem?_map, List.getElem?_range inside]
      rfl
    rw [List.drop_append_of_le_length (by rw [heading.length]; omega), heading.words, heading.shift,
      wordAt_shift header inside,
      List.take_add_one, here]
    rfl
  · rw [heading.shift, ← BitVec.shiftLeft_add, Nat.mul_succ]

theorem Heading.whole (heading : Heading packet shift header 10) : ipHeader packet = wordsOf header := by
  have all : (wordsOf header).length = 10 := by rw [wordsOf, List.length_map, List.length_range]
  rw [ipHeader, heading.words, List.take_take, List.take_of_length_le (by omega)]

/-- A packet with the whole of a good IP header. -/
structure Carries (good : BitVec 160 → Prop) (packet : List (BitVec 16)) : Prop where
  long : 17 ≤ packet.length
  header : ∃ header, good header ∧ ipHeader packet = wordsOf header

variable {good : BitVec 160 → Prop}

theorem Carries.append (carries : Carries good packet) (more : List (BitVec 16)) : Carries good (packet ++ more) := by
  refine ⟨?_, ?_⟩
  · rw [List.length_append]
    exact Nat.le_add_right_of_le carries.long
  · rw [ipHeader_append carries.long]
    exact carries.header

theorem Heading.carries (heading : Heading packet shift header 10) (valid : good header) : Carries good packet :=
  ⟨heading.length.ge, header, valid, heading.whole⟩

theorem count_pred {count : BitVec 5} (positive : 1 ≤ count.toNat) (other : count ≠ 1) :
    1 ≤ (count - 1).toNat ∧ (count - 1).toNat + 1 = count.toNat := by
  have apart : count.toNat ≠ 1 := fun same => other (BitVec.eq_of_toNat_eq same)
  rw [BitVec.toNat_sub_of_le (by rw [BitVec.le_def]; exact positive)]
  exact ⟨by change 1 ≤ count.toNat - 1; omega, Nat.sub_add_cancel positive⟩

end BelProject.SlaveCore.Checksum
