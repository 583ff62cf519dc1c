import BelProject.Library.Runs
import Mathlib.Data.List.GetD
import Mathlib.Tactic.SplitIfs
import Mathlib.Algebra.Group.Nat.Defs

/-! `eb_eth_rx`: the receiver of the requests. It counts its way through the Ethernet, IP and UDP
headers of a frame and passes the payload on. The counter is loaded with the number of words to
wait for, less one: for a payload of two words, all of which are through by then, it wraps. -/

namespace BelProject.SlaveCore.EthRx

/-- `t_state`. -/
inductive State where
  | drop | wait | ethernet | ip | udp | stb
  deriving DecidableEq, Repr

/-- `snk_i`, the stalls of `master_i` and of the transmitter. Words that are not at `c_WRF_DATA`
carry the status of the frame. -/
structure Inputs where
  cyc : Bool
  stb : Bool
  isData : Bool
  dat : BitVec 16
  masterStall : Bool
  stall : Bool

/-- The width of `t_index` is that of the generic `g_mtu`. -/
structure Registers (width : Nat) where
  state : State
  stateNext : State
  count : BitVec width
  ack : Bool
  pass : Bool
  shift : BitVec 160
  stb : Bool
  mac : BitVec 48
  ip : BitVec 32
  port : BitVec 16
  length : BitVec 16

def ethLen : Nat := 14

def ipLen : Nat := 20

def udpLen : Nat := 8

def fStep (width x : Nat) : BitVec width := BitVec.ofInt width ((x / 2 : Nat) - 1)

def reset (width : Nat) : Registers width :=
  { state := .wait, stateNext := .ethernet, count := fStep width ethLen, ack := false, pass := false,
    shift := 0, stb := false
    mac := 0, ip := 0, port := 0, length := 0 }

section
variable {width : Nat} (mtu : Nat) (r : Registers width) (i : Inputs)

/-- `snk_o.stall`. -/
def sinkStall : Bool := if r.state = .udp then r.stb else r.pass && i.masterStall

/-- `master_o.stb`. -/
def masterStb : Bool := if i.isData then r.pass && i.stb else false

def sShift : BitVec 160 := r.shift.extractLsb' 0 144 ++ i.dat

/-- `s_optlen`. -/
def optLen : BitVec 4 := (sShift r i).extractLsb' 152 4 - 5

def taken : Bool := i.cyc && i.stb && !sinkStall r i && i.isData

def forwarded : Bool := i.cyc && masterStb r i && !i.masterStall

/-- What is assigned before the case on the state, with the acknowledgement and the strobe of the
header that are not part of it. -/
def defaults : Registers width :=
  { r with ack := i.cyc && i.stb && !sinkStall r i, stb := r.stb && i.stall }

def word : Registers width :=
  let d := { defaults r i with state := .wait, stateNext := .drop, count := r.count - 1, shift := sShift r i }
  match r.state with
  | .drop => { d with state := .drop, pass := false }
  | .wait => { d with stateNext := r.stateNext, state := if r.count = 1 then r.stateNext else .wait }
  | .ethernet =>
    let e := { d with mac := (sShift r i).extractLsb' 16 48, count := fStep width ipLen }
    if (sShift r i).extractLsb' 0 16 = 0x0800 then { e with stateNext := .ip } else { e with state := .drop }
  | .ip =>
    let e := { d with ip := (sShift r i).extractLsb' 32 32, count := fStep width ((optLen r i).toNat * 4 + udpLen) }
    if (sShift r i).extractLsb' 156 4 = 0x4#4 ∧ 5 ≤ ((sShift r i).extractLsb' 152 4).toNat ∧
      (sShift r i).extractLsb' 80 8 = 0x11#8 then
      { e with stateNext := .udp }
    else { e with state := .drop }
  | .udp =>
    let len := (sShift r i).extractLsb' 16 16
    let e := { d with port := (sShift r i).extractLsb' 48 16, length := len, count := fStep width 4 }
    if 12 ≤ len.toNat ∧ len.toNat ≤ mtu - ipLen ∧ len.extractLsb' 0 2 =
      0#2 then { e with pass := true, stateNext := .stb }
    else { e with state := .drop }
  | .stb => { d with stb := true, count := fStep width (r.length.toNat - udpLen - 4), stateNext := .drop }

def clock : Registers width :=
  if i.cyc = false then { defaults r i with pass := false, state := .wait, stateNext := .ethernet, count := fStep width ethLen }
  else if taken r i then word mtu r i
  else defaults r i

end

/-- The registers, the words taken since `cyc` was low, and those passed on. -/
structure World (width : Nat) where
  regs : Registers width
  frame : List (BitVec 16)
  sent : List (BitVec 16)

def start (width : Nat) : World width := ⟨reset width, [], []⟩

def World.clock {width : Nat} (mtu : Nat) (w : World width) (i : Inputs) : World width :=
  { regs := EthRx.clock mtu w.regs i
    frame := if i.cyc = false then [] else if taken w.regs i then w.frame ++ [i.dat] else w.frame
    sent := if i.cyc = false then [] else if forwarded w.regs i then w.sent ++ [i.dat] else w.sent }

def ihl (words : List (BitVec 16)) : Nat := ((words.getD 7 0).extractLsb' 8 4).toNat

def headerWords (words : List (BitVec 16)) : Nat := 21 + 2 * (ihl words - 5)

def udpLength (words : List (BitVec 16)) : BitVec 16 := words.getD (headerWords words - 2) 0

def payloadWords (words : List (BitVec 16)) : Nat := ((udpLength words).toNat - udpLen) / 2

def payload (words : List (BitVec 16)) : List (BitVec 16) := (words.drop (headerWords words)).take (payloadWords words)

/-- What Ethernet adds to a short frame. -/
def padding (words : List (BitVec 16)) : List (BitVec 16) := words.drop (headerWords words + payloadWords words)

/-- A whole frame with a packet for UDP over IPv4 that is not longer than the receiver permits. -/
structure Accepted (mtu : Nat) (words : List (BitVec 16)) : Prop where
  typ : words.getD 6 0 = 0x0800
  version : (words.getD 7 0).extractLsb' 12 4 = 0x4#4
  ihl : 5 ≤ ihl words
  protocol : (words.getD 11 0).extractLsb' 0 8 = 0x11#8
  enough : 12 ≤ (udpLength words).toNat
  inside : (udpLength words).toNat ≤ mtu - ipLen
  aligned : (udpLength words).extractLsb' 0 2 = 0#2
  whole : headerWords words + payloadWords words ≤ words.length

instance (mtu : Nat) (words : List (BitVec 16)) : Decidable (Accepted mtu words) :=
  decidable_of_iff (_ ∧ _ ∧ _ ∧ _ ∧ _ ∧ _ ∧ _ ∧ _)
    ⟨fun ⟨typ, version, ihl, protocol, enough, inside, aligned, whole⟩ =>
      ⟨typ, version, ihl, protocol, enough, inside, aligned, whole⟩,
    fun ⟨typ, version, ihl, protocol, enough, inside, aligned, whole⟩ =>
      ⟨typ, version, ihl, protocol, enough, inside, aligned, whole⟩⟩

/-- The register has the words that came last, the last of them below. -/
def Shifted (frame : List (BitVec 16)) (shift : BitVec 160) : Prop :=
  ∀ j < 10, j < frame.length → shift.extractLsb' (16 * j) 16 = frame.getD (frame.length - 1 - j) 0

variable {width mtu : Nat} {r : Registers width} {i : Inputs} {frame words : List (BitVec 16)}

theorem Shifted.word (shifted : Shifted frame r.shift) : Shifted (frame ++ [i.dat]) (sShift r i) := by
  intro j small inside
  rw [List.length_append, List.length_singleton] at inside ⊢
  cases j with
  | zero =>
    have last : frame.length + 1 - 1 - 0 = frame.length := by omega
    rw [last, List.getD_append_right _ _ _ _ (Nat.le_refl _), Nat.sub_self, sShift,
      BitVec.extractLsb'_append_eq_of_add_le (by omega),
      Nat.mul_zero, BitVec.extractLsb'_eq_self]
    rfl
  | succ j =>
    have before : frame.length + 1 - 1 - (j + 1) = frame.length - 1 - j := by omega
    have place : 16 * (j + 1) - 16 = 16 * j := by omega
    rw [before, List.getD_append _ _ _ _ (by omega), ← shifted j (by omega) (by omega), sShift,
      BitVec.extractLsb'_append_eq_of_le (by omega), place, BitVec.extractLsb'_extractLsb'_of_le (by omega)]

theorem extract_word (x : BitVec 160) {j low len : Nat} (inside : low + len ≤ 16) :
    x.extractLsb' (16 * j + low) len = (x.extractLsb' (16 * j) 16).extractLsb' low len := by
  apply BitVec.eq_of_getLsbD_eq
  intro k small
  have below : low + k < 16 := by omega
  rw [BitVec.getLsbD_extractLsb', BitVec.getLsbD_extractLsb', BitVec.getLsbD_extractLsb',
    decide_eq_true below, Bool.true_and,
    Nat.add_assoc]

theorem getD_of_prefix (begins : frame <+: words) {k : Nat} (inside : k < frame.length) :
    frame.getD k 0 = words.getD k 0 := by
  obtain ⟨rest, rfl⟩ := begins
  rw [List.getD_append _ _ _ _ inside]

theorem Shifted.field (shifted : Shifted frame r.shift) (begins : frame ++ [i.dat] <+: words)
    (j low len : Nat) (small : j < 10)
    (there : j ≤ frame.length) (inside : low + len ≤ 16) :
    (sShift r i).extractLsb' (16 * j + low) len = (words.getD (frame.length - j) 0).extractLsb' low len := by
  have length : (frame ++ [i.dat]).length = frame.length + 1 := List.length_append
  rw [extract_word _ inside, shifted.word j small (by omega), length, getD_of_prefix begins (by omega),
    Nat.add_sub_cancel]

/-- The words that are passed on: two up to the strobe of the header, and those counted then. -/
def passedWords (width : Nat) (words : List (BitVec 16)) :
    Nat := 2 + (fStep width ((udpLength words).toNat - udpLen - 4)).toNat + 1

/-- The state for which the receiver is on its way, and how many words it still waits for. -/
def target (width : Nat) (words : List (BitVec 16)) (n : Nat) : State × Nat :=
  if n ≤ 6 then (.ethernet, 6 - n)
  else if n ≤ 16 then (.ip, 16 - n)
  else if n < headerWords words then (.udp, headerWords words - 1 - n)
  else if n ≤ headerWords words + 1 then (.stb, headerWords words + 1 - n)
  else (.drop, headerWords words + passedWords width words - 1 - n)

def Ready (state : State) (left : Nat) (r : Registers width) : Prop :=
  (left = 0 ∧ r.state = state) ∨ (0 < left ∧ r.state = .wait ∧ r.stateNext = state ∧ r.count.toNat = left)

structure Stage (words : List (BitVec 16)) (n : Nat) (r : Registers width) : Prop where
  pass : r.pass = decide (headerWords words ≤ n ∧ n < headerWords words + passedWords width words)
  ready : Ready (target width words n).1 (target width words n).2 r
  length : headerWords words ≤ n → r.length = udpLength words

theorem fStep_toNat {x : Nat} (positive : 2 ≤ x) (small : x / 2 ≤ 2 ^ width) : (fStep width x).toNat = x / 2 - 1 := by
  have less : ((x / 2 : Nat) : Int) - 1 = ((x / 2 - 1 : Nat) : Int) := by omega
  rw [fStep, less, BitVec.ofInt_natCast, BitVec.toNat_ofNat, Nat.mod_eq_of_lt (by omega)]

theorem fStep_zero : (fStep width 0).toNat = 2 ^ width - 1 := by
  have all : BitVec.ofInt width (((0 / 2 : Nat) : Int) - 1) = BitVec.allOnes width := by
    change BitVec.ofInt width (-(1 : Nat)) = _
    rw [BitVec.ofInt_neg, BitVec.ofInt_natCast, ← BitVec.neg_one_eq_allOnes]
  rw [fStep, all, BitVec.toNat_allOnes]

theorem Accepted.roomy (accepted : Accepted mtu words) (wide : mtu ≤ 2 ^ width) : 32 ≤ 2 ^ width := by
  have enough := accepted.enough
  have inside := accepted.inside
  unfold ipLen at inside
  omega

theorem passedWords_eq (accepted : Accepted mtu words) (wide : mtu ≤ 2 ^ width) : passedWords width words =
    if udpLength words = 12 then 2 + 2 ^ width else payloadWords words := by
  have roomy := accepted.roomy wide
  have enough := accepted.enough
  have inside := accepted.inside
  have aligned := congrArg BitVec.toNat accepted.aligned
  rw [BitVec.extractLsb'_toNat, Nat.shiftRight_zero] at aligned
  unfold ipLen at inside
  split_ifs with least
  · have none : (udpLength words).toNat - udpLen - 4 = 0 := by rw [least]; rfl
    rw [passedWords, none, fStep_zero]
    omega
  · have more : 12 ≠ (udpLength words).toNat := fun same => least (BitVec.eq_of_toNat_eq same.symm)
    have steps : (udpLength words).toNat - udpLen - 4 = (udpLength words).toNat - 12 := by unfold udpLen; omega
    change (udpLength words).toNat % 4 = 0 at aligned
    rw [passedWords, steps, fStep_toNat (by omega) (by omega), payloadWords, udpLen]
    omega

theorem Accepted.counts (accepted : Accepted mtu words) (wide : mtu ≤ 2 ^ width) :
    0 < (fStep width ((udpLength words).toNat - udpLen - 4)).toNat := by
  have roomy := accepted.roomy wide
  have enough := accepted.enough
  have aligned := congrArg BitVec.toNat accepted.aligned
  rw [BitVec.extractLsb'_toNat, Nat.shiftRight_zero] at aligned
  change (udpLength words).toNat % 4 = 0 at aligned
  have passed := passedWords_eq accepted wide
  unfold passedWords payloadWords udpLen at passed
  split_ifs at passed with least
  · unfold udpLen
    omega
  · have more : 12 ≠ (udpLength words).toNat := fun same => least (BitVec.eq_of_toNat_eq same.symm)
    unfold udpLen
    omega

theorem ihl_lt (words : List (BitVec 16)) : ihl words < 16 := ((words.getD 7 0).extractLsb' 8 4).isLt

theorem target_succ {n : Nat} (left : 0 < (target width words n).2) :
    target width words (n + 1) = ((target width words n).1, (target width words n).2 - 1) := by
  have head : 21 ≤ headerWords words := Nat.le_add_right 21 _
  have two : 2 < passedWords width words := Nat.lt_succ_of_le (Nat.le_add_right 2 _)
  unfold target at left ⊢
  split_ifs at left ⊢ <;> first | omega | exact Prod.ext rfl (by change _ - _ = _ - _ - 1; omega)

theorem target_zero {n : Nat} (here : (target width words n).2 = 0) :
    match (target width words n).1 with
    | .ethernet => n = 6
    | .ip => n = 16
    | .udp => n + 1 = headerWords words ∧ 17 ≤ n
    | .stb => n = headerWords words + 1
    | .drop => headerWords words + passedWords width words ≤ n + 1 ∧ headerWords words + 1 < n
    | .wait => False := by
  have head : 21 ≤ headerWords words := Nat.le_add_right 21 _
  unfold target at here ⊢
  split_ifs at here ⊢ with h1 h2 h3 h4 <;> simp only at here ⊢ <;> omega

section
variable (accepted : Accepted mtu words) (wide : mtu ≤ 2 ^ width) (stage : Stage words frame.length r)
include accepted wide stage

theorem Stage.waits (left : 0 < (target width words frame.length).2) :
    Stage words (frame.length + 1) (word mtu r i) := by
  have roomy := accepted.roomy wide
  have head : 21 ≤ headerWords words := Nat.le_add_right 21 _
  obtain ⟨none, -⟩ | ⟨-, waits, next, counted⟩ := stage.ready
  · omega
  have two : 2 < passedWords width words := Nat.lt_succ_of_le (Nat.le_add_right 2 _)
  have one : (1 : BitVec width).toNat = 1 := (BitVec.toNat_ofNat 1 width).trans (Nat.mod_eq_of_lt (by omega))
  have unwaited : headerWords words ≠ frame.length + 1 ∧ headerWords words + passedWords width words ≠
    frame.length + 1 := by
    unfold target at left
    split_ifs at left <;> omega
  refine ⟨?_, ?_, fun behind => ?_⟩
  · rw [word, waits]
    change r.pass = _
    rw [stage.pass]
    apply decide_eq_decide.mpr
    omega
  · rw [target_succ left, word, waits]
    by_cases last : r.count = 1
    · have done : (target width words frame.length).2 - 1 = 0 := by rw [← counted, last, one]
      exact .inl ⟨done, (if_pos last).trans next⟩
    · have more : r.count.toNat ≠ 1 := fun same => last (BitVec.eq_of_toNat_eq (same.trans one.symm))
      refine .inr ⟨by change 0 < _ - 1; omega, if_neg last, next, ?_⟩
      change (r.count - 1).toNat = _ - 1
      rw [BitVec.toNat_sub_of_le (by rw [BitVec.le_def]; omega), one, counted]
  · rw [word, waits]
    exact stage.length (by omega)

variable (shifted : Shifted frame r.shift) (begins : frame ++ [i.dat] <+: words)
include shifted begins

theorem Stage.ethernet (state : r.state = .ethernet) (here : frame.length = 6) :
    Stage words (frame.length + 1) (word mtu r i) := by
  have roomy := accepted.roomy wide
  have head : 21 ≤ headerWords words := Nat.le_add_right 21 _
  have typ : (sShift r i).extractLsb' 0 16 = 0x0800 := by
    have field := shifted.field begins 0 0 16 (by omega) (by omega) (by omega)
    rw [here] at field
    exact field.trans (BitVec.extractLsb'_eq_self.trans accepted.typ)
  have next : word mtu r i = { defaults r i with
      state := .wait, stateNext := .ip, count := fStep width ipLen, shift := sShift r i, mac :=
        (sShift r i).extractLsb' 16 48 } := by
    rw [word, state]
    exact if_pos typ
  have low : r.pass = false := stage.pass.trans (decide_eq_false (by omega))
  rw [next, here]
  refine ⟨low.trans (decide_eq_false (by omega)).symm, .inr ⟨by change 0 < 9; decide, rfl, rfl, ?_⟩,
    fun behind => by omega⟩
  exact fStep_toNat (by decide) (by change 10 ≤ _; omega)

theorem Stage.ip (state : r.state = .ip) (here : frame.length = 16) :
    Stage words (frame.length + 1) (word mtu r i) := by
  have roomy := accepted.roomy wide
  have head : 21 ≤ headerWords words := Nat.le_add_right 21 _
  have version : (sShift r i).extractLsb' 156 4 = 0x4#4 := by
    have field := shifted.field begins 9 12 4 (by omega) (by omega) (by omega)
    rw [here] at field
    exact field.trans accepted.version
  have lengthField : ((sShift r i).extractLsb' 152 4).toNat = ihl words := by
    have field := shifted.field begins 9 8 4 (by omega) (by omega) (by omega)
    rw [here] at field
    exact congrArg BitVec.toNat field
  have protocol : (sShift r i).extractLsb' 80 8 = 0x11#8 := by
    have field := shifted.field begins 5 0 8 (by omega) (by omega) (by omega)
    rw [here] at field
    exact field.trans accepted.protocol
  have next : word mtu r i = { defaults r i with
      state := .wait, stateNext := .udp, count := fStep width ((optLen r i).toNat * 4 + udpLen), shift := sShift r i
      ip := (sShift r i).extractLsb' 32 32 } := by
    rw [word, state]
    exact if_pos ⟨version, lengthField ▸ accepted.ihl, protocol⟩
  have options : (optLen r i).toNat = ihl words - 5 := by
    have five : (5 : BitVec 4) ≤ (sShift r i).extractLsb' 152 4 := by
      rw [BitVec.le_def, lengthField]
      exact accepted.ihl
    rw [optLen, BitVec.toNat_sub_of_le five, lengthField]
    rfl
  have few := ihl_lt words
  have low : r.pass = false := stage.pass.trans (decide_eq_false (by omega))
  have ahead : target width words 17 = (.udp, headerWords words - 18) := by
    rw [target, if_neg (by omega), if_neg (by omega), if_pos (by omega)]
    exact Prod.ext rfl (by omega)
  rw [next, here]
  refine ⟨low.trans (decide_eq_false (by omega)).symm, ?_, fun behind => by omega⟩
  rw [ahead]
  refine .inr ⟨by change 0 < _ - _; omega, rfl, rfl, ?_⟩
  change (fStep width _).toNat = headerWords words - 18
  rw [options, fStep_toNat (by unfold udpLen; omega) (by unfold udpLen; omega), headerWords, udpLen]
  omega

omit stage in
theorem Stage.udp (state : r.state = .udp) (here : frame.length + 1 = headerWords words) :
    Stage words (frame.length + 1) (word mtu r i) := by
  have roomy := accepted.roomy wide
  have head : 21 ≤ headerWords words := Nat.le_add_right 21 _
  have two : 2 < passedWords width words := Nat.lt_succ_of_le (Nat.le_add_right 2 _)
  have len : (sShift r i).extractLsb' 16 16 = udpLength words := by
    have field := shifted.field begins 1 0 16 (by omega) (by omega) (by omega)
    have place : frame.length - 1 = headerWords words - 2 := by omega
    rw [place] at field
    exact field.trans BitVec.extractLsb'_eq_self
  have next : word mtu r i = { defaults r i with
      state := .wait, stateNext := .stb, count := fStep width 4, pass := true, shift := sShift r i
      port := (sShift r i).extractLsb' 48 16, length := udpLength words } := by
    rw [word, state, len]
    exact if_pos ⟨accepted.enough, accepted.inside, accepted.aligned⟩
  have ahead : target width words (headerWords words) = (.stb, 1) := by
    rw [target, if_neg (by omega), if_neg (by omega), if_neg (by omega), if_pos (by omega)]
    exact Prod.ext rfl (by omega)
  rw [next, here]
  refine ⟨(decide_eq_true (by omega)).symm, ?_, fun _ => rfl⟩
  rw [ahead]
  refine .inr ⟨by decide, rfl, rfl, ?_⟩
  exact fStep_toNat (by decide) (by change 2 ≤ _; omega)

omit shifted begins in
theorem Stage.stb (state : r.state = .stb) (here : frame.length = headerWords words + 1) :
    Stage words (frame.length + 1) (word mtu r i) := by
  have head : 21 ≤ headerWords words := Nat.le_add_right 21 _
  have two : 2 < passedWords width words := Nat.lt_succ_of_le (Nat.le_add_right 2 _)
  have length := stage.length (by omega)
  have next : word mtu r i = { defaults r i with
      state := .wait, stateNext := .drop, count := fStep width (r.length.toNat - udpLen - 4), shift :=
        sShift r i, stb := true } := by
    rw [word, state]
  have ahead : target width words (headerWords words + 2) = (.drop, (fStep width (r.length.toNat - udpLen - 4)).toNat) := by
    rw [target, if_neg (by omega), if_neg (by omega), if_neg (by omega), if_neg (by omega), passedWords, length]
    exact Prod.ext rfl (by omega)
  rw [next, here]
  refine ⟨(stage.pass.trans (decide_eq_true (by omega))).trans (decide_eq_true (by omega)).symm, ?_, fun _ => length⟩
  rw [ahead]
  refine .inr ⟨?_, rfl, rfl, rfl⟩
  rw [length]
  exact accepted.counts wide

omit accepted wide shifted begins in
theorem Stage.drop (state : r.state = .drop) (here : headerWords words + passedWords width words ≤ frame.length + 1)
    (behind : headerWords words + 1 < frame.length) : Stage words (frame.length + 1) (word mtu r i) := by
  have head : 21 ≤ headerWords words := Nat.le_add_right 21 _
  have next : word mtu r i = { defaults r i with
      state := .drop, stateNext := .drop, count := r.count - 1, shift := sShift r i, pass := false } := by
    rw [word, state]
  have ahead : target width words (frame.length + 1) = (.drop, 0) := by
    rw [target, if_neg (by omega), if_neg (by omega), if_neg (by omega), if_neg (by omega)]
    exact Prod.ext rfl (by omega)
  rw [next]
  refine ⟨(decide_eq_false (by omega)).symm, ?_, fun _ => stage.length (by omega)⟩
  rw [ahead]
  exact .inl ⟨rfl, rfl⟩

theorem Stage.word : Stage words (frame.length + 1) (word mtu r i) := by
  rcases Nat.eq_zero_or_pos (target width words frame.length).2 with here | left
  · have state : r.state = (target width words frame.length).1 := by
      obtain ⟨-, state⟩ | ⟨positive, -⟩ := stage.ready
      · exact state
      · omega
    have place := target_zero here
    cases aim : (target width words frame.length).1 <;> rw [aim] at state place
    case ethernet => exact stage.ethernet accepted wide shifted begins state place
    case ip => exact stage.ip accepted wide shifted begins state place
    case udp => exact Stage.udp accepted wide shifted begins state place.1
    case stb => exact stage.stb accepted wide state place
    case drop => exact stage.drop state place.1 place.2
    case wait => exact place.elim
  · exact stage.waits accepted wide left

end

/-- On the first words of a frame the receiver is where it should be, and passed on what it should. -/
structure Following (words : List (BitVec 16)) (w : World width) : Prop where
  shifted : Shifted w.frame w.regs.shift
  stage : w.frame <+: words → Stage words w.frame.length w.regs
  sent : w.frame <+: words → w.sent = (w.frame.drop (headerWords words)).take (passedWords width words)

theorem Stage.closed {n : Nat} (stage : Stage words n r) (state : r.state = .udp) : r.pass = false := by
  obtain ⟨here, aim⟩ | ⟨-, waits, -⟩ := stage.ready
  · have place := target_zero here
    rw [← aim, state] at place
    rw [stage.pass]
    exact decide_eq_false fun inside => by omega
  · rw [state] at waits
    cases waits

theorem forwarded_eq (closed : r.state = .udp → r.pass = false) : forwarded r i = (taken r i && r.pass) := by
  rw [forwarded, taken, masterStb, sinkStall]
  by_cases state : r.state = .udp
  · rw [closed state]
    cases i.isData <;> simp
  · rw [if_neg state]
    cases i.isData <;> cases i.cyc <;> cases i.stb <;> cases r.pass <;> cases i.masterStall <;> rfl

theorem take_drop_concat (frame : List (BitVec 16)) (dat : BitVec 16) (first count : Nat) :
    ((frame ++ [dat]).drop first).take count =
      (frame.drop first).take count ++ if first ≤ frame.length ∧ frame.length < first + count then [dat] else [] := by
  rw [List.drop_append, List.take_append, List.length_drop]
  by_cases reached : first ≤ frame.length
  · have none : first - frame.length = 0 := by omega
    rw [none, List.drop_zero]
    by_cases inside : frame.length < first + count
    · rw [if_pos ⟨reached, inside⟩, List.take_of_length_le (l := [dat]) (by rw [List.length_singleton]; omega)]
    · have none : count - (frame.length - first) = 0 := by omega
      rw [if_neg fun both => inside both.2, none, List.take_zero]
  · rw [if_neg fun both => reached both.1, List.drop_of_length_le (l := [dat])
      (by rw [List.length_singleton]; omega), List.take_nil]

section
variable {w : World width} (accepted : Accepted mtu words) (wide : mtu ≤ 2 ^ width) (following : Following words w)
include accepted wide

theorem Stage.begin {stb ack : Bool} : Stage words 0
    { r with ack := ack, stb := stb, pass := false, state := .wait, stateNext := .ethernet, count := fStep width ethLen } := by
  have roomy := accepted.roomy wide
  have head : 21 ≤ headerWords words := Nat.le_add_right 21 _
  refine ⟨(decide_eq_false (by omega)).symm, .inr ⟨by change 0 < 6; decide, rfl, rfl, ?_⟩, fun behind => by omega⟩
  exact fStep_toNat (by decide) (by change 7 ≤ _; omega)

theorem following_start : Following words (start width) :=
  ⟨fun j _ inside => absurd inside (Nat.not_lt_zero j), fun _ => Stage.begin (r := reset width) accepted wide,
    fun _ => by rw [start, List.drop_nil, List.take_nil]⟩

include following

theorem Following.clock (i : Inputs) : Following words (w.clock mtu i) := by
  cases cycle : i.cyc with
  | false =>
    have regs : EthRx.clock mtu w.regs i = { defaults w.regs i with
        pass := false, state := .wait, stateNext := .ethernet, count := fStep width ethLen } := if_pos cycle
    rw [World.clock, if_pos cycle, if_pos cycle, regs]
    refine ⟨fun j _ inside => absurd inside (Nat.not_lt_zero j), fun _ => Stage.begin accepted wide, fun _ => ?_⟩
    change [] = (List.drop _ []).take _
    rw [List.drop_nil, List.take_nil]
  | true =>
    have low : ¬i.cyc = false := by rw [cycle]; exact Bool.noConfusion
    cases takes : taken w.regs i with
    | false =>
      have regs : EthRx.clock mtu w.regs i = defaults w.regs i := by
        rw [EthRx.clock, if_neg low, takes]
        rfl
      rw [World.clock, if_neg low, if_neg low, takes, regs]
      refine ⟨following.shifted, fun begins => ?_, fun begins => ?_⟩
      · have stage := following.stage begins
        exact ⟨stage.pass, stage.ready, stage.length⟩
      · have still : forwarded w.regs i = false := by
          rw [forwarded_eq (following.stage begins).closed, takes, Bool.false_and]
        change (if forwarded w.regs i then w.sent ++ [i.dat] else w.sent) = _
        rw [still]
        exact following.sent begins
    | true =>
      have regs : EthRx.clock mtu w.regs i = word mtu w.regs i := by
        rw [EthRx.clock, if_neg low, takes, if_pos rfl]
      have shift : (word mtu w.regs i).shift = sShift w.regs i := by
        unfold word
        cases w.regs.state <;> simp only <;> split_ifs <;> rfl
      have before (begins : w.frame ++ [i.dat] <+: words) : w.frame <+: words := (List.prefix_append _ _).trans begins
      rw [World.clock, if_neg low, if_neg low, takes, if_pos rfl, regs]
      refine ⟨?_, fun begins => ?_, fun begins => ?_⟩
      · change Shifted (w.frame ++ [i.dat]) (word mtu w.regs i).shift
        rw [shift]
        exact following.shifted.word
      · have after := (following.stage (before begins)).word accepted wide following.shifted begins
        change Stage words (w.frame ++ [i.dat]).length _
        rwa [List.length_append]
      · have stage := following.stage (before begins)
        have passes : forwarded w.regs i = w.regs.pass := by
          rw [forwarded_eq stage.closed, takes, Bool.true_and]
        change (if forwarded w.regs i then w.sent ++ [i.dat] else w.sent) = ((w.frame ++ [i.dat]).drop _).take _
        rw [passes, stage.pass, take_drop_concat, ← following.sent (before begins)]
        by_cases inside : headerWords words ≤ w.frame.length ∧
          w.frame.length < headerWords words + passedWords width words
        · rw [decide_eq_true inside, if_pos rfl, if_pos inside]
        · rw [decide_eq_false inside, if_neg Bool.false_ne_true, if_neg inside, List.append_nil]

end

theorem following_run (accepted : Accepted mtu words) (wide : mtu ≤ 2 ^ width) (inputs : List Inputs) :
    Following words (inputs.foldl (World.clock mtu) (start width)) := by
  suffices ∀ w : World width, Following words w → Following words (inputs.foldl (World.clock mtu) w) from
    this _ (following_start accepted wide)
  induction inputs with
  | nil => exact fun w following => following
  | cons i inputs ih => exact fun w following => ih _ (following.clock accepted wide i)

/-- The payload of a frame that came in whole is passed on, neither more nor less, but where the
counter wraps: then what Ethernet adds to the frame goes on as well. -/
theorem payload_iff (wide : mtu ≤ 2 ^ width) (inputs : List Inputs)
    (accepted : Accepted mtu (inputs.foldl (World.clock mtu) (start width)).frame) :
    (inputs.foldl (World.clock mtu) (start width)).sent = payload (inputs.foldl (World.clock mtu) (start width)).frame ↔
      udpLength (inputs.foldl (World.clock mtu) (start width)).frame ≠ 12 ∨
        padding (inputs.foldl (World.clock mtu) (start width)).frame = [] := by
  rw [(following_run accepted wide inputs).sent (List.prefix_refl _), passedWords_eq accepted wide, payload, padding]
  generalize (inputs.foldl (World.clock mtu) (start width)).frame = words at accepted ⊢
  split_ifs with least
  · have two : payloadWords words = 2 := by rw [payloadWords, least]; rfl
    have roomy := accepted.roomy wide
    rw [two]
    refine ⟨fun same => .inr ?_, fun short => ?_⟩
    · have counts := congrArg List.length same
      rw [List.length_take, List.length_take, List.length_drop] at counts
      exact List.drop_of_length_le (by omega)
    · have ends := List.drop_eq_nil_iff.mp (short.resolve_left (not_not_intro least))
      have few : (words.drop (headerWords words)).length ≤ 2 := by
        rw [List.length_drop]
        omega
      rw [List.take_of_length_le (by omega), List.take_of_length_le few]
  · exact ⟨fun _ => .inl least, fun _ => rfl⟩

def shortFrame (length : BitVec 16) : List Inputs :=
  ([0, 0, 0, 0, 0, 0, 0x0800, 0x4500, 0, 0, 0, 0x4011, 0, 0, 0, 0, 0, 0xebd0, 0xebd0, length, 0, 0x4e6f,
    0x11ff] ++ List.replicate 7 0).map
    fun dat => ⟨true, true, true, dat, false, false⟩

theorem payload_iff_sixteen :
    (((shortFrame 16).foldl (World.clock 1500) (start 11)).sent =
        payload ((shortFrame 16).foldl (World.clock 1500) (start 11)).frame ↔
      udpLength ((shortFrame 16).foldl (World.clock 1500) (start 11)).frame ≠ 12 ∨
        padding ((shortFrame 16).foldl (World.clock 1500) (start 11)).frame = []) ∧
      ((shortFrame 16).foldl (World.clock 1500) (start 11)).sent = [0x4e6f, 0x11ff, 0, 0] :=
  ⟨payload_iff (by decide) (shortFrame 16) (by decide +kernel), by decide +kernel⟩

/-- The seven words that follow the payload of a probe are passed on. -/
theorem padding_passed_on : Accepted 1500 ((shortFrame 12).foldl (World.clock 1500) (start 11)).frame ∧
    payload ((shortFrame 12).foldl (World.clock 1500) (start 11)).frame = [0x4e6f, 0x11ff] ∧
    ((shortFrame 12).foldl (World.clock 1500) (start 11)).sent = [0x4e6f, 0x11ff, 0, 0, 0, 0, 0, 0, 0] := by
  decide +kernel

end BelProject.SlaveCore.EthRx
