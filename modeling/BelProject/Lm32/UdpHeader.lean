import BelProject.Library.OnesComplement

/-! The IP and UDP headers of the embedded CPU. The sum over the payload takes two bytes at a time,
also at the end of an odd payload, and the pad of an odd payload is read behind it. -/

namespace BelProject.Lm32.UdpHeader
open BelProject.Library
open OnesComplement (fold_carries toNat_sum total total_append total_cons total_le)

abbrev Buffer := ℕ → BitVec 8

/-- `eb_lm32_udp_link` -/
structure Link where
  mac : Fin 6 → BitVec 8
  ipv4 : Fin 4 → BitVec 8
  port : BitVec 16

def ipVerIhl : ℕ := 0
def ipDscpEcn : ℕ := ipVerIhl + 1
def ipTol : ℕ := ipDscpEcn + 1
def ipId : ℕ := ipTol + 2
def ipFlgFrg : ℕ := ipId + 2
def ipTtl : ℕ := ipFlgFrg + 2
def ipProto : ℕ := ipTtl + 1
def ipChksum : ℕ := ipProto + 1
def ipSpa : ℕ := ipChksum + 2
def ipDpa : ℕ := ipSpa + 4
def ipEnd : ℕ := ipDpa + 4
def udpSpp : ℕ := ipEnd
def udpDpp : ℕ := udpSpp + 2
def udpLen : ℕ := udpDpp + 2
def udpChksum : ℕ := udpLen + 2
def udpEnd : ℕ := udpChksum + 2

def myPort : BitVec 16 := 0xEBD0

def ipPair (buf : Buffer) (i : ℕ) : BitVec 32 := (buf i).setWidth 32 <<< 8 ||| (buf (i + 1)).setWidth 32

def udpPair (buf : Buffer) (i : ℕ) : BitVec 32 :=
  ((buf i).setWidth 32 <<< 8 &&& 0xFF00) ||| ((buf (i + 1)).setWidth 32 &&& 0x00FF)

def finish (sum : BitVec 32) : BitVec 16 :=
  let sum := (sum >>> 16) + (sum &&& 0xFFFF)
  let sum := sum + (sum >>> 16)
  (~~~sum &&& 0xFFFF).setWidth 16

/-- The loop of `myIP_checksum`, with what is left of `shorts`. -/
def ipLoop (buf : Buffer) : ℕ → ℕ → BitVec 32 → BitVec 32
  | 0, _, sum => sum
  | left + 1, i, sum => ipLoop buf left (i + 2) (sum + ipPair buf i)

def myIPChecksum (buf : Buffer) (shorts : ℕ) : BitVec 16 := finish (ipLoop buf shorts 0 0)

/-- The loop over the data, with what is left of `len`: the index behind it and the sum. -/
def dataLoop (databuf : Buffer) : ℕ → ℕ → BitVec 32 → ℕ × BitVec 32
  | 0, i, sum => (i, sum)
  | 1, i, sum => (i + 2, sum + udpPair databuf i)
  | left + 2, i, sum => dataLoop databuf left (i + 2) (sum + udpPair databuf i)

def udpChecksum (hdrbuf databuf : Buffer) (len : BitVec 16) : BitVec 16 :=
  let (i, sum) := dataLoop databuf len.toNat 0 0
  let sum := if len &&& 1 ≠ 0 then sum + (databuf (i + 1)).setWidth 32 <<< 8 else sum
  let pseudosum := udpPair hdrbuf ipSpa + udpPair hdrbuf (ipSpa + 2) + udpPair hdrbuf ipDpa +
    udpPair hdrbuf (ipDpa + 2) +
    ((hdrbuf ipProto).setWidth 32 &&& 0x00FF) + udpPair hdrbuf udpSpp + udpPair hdrbuf udpDpp + udpPair hdrbuf udpLen +
    udpPair hdrbuf udpChksum
  finish (sum + (pseudosum + len.setWidth 32 + 8))

def store (buf : Buffer) (start : ℕ) (bytes : List (BitVec 8)) : Buffer :=
  fun k => if start ≤ k then (bytes[k - start]?).getD (buf k) else buf k

def bytes16 (x : BitVec 16) : List (BitVec 8) := [(x >>> 8).setWidth 8, x.setWidth 8]

def ipFields (getIP : Fin 4 → BitVec 8) (link : Link) (hdrbuf : Buffer) (len : BitVec 16) : Buffer :=
  let iptol := len + BitVec.ofNat 16 (ipEnd - ipVerIhl) + BitVec.ofNat 16 (udpEnd - ipEnd)
  let hdrbuf := store hdrbuf ipVerIhl [0x45]
  let hdrbuf := store hdrbuf ipDscpEcn [0x00]
  let hdrbuf := store hdrbuf ipTol (bytes16 iptol)
  let hdrbuf := store hdrbuf ipId [0x00, 0x00]
  let hdrbuf := store hdrbuf ipFlgFrg [0x00, 0x00]
  let hdrbuf := store hdrbuf ipProto [0x11]
  let hdrbuf := store hdrbuf ipTtl [0x10]
  let hdrbuf := store hdrbuf ipChksum [0x00, 0x00]
  let hdrbuf := store hdrbuf ipSpa (List.ofFn getIP)
  store hdrbuf ipDpa (List.ofFn link.ipv4)

def udpFields (link : Link) (hdrbuf : Buffer) (len : BitVec 16) : Buffer :=
  let udplen := len + BitVec.ofNat 16 (udpEnd - ipEnd)
  let hdrbuf := store hdrbuf udpSpp (bytes16 myPort)
  let hdrbuf := store hdrbuf udpDpp (bytes16 link.port)
  let hdrbuf := store hdrbuf udpLen (bytes16 udplen)
  store hdrbuf udpChksum [0x00, 0x00]

def createUdpIpHdr (getIP : Fin 4 → BitVec 8) (link : Link) (hdrbuf databuf : Buffer) (len : BitVec 16) : Buffer :=
  let hdrbuf := ipFields getIP link hdrbuf len
  let hdrbuf := store hdrbuf ipChksum (bytes16 (myIPChecksum hdrbuf 10))
  let hdrbuf := udpFields link hdrbuf len
  store hdrbuf udpChksum (bytes16 (udpChecksum hdrbuf databuf len))

def slice (buf : Buffer) (start n : ℕ) : List (BitVec 8) := (List.range' start n).map buf

def wordsOf : List (BitVec 8) → List (BitVec 16)
  | [] => []
  | [last] => [last ++ (0 : BitVec 8)]
  | high :: low :: bytes => (high ++ low) :: wordsOf bytes

def pseudoHeader (hdr : Buffer) : List (BitVec 8) :=
  slice hdr ipSpa 4 ++ slice hdr ipDpa 4 ++ [0x00, hdr ipProto] ++ slice hdr udpLen 2

structure Valid (hdr : Buffer) (payload : List (BitVec 8)) : Prop where
  totalLength : (hdr ipTol ++ hdr (ipTol + 1)).toNat = udpEnd + payload.length
  udpLength : (hdr udpLen ++ hdr (udpLen + 1)).toNat = udpEnd - ipEnd + payload.length
  ip : OnesComplement.sum (wordsOf (slice hdr ipVerIhl ipEnd)) = BitVec.allOnes 16
  udp : OnesComplement.sum (wordsOf (pseudoHeader hdr ++ slice hdr udpSpp (udpEnd - ipEnd) ++
    payload)) = BitVec.allOnes 16

/-- The header of a payload, and it is the same whatever stands behind the payload. -/
structure Correct (getIP : Fin 4 → BitVec 8) (link : Link) (hdrbuf databuf : Buffer) (len : BitVec 16) : Prop where
  valid : Valid (createUdpIpHdr getIP link hdrbuf databuf len) (slice databuf 0 len.toNat)
  confined : ∀ other, slice other 0 len.toNat = slice databuf 0 len.toNat →
    createUdpIpHdr getIP link hdrbuf other len = createUdpIpHdr getIP link hdrbuf databuf len

section
variable (buf : Buffer) (i : ℕ)

theorem toNat_ipPair : (ipPair buf i).toNat = (buf i ++ buf (i + 1)).toNat := by
  rw [ipPair, BitVec.toNat_or, BitVec.toNat_shiftLeft, BitVec.toNat_setWidth_of_le (by decide),
    BitVec.toNat_setWidth_of_le (by decide),
    BitVec.toNat_append, Nat.mod_eq_of_lt]
  have small := (buf i).isLt
  rw [Nat.shiftLeft_eq]
  omega

theorem udpPair_eq : udpPair buf i = ipPair buf i := by
  have high : ∀ byte : BitVec 8, byte.setWidth 32 <<< 8 &&& (0xFF00 : BitVec 32) = byte.setWidth 32 <<< 8 := by decide
  have low : ∀ byte : BitVec 8, byte.setWidth 32 &&& (0x00FF : BitVec 32) = byte.setWidth 32 := by decide
  rw [udpPair, ipPair, high, low]

end

theorem finish_eq {sum : BitVec 32} {words : List (BitVec 16)} (same : sum.toNat = total words) :
    finish sum = ~~~OnesComplement.sum words := by
  have bound := sum.isLt
  have low : (sum &&& 0xFFFF).toNat = sum.toNat % 2 ^ 16 := by
    rw [BitVec.toNat_and]
    exact Nat.and_two_pow_sub_one_eq_mod _ 16
  have high : (sum >>> 16).toNat = sum.toNat / 2 ^ 16 := by rw [BitVec.toNat_ushiftRight, Nat.shiftRight_eq_div_pow]
  have once : (sum >>> 16 + (sum &&& 0xFFFF)).toNat = sum.toNat / 2 ^ 16 + sum.toNat % 2 ^ 16 := by
    rw [BitVec.toNat_add, high, low]
    omega
  have cut (x : BitVec 32) : (~~~x &&& 0xFFFF).setWidth 16 = ~~~x.setWidth 16 := by
    rw [BitVec.setWidth_and, BitVec.setWidth_not (by decide)]
    exact BitVec.and_allOnes
  rw [finish, cut]
  congr 1
  apply BitVec.eq_of_toNat_eq
  rw [toNat_sum, ← same, ← fold_carries bound, BitVec.toNat_setWidth, BitVec.toNat_add,
    BitVec.toNat_ushiftRight, Nat.shiftRight_eq_div_pow, once]
  omega

theorem wordsOf_append {bytes : List (BitVec 8)} (even : bytes.length % 2 = 0) (more : List (BitVec 8)) :
    wordsOf (bytes ++ more) = wordsOf bytes ++ wordsOf more := by
  induction bytes using wordsOf.induct with
  | case1 => rfl
  | case2 last => exact absurd even Nat.one_ne_zero
  | case3 high low bytes ih =>
    rw [List.length_cons, List.length_cons] at even
    rw [List.cons_append, List.cons_append, wordsOf, wordsOf, ih (by omega), List.cons_append]

theorem slice_succ (buf : Buffer) (start n : ℕ) : slice buf start (n + 1) = buf start :: slice buf (start + 1) n := rfl

theorem length_slice (buf : Buffer) (start n : ℕ) : (slice buf start n).length = n := by
  rw [slice, List.length_map, List.length_range']

theorem dataLoop_eq (databuf : Buffer) (left i : ℕ) (sum : BitVec 32) :
    (dataLoop databuf left i sum).1 = i + (left + left % 2) ∧ (dataLoop databuf left i sum).2.toNat =
      (sum.toNat + total (wordsOf (slice databuf i (left + left % 2)))) % 2 ^ 32 := by
  induction left using Nat.twoStepInduction generalizing i sum with
  | zero => exact ⟨rfl, (Nat.mod_eq_of_lt sum.isLt).symm⟩
  | one =>
    refine ⟨rfl, ?_⟩
    rw [dataLoop, BitVec.toNat_add, udpPair_eq, toNat_ipPair]
    rfl
  | more left ih _ =>
    obtain ⟨index, total⟩ := ih (i + 2) (sum + udpPair databuf i)
    have parity : left + 2 + (left + 2) % 2 = left + left % 2 + 1 + 1 := by omega
    rw [dataLoop, index, total, parity, slice_succ, slice_succ, wordsOf, total_cons, BitVec.toNat_add, udpPair_eq,
      toNat_ipPair, Nat.mod_add_mod, Nat.add_assoc sum.toNat]
    exact ⟨by omega, rfl⟩

theorem bytes16_append (x : BitVec 16) : ((x >>> 8).setWidth 8 : BitVec 8) ++ (x.setWidth 8 : BitVec 8) = x := by
  apply BitVec.eq_of_toNat_eq
  have small := x.isLt
  rw [BitVec.toNat_append, BitVec.toNat_setWidth, BitVec.toNat_setWidth, BitVec.toNat_ushiftRight,
    Nat.shiftRight_eq_div_pow,
    ← Nat.shiftLeft_add_eq_or_of_lt (Nat.mod_lt _ (by decide)), Nat.shiftLeft_eq]
  omega

theorem ipLoop_eq (buf : Buffer) (left i : ℕ) (sum : BitVec 32) :
    (ipLoop buf left i sum).toNat = (sum.toNat + total (wordsOf (slice buf i (2 * left)))) % 2 ^ 32 := by
  induction left generalizing i sum with
  | zero => exact (Nat.mod_eq_of_lt sum.isLt).symm
  | succ left ih =>
    rw [ipLoop, ih, Nat.mul_succ, slice_succ, slice_succ, wordsOf, total_cons, BitVec.toNat_add, toNat_ipPair,
      Nat.mod_add_mod, Nat.add_assoc sum.toNat]

theorem length_wordsOf (bytes : List (BitVec 8)) : (wordsOf bytes).length = (bytes.length + 1) / 2 := by
  induction bytes using wordsOf.induct with
  | case1 => rfl
  | case2 last => rw [wordsOf, List.length_singleton, List.length_singleton]
  | case3 high low bytes ih =>
    rw [wordsOf, List.length_cons, ih, List.length_cons, List.length_cons]
    omega

theorem myIPChecksum_eq (buf : Buffer) : myIPChecksum buf 10 = ~~~OnesComplement.sum (wordsOf (slice buf 0 20)) := by
  apply finish_eq
  have most := total_le (wordsOf (slice buf 0 20))
  rw [length_wordsOf, length_slice] at most
  rw [ipLoop_eq, show (0 : BitVec 32).toNat = 0 from rfl, Nat.zero_add]
  exact Nat.mod_eq_of_lt (show total (wordsOf (slice buf 0 20)) < 2 ^ 32 by omega)

/-- What `udpChecksum` takes in: the data to an even length, and for an odd length one byte more as
a pad. -/
def summed (databuf : Buffer) (n : ℕ) : List (BitVec 8) :=
  slice databuf 0 (n + n % 2) ++ if n % 2 = 1 then [databuf (n + 2)] else []

theorem length_summed (databuf : Buffer) (n : ℕ) : (summed databuf n).length ≤ n + 2 := by
  rw [summed, List.length_append, length_slice]
  split_ifs with odd
  · rw [List.length_singleton]
    omega
  · rw [List.length_nil]
    omega

theorem dataSum_eq (databuf : Buffer) (len : BitVec 16) :
    (if len &&& 1 ≠ 0 then
      (dataLoop databuf len.toNat 0 0).2 + (databuf ((dataLoop databuf len.toNat 0 0).1 + 1)).setWidth 32 <<< 8
    else (dataLoop databuf len.toNat 0 0).2).toNat = total (wordsOf (summed databuf len.toNat)) % 2 ^ 32 := by
  obtain ⟨index, total⟩ := dataLoop_eq databuf len.toNat 0 0
  rw [show (0 : BitVec 32).toNat = 0 from rfl, Nat.zero_add] at total
  have odd : len &&& 1 ≠ 0 ↔ len.toNat % 2 = 1 := by
    rw [Ne, ← BitVec.toNat_inj, BitVec.toNat_and]
    change ¬len.toNat &&& 1 = 0 ↔ _
    rw [Nat.and_one_is_mod]
    exact Nat.mod_two_ne_zero
  have even : (slice databuf 0 (len.toNat + len.toNat % 2)).length % 2 = 0 := by
    rw [length_slice]
    omega
  rw [summed, wordsOf_append even, total_append]
  simp only [odd]
  split_ifs with pad
  · have shifted : ∀ byte : BitVec 8, (byte.setWidth 32 <<< 8).toNat = (byte ++ (0 : BitVec 8)).toNat := by decide
    rw [BitVec.toNat_add, total, index, shifted, pad, Nat.zero_add, Nat.mod_add_mod]
    rfl
  · exact total

theorem wordsOf_front (hdr : Buffer) : wordsOf (pseudoHeader hdr ++ slice hdr udpSpp (udpEnd - ipEnd)) =
    [hdr ipSpa ++ hdr (ipSpa + 1), hdr (ipSpa + 2) ++ hdr (ipSpa + 2 + 1), hdr ipDpa ++ hdr (ipDpa + 1),
      hdr (ipDpa + 2) ++ hdr (ipDpa + 2 + 1),
      (0x00 : BitVec 8) ++ hdr ipProto, hdr udpLen ++ hdr (udpLen + 1), hdr udpSpp ++ hdr
      (udpSpp + 1), hdr udpDpp ++ hdr (udpDpp + 1),
      hdr udpLen ++ hdr (udpLen + 1), hdr udpChksum ++ hdr (udpChksum + 1)] := rfl

theorem length_front (hdr : Buffer) : (pseudoHeader hdr ++ slice hdr udpSpp (udpEnd - ipEnd)).length = 20 := rfl

theorem udpChecksum_eq {hdrbuf : Buffer} (databuf : Buffer) {len : BitVec 16} (fits : len.toNat ≤ 1472)
    (length : (hdrbuf udpLen ++ hdrbuf (udpLen + 1)).toNat = len.toNat + 8) :
    udpChecksum hdrbuf databuf len =
      ~~~OnesComplement.sum (wordsOf (pseudoHeader hdrbuf ++ slice hdrbuf udpSpp (udpEnd - ipEnd) ++
        summed databuf len.toNat)) := by
  have most := total_le (wordsOf (pseudoHeader hdrbuf ++ slice hdrbuf udpSpp (udpEnd - ipEnd) ++
    summed databuf len.toNat))
  have count := length_summed databuf len.toNat
  have proto : ((0x00 : BitVec 8) ++ hdrbuf ipProto).toNat =
    ((hdrbuf ipProto).setWidth 32 &&& (0x00FF : BitVec 32)).toNat := by
    generalize hdrbuf ipProto = byte
    revert byte
    decide
  rw [length_wordsOf, List.length_append, length_front] at most
  apply finish_eq
  rw [wordsOf_append (by rw [length_front]), wordsOf_front, total_append] at most ⊢
  simp only [total_cons, proto, length] at most ⊢
  rw [BitVec.toNat_add, dataSum_eq]
  simp only [BitVec.toNat_add, udpPair_eq, toNat_ipPair, length, len.toNat_setWidth, Nat.mod_add_mod, Nat.add_mod_mod,
    show (8 : BitVec 32).toNat = 8 from rfl, show total ([] : List (BitVec 16)) = 0 from rfl] at most ⊢
  omega

section
variable (getIP : Fin 4 → BitVec 8) (link : Link) (hdrbuf databuf : Buffer) (len : BitVec 16)

def staged : Buffer :=
  udpFields link (store (ipFields getIP link hdrbuf len) ipChksum
    (bytes16 (myIPChecksum (ipFields getIP link hdrbuf len) 10))) len

def ipBytes (chksum : BitVec 16) : List (BitVec 8) :=
  [0x45, 0x00] ++ bytes16 (len + 20 + 8) ++ [0x00, 0x00, 0x00, 0x00, 0x10, 0x11] ++ bytes16 chksum ++ List.ofFn getIP ++
    List.ofFn link.ipv4

theorem slice_ipFields : slice (ipFields getIP link hdrbuf len) 0 20 = ipBytes getIP link len 0 := rfl

theorem slice_created : slice (createUdpIpHdr getIP link hdrbuf databuf len) ipVerIhl ipEnd =
    ipBytes getIP link len (myIPChecksum (ipFields getIP link hdrbuf len) 10) := rfl

theorem created_eq : createUdpIpHdr getIP link hdrbuf databuf len =
    store (staged getIP link hdrbuf len) udpChksum
      (bytes16 (udpChecksum (staged getIP link hdrbuf len) databuf len)) := rfl

/-- What stands in front of the check word of the UDP header. -/
def beforeCheck (hdr : Buffer) : List (BitVec 8) := pseudoHeader hdr ++ slice hdr udpSpp 6

theorem front_check (hdr : Buffer) (check : BitVec 16) :
    pseudoHeader (store hdr udpChksum (bytes16 check)) ++ slice
      (store hdr udpChksum (bytes16 check)) udpSpp (udpEnd - ipEnd) =
      beforeCheck hdr ++ bytes16 check := rfl

theorem length_beforeCheck (hdr : Buffer) : (beforeCheck hdr).length = 18 := rfl

theorem read_check (hdr : Buffer) (check : BitVec 16) :
    store hdr udpChksum (bytes16 check) udpChksum ++ store hdr udpChksum (bytes16 check) (udpChksum + 1) = check :=
  bytes16_append check

theorem read_length (hdr : Buffer) (check : BitVec 16) :
    store hdr udpChksum (bytes16 check) udpLen ++ store hdr udpChksum (bytes16 check) (udpLen + 1) =
      hdr udpLen ++ hdr (udpLen + 1) := rfl

theorem staged_front : pseudoHeader (staged getIP link hdrbuf len) ++ slice
    (staged getIP link hdrbuf len) udpSpp (udpEnd - ipEnd) =
    beforeCheck (staged getIP link hdrbuf len) ++ bytes16 0 := rfl

theorem staged_length (fits : len.toNat ≤ 1472) :
    (staged getIP link hdrbuf len udpLen ++ staged getIP link hdrbuf len (udpLen + 1)).toNat = len.toNat + 8 := by
  change (((len + 8) >>> 8).setWidth 8 ++ (len + 8).setWidth 8).toNat = _
  rw [bytes16_append, BitVec.toNat_add]
  exact Nat.mod_eq_of_lt (show len.toNat + 8 < 2 ^ 16 by omega)

end

section
variable {getIP : Fin 4 → BitVec 8} {link : Link} {hdrbuf databuf : Buffer} {len : BitVec 16}

theorem created_checksum (fits : len.toNat ≤ 1472) : udpChecksum (staged getIP link hdrbuf len) databuf len =
    ~~~OnesComplement.sum (wordsOf (beforeCheck (staged getIP link hdrbuf len) ++ bytes16 0 ++
      summed databuf len.toNat)) := by
  rw [udpChecksum_eq databuf fits (staged_length getIP link hdrbuf len fits), staged_front]

theorem summed_even (even : len.toNat % 2 = 0) : summed databuf len.toNat = slice databuf 0 len.toNat := by
  rw [summed, even, if_neg Nat.zero_ne_one, List.append_nil]
  rfl

theorem total_check {front : List (BitVec 8)} (even : front.length % 2 = 0) (check : BitVec 16)
    (rest : List (BitVec 8)) :
    total (wordsOf (front ++ bytes16 check ++ rest)) =
      total (wordsOf (front ++ bytes16 0 ++ rest)) + check.toNat := by
  rw [List.append_assoc, List.append_assoc, wordsOf_append even, wordsOf_append even, total_append,
    total_append]
  change _ + total (((check >>> 8).setWidth 8 ++ check.setWidth 8) :: wordsOf rest) =
    _ + total ((0 : BitVec 16) :: wordsOf rest) + _
  rw [bytes16_append, total_cons, total_cons, show (0 : BitVec 16).toNat = 0 from rfl]
  omega

theorem sum_check {front rest : List (BitVec 8)} (even : front.length % 2 = 0) {check : BitVec 16}
    (complement : check = ~~~OnesComplement.sum (wordsOf (front ++ bytes16 0 ++ rest))) :
    OnesComplement.sum (wordsOf (front ++ bytes16 check ++ rest)) = BitVec.allOnes 16 := by
  have whole := total_check even check rest
  rw [complement] at whole ⊢
  exact OnesComplement.sum_complement (by decide) whole

theorem valid_even (fits : len.toNat ≤ 1472) (even : len.toNat % 2 = 0) :
    Valid (createUdpIpHdr getIP link hdrbuf databuf len) (slice databuf 0 len.toNat) where
  totalLength := by
    change (((len + 20 + 8) >>> 8).setWidth 8 ++ (len + 20 + 8).setWidth 8).toNat = 28 + _
    rw [bytes16_append, length_slice, BitVec.toNat_add, BitVec.toNat_add]
    change ((len.toNat + 20) % 2 ^ 16 + 8) % 2 ^ 16 = _
    omega
  udpLength := by
    rw [length_slice, created_eq, read_length, staged_length getIP link hdrbuf len fits]
    exact Nat.add_comm _ _
  ip := by
    have front : ([0x45, 0x00] ++ bytes16 (len + 20 + 8) ++ [0x00, 0x00, 0x00, 0x00, 0x10, 0x11]).length = 10 := rfl
    rw [slice_created, ipBytes, List.append_assoc _ (List.ofFn getIP)]
    apply sum_check (by rw [front])
    rw [myIPChecksum_eq, slice_ipFields, ipBytes, List.append_assoc _ (List.ofFn getIP)]
  udp := by
    rw [created_eq, front_check]
    apply sum_check (by rw [length_beforeCheck])
    rw [created_checksum fits, summed_even even]

theorem confined_even (fits : len.toNat ≤ 1472) (even : len.toNat % 2 = 0) {other : Buffer}
    (same : slice other 0 len.toNat = slice databuf 0 len.toNat) :
    createUdpIpHdr getIP link hdrbuf other len = createUdpIpHdr getIP link hdrbuf databuf len := by
  rw [created_eq, created_eq, created_checksum fits, created_checksum fits, summed_even even, summed_even even, same]

theorem total_odd {bytes : List (BitVec 8)} (odd : bytes.length % 2 = 1) (last : BitVec 8) :
    total (wordsOf (bytes ++ [last])) = total (wordsOf bytes) + last.toNat := by
  induction bytes using wordsOf.induct with
  | case1 => exact absurd odd Nat.zero_ne_one
  | case2 byte =>
    change total [byte ++ last] = total [byte ++ (0 : BitVec 8)] + _
    have small := last.isLt
    rw [total_cons, total_cons, BitVec.toNat_append, BitVec.toNat_append,
      ← Nat.shiftLeft_add_eq_or_of_lt small, ← Nat.shiftLeft_add_eq_or_of_lt (by decide)]
    exact Nat.add_right_comm _ _ _
  | case3 high low bytes ih =>
    rw [List.length_cons, List.length_cons] at odd
    rw [List.cons_append, List.cons_append, wordsOf, wordsOf, total_cons, total_cons, ih (by omega),
      Nat.add_assoc]

theorem total_summed_odd {front : List (BitVec 8)} {n : ℕ} (even : front.length % 2 = 0) (odd : n % 2 = 1) :
    total (wordsOf (front ++ summed databuf n)) = total (wordsOf front) +
      total (wordsOf (slice databuf 0 n)) + (databuf n).toNat + (databuf (n + 2) ++ (0 : BitVec 8)).toNat := by
  have last : slice databuf 0 (n + 1) = slice databuf 0 n ++ [databuf n] := by
    rw [slice, List.range'_concat, List.map_append, Nat.zero_add, Nat.one_mul]
    rfl
  have length : (slice databuf 0 (n + 1)).length % 2 = 0 := by
    rw [length_slice]
    omega
  rw [summed, if_pos odd, odd, wordsOf_append even, total_append, wordsOf_append length, total_append,
    last, total_odd (by rw [length_slice, odd]), ← Nat.add_assoc, ← Nat.add_assoc]
  rfl

theorem not_confined_odd (fits : len.toNat ≤ 1472) (odd : len.toNat % 2 = 1) : ¬ ∀ other,
    slice other 0 len.toNat = slice databuf 0 len.toNat →
      createUdpIpHdr getIP link hdrbuf other len = createUdpIpHdr getIP link hdrbuf databuf len := by
  intro confined
  let other := Function.update databuf len.toNat (databuf len.toNat + 1)
  have same : slice other 0 len.toNat = slice databuf 0 len.toNat := by
    apply List.map_congr_left
    intro k inside
    rw [List.mem_range'_1] at inside
    exact Function.update_of_ne (by omega) _ _
  have even : (beforeCheck (staged getIP link hdrbuf len) ++ bytes16 0).length % 2 = 0 := by
    rw [List.length_append, length_beforeCheck]
    rfl
  have header := confined other same
  rw [created_eq, created_eq] at header
  have check : udpChecksum (staged getIP link hdrbuf len) other len =
    udpChecksum (staged getIP link hdrbuf len) databuf len := by
    rw [← read_check (staged getIP link hdrbuf len) (udpChecksum _ other len), header, read_check]
  rw [created_checksum fits, created_checksum fits, BitVec.not_inj, ← BitVec.toNat_inj, toNat_sum,
    toNat_sum, total_summed_odd even odd, total_summed_odd even odd, same] at check
  have here : other len.toNat = databuf len.toNat + 1 := Function.update_self ..
  have behind : other (len.toNat + 2) = databuf (len.toNat + 2) := Function.update_of_ne (by omega) _ _
  have close := OnesComplement.modEq_of_residue check
  rw [here, behind, BitVec.toNat_add] at close
  have small := (databuf len.toNat).isLt
  have one : (1 : BitVec 8).toNat = 1 := rfl
  rw [one, Nat.ModEq] at close
  omega

end

def ebLm32UdpMtu : ℕ := 1472

/-- The header is right exactly for payloads of an even length. -/
theorem udpPacket_correct_iff (getIP : Fin 4 → BitVec 8) (link : Link) (hdrbuf databuf : Buffer) (len : BitVec 16)
    (fits : len.toNat ≤ ebLm32UdpMtu) : Correct getIP link hdrbuf databuf len ↔ len.toNat % 2 = 0 := by
  constructor
  · intro correct
    by_contra odd
    exact not_confined_odd fits (by omega) correct.confined
  · exact fun even => ⟨valid_even fits even, fun other => confined_even fits even⟩

def someLink : Link := ⟨fun _ => 0xFF, fun _ => 0x01, 0x6001⟩

def zeroes : Buffer := fun _ => 0

def single (place : ℕ) : Buffer := Function.update zeroes place 0x41

theorem even_correct : Correct (fun _ => 0x02) someLink zeroes (single 1) 2 :=
  (udpPacket_correct_iff (fun _ => 0x02) someLink zeroes (single 1) 2 (by decide)).mpr (by decide)

/-- A payload of one byte, with the byte behind it in the sum. -/
theorem odd_wrong : ¬ Correct (fun _ => 0x02) someLink zeroes (single 1) 1 :=
  fun correct => absurd correct.valid.udp (by decide +kernel)

end BelProject.Lm32.UdpHeader
