import Mathlib.Data.List.Basic

/-! The header words of `eb_hdr_pkg`: bit fields of a 32-bit word, and the two directions
between the word and its fields. -/

namespace BelProject.SlaveCore.Headers

/-- `t_wishbone_data` and `t_wishbone_address`. -/
abbrev Word := BitVec 32

/-- `t_eb_hdr`. -/
structure EbHdr where
  magic : BitVec 16
  ver : BitVec 4
  res1 : Bool
  noResponse : Bool
  probeRes : Bool
  probe : Bool
  addrSize : BitVec 4
  dataSize : BitVec 4
  deriving DecidableEq

abbrev cEbMagic : BitVec 16 := 0x4e6f
abbrev cEbVer : BitVec 4 := 0x1

def cEbInit : EbHdr := ⟨cEbMagic, cEbVer, false, true, false, false, 4, 4⟩

def fParseEb (x : Word) : EbHdr :=
  { magic := x.extractLsb' 16 16
    ver := x.extractLsb' 12 4
    res1 := x.getLsbD 11
    noResponse := x.getLsbD 10
    probeRes := x.getLsbD 9
    probe := x.getLsbD 8
    addrSize := x.extractLsb' 4 4
    dataSize := x.extractLsb' 0 4 }

def fFormatEb (x : EbHdr) : Word :=
  x.magic ++ x.ver ++ BitVec.ofBool x.res1 ++ BitVec.ofBool x.noResponse ++ BitVec.ofBool x.probeRes ++
    BitVec.ofBool x.probe ++ x.addrSize ++ x.dataSize

/-- `t_rec_hdr`. -/
structure RecHdr where
  bcaCfg : Bool
  rcaCfg : Bool
  rdFifo : Bool
  res1 : Bool
  dropCyc : Bool
  wcaCfg : Bool
  wrFifo : Bool
  res2 : Bool
  sel : BitVec 8
  wrCnt : BitVec 8
  rdCnt : BitVec 8
  deriving DecidableEq

def cRecInit : RecHdr := ⟨false, false, false, false, false, false, false, false, 0, 0, 0⟩

def fParseRec (x : Word) : RecHdr :=
  { bcaCfg := x.getLsbD 31
    rcaCfg := x.getLsbD 30
    rdFifo := x.getLsbD 29
    res1 := x.getLsbD 28
    dropCyc := x.getLsbD 27
    wcaCfg := x.getLsbD 26
    wrFifo := x.getLsbD 25
    res2 := x.getLsbD 24
    sel := x.extractLsb' 16 8
    wrCnt := x.extractLsb' 8 8
    rdCnt := x.extractLsb' 0 8 }

def fFormatRec (x : RecHdr) : Word :=
  BitVec.ofBool x.bcaCfg ++ BitVec.ofBool x.rcaCfg ++ BitVec.ofBool x.rdFifo ++ BitVec.ofBool x.res1 ++
    BitVec.ofBool x.dropCyc ++ BitVec.ofBool x.wcaCfg ++ BitVec.ofBool x.wrFifo ++ BitVec.ofBool x.res2 ++
    x.sel ++ x.wrCnt ++ x.rdCnt

theorem getLsbD_high {m n : Nat} (x : BitVec m) (y : BitVec n) {i : Nat} (high : n ≤ i) :
    (x ++ y).getLsbD i = x.getLsbD (i - n) := by
  rw [BitVec.getLsbD_append, if_neg (by omega)]

theorem getLsbD_low {m n : Nat} (x : BitVec m) (y : BitVec n) {i : Nat} (low : i < n) :
    (x ++ y).getLsbD i = y.getLsbD i := by
  rw [BitVec.getLsbD_append, if_pos low]

theorem getLsbD_bit (bit : Bool) : (BitVec.ofBool bit).getLsbD 0 = bit := by
  cases bit <;> rfl

theorem extract_eq {m n : Nat} {x : BitVec m} {field : BitVec n} {start : Nat}
    (same : ∀ i, i < n → x.getLsbD (start + i) = field.getLsbD i) : x.extractLsb' start n = field := by
  apply BitVec.eq_of_getLsbD_eq
  intro i small
  rw [BitVec.getLsbD_extractLsb', decide_eq_true small, Bool.true_and, same i small]

theorem fParseRec_format (x : RecHdr) : fParseRec (fFormatRec x) = x := by
  obtain ⟨bcaCfg, rcaCfg, rdFifo, res1, dropCyc, wcaCfg, wrFifo, res2, sel, wrCnt, rdCnt⟩ := x
  unfold fParseRec fFormatRec
  congr 1
  case e_sel | e_wrCnt | e_rdCnt =>
    apply extract_eq
    intro i small
    simp (disch := omega) only [getLsbD_high, getLsbD_low]
    congr 1
    omega
  all_goals simp (disch := omega) only [getLsbD_high, getLsbD_low, Nat.reduceSub, getLsbD_bit]

theorem fParseEb_format (x : EbHdr) : fParseEb (fFormatEb x) = x := by
  obtain ⟨magic, ver, res1, noResponse, probeRes, probe, addrSize, dataSize⟩ := x
  unfold fParseEb fFormatEb
  congr 1
  case e_magic | e_ver | e_addrSize | e_dataSize =>
    apply extract_eq
    intro i small
    simp (disch := omega) only [getLsbD_high, getLsbD_low]
    congr 1
    omega
  all_goals simp (disch := omega) only [getLsbD_high, getLsbD_low, Nat.reduceSub, getLsbD_bit]

end BelProject.SlaveCore.Headers
