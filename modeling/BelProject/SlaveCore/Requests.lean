import BelProject.SlaveCore.Fsm

/-! Packets of well-formed records, word by word. Next to every word stands what the state
machine has to do with it; it does so from the first word of a packet to the last, and is
ready for the next word after each. -/

namespace BelProject.SlaveCore.Requests
open Headers Fsm

structure Request where
  hdr : RecHdr
  baseWrite : Word
  writes : List Word
  baseRet : Word
  reads : List Word
  wrCnt : hdr.wrCnt.toNat = writes.length
  rdCnt : hdr.rdCnt.toNat = reads.length

/-- The access a word of a record asks for, in either address space. -/
inductive Access where
  | write (adr dat : Word)
  | read (adr : Word)
  deriving DecidableEq

def Access.adr : Access → Word
  | .write adr _ => adr
  | .read adr => adr

/-- What a word asks of the machine: the tag it leaves, the word it passes on, the access it
makes, whether it ends its record, and whether that record drops the cycle. -/
structure Cell where
  tag : Tag
  pass : Option Word
  access : Option Access
  final : Bool
  drop : Bool
  deriving DecidableEq

def plain (dat : Word) : Cell := ⟨.passOn, some dat, none, false, false⟩

def writeCells (hdr : RecHdr) (more : Bool) : Word → List Word → List (Word × Cell)
  | _, [] => []
  | adr, dat :: dats =>
    (dat, ⟨if hdr.wcaCfg then .cfgIgn else .wbmIgn, some (if dats.isEmpty then fFormatRec (fReplyRec hdr) else 0),
      some (.write adr dat), dats.isEmpty && !more, hdr.dropCyc⟩) ::
      writeCells hdr more (if hdr.wrFifo then adr else adr + 4) dats

def readCells (hdr : RecHdr) : List Word → List (Word × Cell)
  | [] => []
  | adr :: adrs =>
    (adr, ⟨if hdr.rcaCfg then .cfgReq else .wbmReq, none, some (.read adr), adrs.isEmpty, hdr.dropCyc⟩) ::
      readCells hdr adrs

def readPart (hdr : RecHdr) (baseRet : Word) (reads : List Word) : List (Word × Cell) :=
  if reads.isEmpty then [] else (baseRet, plain baseRet) :: readCells hdr reads

def writePart (hdr : RecHdr) (baseWrite : Word) (writes : List Word) (more : Bool) : List (Word × Cell) :=
  if writes.isEmpty then [] else (baseWrite, plain 0) :: writeCells hdr more baseWrite writes

def Request.cells (r : Request) : List (Word × Cell) :=
  (fFormatRec r.hdr, ⟨.passOn, some (if r.writes.isEmpty then fFormatRec (fReplyRec r.hdr) else 0), none,
    r.writes.isEmpty && r.reads.isEmpty, r.hdr.dropCyc⟩) ::
    (writePart r.hdr r.baseWrite r.writes (!r.reads.isEmpty) ++ readPart r.hdr r.baseRet r.reads)

/-- A packet for a 32-bit port: a header the machine supports, the word that follows a probe,
and records. -/
structure Packet where
  hdr : EbHdr
  probeId : Word
  records : List Request
  magic : hdr.magic = cEbMagic
  ver : hdr.ver = cEbVer
  probes : hdr.probe = true → hdr.addrSize.getLsbD 2 = true ∧ hdr.dataSize.getLsbD 2 = true
  sizes : hdr.probe = false → hdr.addrSize = 4 ∧ hdr.dataSize = 4

def Packet.cells (p : Packet) : List (Word × Cell) :=
  (fFormatEb p.hdr, ⟨if p.hdr.noResponse then .skipTx else .passTx,
    if p.hdr.noResponse then none else some (fFormatEb (fReplyEb p.hdr)), none, false, false⟩) ::
    ((if p.hdr.probe then [(p.probeId, plain p.probeId)] else []) ++ p.records.flatMap Request.cells)

theorem writeCells_wrCnt (hdr : RecHdr) (more : Bool) (count : BitVec 8) (adr : Word) (dats : List Word) :
    writeCells { hdr with wrCnt := count } more adr dats = writeCells hdr more adr dats := by
  induction dats generalizing adr with
  | nil => rfl
  | cons dat dats ih =>
    simp only [writeCells]
    exact congrArg (_ :: ·) (ih _)

theorem readCells_counts (hdr : RecHdr) (wrCnt rdCnt : BitVec 8) (adrs : List Word) :
    readCells { hdr with wrCnt := wrCnt, rdCnt := rdCnt } adrs = readCells hdr adrs := by
  induction adrs with
  | nil => rfl
  | cons adr adrs ih => rw [readCells, readCells, ih]

theorem readPart_wrCnt (hdr : RecHdr) (count : BitVec 8) (ret : Word) (adrs : List Word) :
    readPart { hdr with wrCnt := count } ret adrs = readPart hdr ret adrs := by
  rw [readPart, readPart]
  exact congrArg (fun cells => if adrs.isEmpty then [] else (ret, plain ret) :: cells)
    (readCells_counts hdr count hdr.rdCnt adrs)

/-- The state fits the words that are still to come. The counts left in the header register
say how much of the record is left, and nothing else depends on them. -/
def Aligned (f : Registers) (rest : List (Word × Cell)) : Prop :=
  match f.state with
  | .ebHdr => ∃ p : Packet, rest = p.cells
  | .probeId => ∃ id records, rest = (id, plain id) :: List.flatMap Request.cells records
  | .cycHdr => ∃ records, rest = List.flatMap Request.cells records
  | .wrAdr => ∃ base dat dats ret reads records, f.rxRecHdr.wrCnt.toNat = dats.length + 1 ∧
      f.rxRecHdr.rdCnt.toNat = reads.length ∧ f.txRecHdr = fReplyRec f.rxRecHdr ∧
      rest = (base, plain 0) :: (writeCells f.rxRecHdr (!reads.isEmpty) base (dat :: dats) ++
        (readPart f.rxRecHdr ret reads ++ List.flatMap Request.cells records))
  | .write => ∃ dat dats ret reads records, f.rxRecHdr.wrCnt.toNat = dats.length + 1 ∧
      f.rxRecHdr.rdCnt.toNat = reads.length ∧ f.txRecHdr = fReplyRec f.rxRecHdr ∧
      rest = writeCells f.rxRecHdr (!reads.isEmpty) f.wrAdr (dat :: dats) ++
        (readPart f.rxRecHdr ret reads ++ List.flatMap Request.cells records)
  | .rdAdr => ∃ ret adr adrs records, f.rxRecHdr.rdCnt.toNat = adrs.length + 1 ∧
      rest = (ret, plain ret) :: (readCells f.rxRecHdr (adr :: adrs) ++ List.flatMap Request.cells records)
  | .read => ∃ adr adrs records, f.rxRecHdr.rdCnt.toNat = adrs.length + 1 ∧
      rest = readCells f.rxRecHdr (adr :: adrs) ++ List.flatMap Request.cells records
  | .probeDrop => False
  | .drop => False

def Drives (f : Registers) : Access → Prop
  | .write adr dat => f.masterWe = true ∧ f.masterAdr = adr ∧ f.masterDat = dat
  | .read adr => f.masterWe = false ∧ f.masterAdr = adr

/-- What the machine did with a word, given the cell beside it. -/
structure Effect (f : Registers) (i : Inputs) (c : Cell) (f' : Registers) : Prop where
  tagStb : f'.tagStb = true
  tagDat : f'.tagDat = c.tag
  pass : if c.pass.isSome then f'.passStb = true ∧ some f'.passDat = c.pass else f'.passStb = false
  cfgStb : f'.cfgStb = isCfg c.tag
  wbmStb : f'.wbmStb = isWbm c.tag
  masterCyc : f'.masterCyc = if c.final then f.masterCyc && !c.drop else f.masterCyc || isWbm c.tag
  masterStb : f'.masterStb = (isWbm c.tag || (f.masterStb && i.masterStall))
  access : ∀ access, c.access = some access → Drives f' access
  rxCyc : f'.rxCyc = i.rxCyc

theorem effect_pass (f : Registers) (i : Inputs) (dat : Word) (drop : Bool) (wrAdr : Word)
    (rx tx : RecHdr) (state : StateRX) :
    Effect f i ⟨.passOn, some dat, none, false, drop⟩ { (idle f i).pass .passOn dat with
      wrAdr := wrAdr, rxRecHdr := rx, txRecHdr := tx, state := state } := by
  refine ⟨rfl, rfl, ⟨rfl, rfl⟩, rfl, rfl, ?_, ?_, ?_, rfl⟩
  · exact (Bool.or_false _).symm
  · exact (Bool.false_or _).symm
  · intro access none
    cases none

variable {f : Registers} {i : Inputs} {dat : Word} {c : Cell} {rest : List (Word × Cell)}

variable {count : BitVec 8}

theorem count_last {length : Nat} (left : count.toNat = length + 1) : count = 1 ↔ length = 0 := by
  rw [← BitVec.toNat_inj, left]
  exact Nat.succ_inj

theorem count_sub {length : Nat} (left : count.toNat = length + 1) : (count - 1).toNat = length := by
  have small := count.isLt
  have one : (1 : BitVec 8).toNat = 1 := rfl
  rw [BitVec.toNat_sub, left, one]
  omega

theorem count_zero {words : List Word} (left : count.toNat = words.length) : count = 0 ↔ words = [] := by
  rw [← BitVec.toNat_inj, left]
  exact List.length_eq_zero_iff

theorem write_effect (first : Word) (dats reads : List Word) (wrCnt : f.rxRecHdr.wrCnt.toNat = dats.length + 1)
    (rdCnt : f.rxRecHdr.rdCnt.toNat = reads.length) (reply : f.txRecHdr = fReplyRec f.rxRecHdr) :
    Effect f i ⟨if f.rxRecHdr.wcaCfg then .cfgIgn else .wbmIgn,
      some (if dats.isEmpty then fFormatRec (fReplyRec f.rxRecHdr) else 0), some (.write f.wrAdr first),
      dats.isEmpty && reads.isEmpty, f.rxRecHdr.dropCyc⟩ (writeWord f (idle f i) first) := by
  have last : f.rxRecHdr.wrCnt = 1 ↔ dats = [] := (count_last wrCnt).trans List.length_eq_zero_iff
  have empty := count_zero rdCnt
  refine ⟨rfl, rfl, ⟨rfl, ?_⟩, ?_, ?_, ?_, ?_, ?_, rfl⟩
  · simp only [writeWord, ne_eq, last, List.isEmpty_iff, reply, ite_not]
  · simp only [writeWord]
    cases f.rxRecHdr.wcaCfg <;> rfl
  · simp only [writeWord]
    cases f.rxRecHdr.wcaCfg <;> rfl
  · have ends : (decide (f.rxRecHdr.wrCnt = 1) && decide (f.rxRecHdr.rdCnt = 0)) = (dats.isEmpty && reads.isEmpty) := by
      rw [decide_eq_decide.mpr last, decide_eq_decide.mpr empty]
      cases dats <;> cases reads <;> rfl
    simp only [writeWord, ends]
    cases f.rxRecHdr.wcaCfg
    · rw [show isWbm (if false = true then Tag.cfgIgn else .wbmIgn) = true from rfl, Bool.or_true]
      rfl
    · rw [show isWbm (if true = true then Tag.cfgIgn else .wbmIgn) = false from rfl, Bool.or_false]
      rfl
  · simp only [writeWord]
    cases f.rxRecHdr.wcaCfg <;> rfl
  · intro access same
    obtain rfl := Option.some.inj same
    exact ⟨rfl, rfl, rfl⟩

theorem write_step (state : f.state = .write) (aligned : Aligned f ((dat, c) :: rest)) :
    Effect f i c (word f (idle f i) dat) ∧ Aligned (word f (idle f i) dat) rest := by
  unfold Aligned at aligned
  rw [state] at aligned
  obtain ⟨first, dats, ret, reads, records, wrCnt, rdCnt, reply, cells⟩ := aligned
  obtain ⟨⟨rfl, rfl⟩, rfl⟩ : ((dat = first ∧ _) ∧ _) := by
    simpa only [writeCells, List.cons_append, List.cons.injEq, Prod.mk.injEq] using cells
  have last : f.rxRecHdr.wrCnt = 1 ↔ dats = [] := (count_last wrCnt).trans List.length_eq_zero_iff
  have empty := count_zero rdCnt
  have taken : word f (idle f i) dat = writeWord f (idle f i) dat := by rw [word, state]
  rw [taken]
  constructor
  · have effect := write_effect (i := i) dat dats reads wrCnt rdCnt reply
    rwa [Bool.not_not]
  · unfold Aligned
    cases dats with
    | cons next dats =>
      have more : (writeWord f (idle f i) dat).state = .write := by
        simp only [writeWord, ne_eq, last, reduceCtorEq, not_false_eq_true, if_true]
      rw [more]
      refine ⟨next, dats, ret, reads, records, count_sub wrCnt, rdCnt, reply, ?_⟩
      simp only [writeWord, writeCells_wrCnt, readPart_wrCnt]
    | nil =>
      cases reads with
      | cons adr adrs =>
        have more : (writeWord f (idle f i) dat).state = .rdAdr := by
          simp only [writeWord, ne_eq, last, empty, reduceCtorEq, not_true_eq_false, not_false_eq_true,
            if_true, if_false]
        rw [more]
        refine ⟨ret, adr, adrs, records, rdCnt, ?_⟩
        exact congrArg ((ret, plain ret) :: · ++ records.flatMap Request.cells) (readCells_counts f.rxRecHdr _ _ _).symm
      | nil =>
        have ended : (writeWord f (idle f i) dat).state = .cycHdr := by
          simp only [writeWord, ne_eq, last, empty, not_true_eq_false, if_false]
        rw [ended]
        exact ⟨records, rfl⟩

theorem read_effect (adr : Word) (adrs : List Word) (rdCnt : f.rxRecHdr.rdCnt.toNat = adrs.length + 1) :
    Effect f i ⟨if f.rxRecHdr.rcaCfg then .cfgReq else .wbmReq, none, some (.read adr), adrs.isEmpty,
      f.rxRecHdr.dropCyc⟩ (readWord f (idle f i) adr) := by
  have last : f.rxRecHdr.rdCnt = 1 ↔ adrs = [] := (count_last rdCnt).trans List.length_eq_zero_iff
  refine ⟨rfl, rfl, rfl, ?_, ?_, ?_, ?_, ?_, rfl⟩
  · simp only [readWord]
    cases f.rxRecHdr.rcaCfg <;> rfl
  · simp only [readWord]
    cases f.rxRecHdr.rcaCfg <;> rfl
  · simp only [readWord, last, List.isEmpty_iff]
    cases f.rxRecHdr.rcaCfg
    · rw [show isWbm (if false = true then Tag.cfgReq else .wbmReq) = true from rfl, Bool.or_true]
      rfl
    · rw [show isWbm (if true = true then Tag.cfgReq else .wbmReq) = false from rfl, Bool.or_false]
      rfl
  · simp only [readWord]
    cases f.rxRecHdr.rcaCfg <;> rfl
  · intro access same
    obtain rfl := Option.some.inj same
    exact ⟨rfl, rfl⟩

theorem read_step (state : f.state = .read) (aligned : Aligned f ((dat, c) :: rest)) :
    Effect f i c (word f (idle f i) dat) ∧ Aligned (word f (idle f i) dat) rest := by
  unfold Aligned at aligned
  rw [state] at aligned
  obtain ⟨first, adrs, records, rdCnt, cells⟩ := aligned
  obtain ⟨⟨rfl, rfl⟩, rfl⟩ : ((dat = first ∧ _) ∧ _) := by
    simpa only [readCells, List.cons_append, List.cons.injEq, Prod.mk.injEq] using cells
  have last : f.rxRecHdr.rdCnt = 1 ↔ adrs = [] := (count_last rdCnt).trans List.length_eq_zero_iff
  have taken : word f (idle f i) dat = readWord f (idle f i) dat := by rw [word, state]
  rw [taken]
  constructor
  · exact read_effect dat adrs rdCnt
  · unfold Aligned
    cases adrs with
    | cons next adrs =>
      have more : (readWord f (idle f i) dat).state = .read := by
        simp only [readWord, last, reduceCtorEq, if_false]
      rw [more]
      refine ⟨next, adrs, records, count_sub rdCnt, ?_⟩
      exact congrArg (· ++ records.flatMap Request.cells) (readCells_counts f.rxRecHdr _ _ _).symm
    | nil =>
      have ended : (readWord f (idle f i) dat).state = .cycHdr := by
        simp only [readWord, last, if_true]
      rw [ended]
      exact ⟨records, rfl⟩

theorem wrAdr_step (state : f.state = .wrAdr) (aligned : Aligned f ((dat, c) :: rest)) :
    Effect f i c (word f (idle f i) dat) ∧ Aligned (word f (idle f i) dat) rest := by
  unfold Aligned at aligned
  rw [state] at aligned
  obtain ⟨base, first, dats, ret, reads, records, wrCnt, rdCnt, reply, cells⟩ := aligned
  obtain ⟨⟨rfl, rfl⟩, rfl⟩ : ((dat = base ∧ _) ∧ _) := by
    simpa only [List.cons.injEq, Prod.mk.injEq] using cells
  have taken : word f (idle f i) dat = { (idle f i).pass .passOn 0 with wrAdr := dat, state := .write } := by
    rw [word, state]
  rw [taken]
  exact ⟨effect_pass f i 0 false dat _ _ .write, first, dats, ret, reads, records, wrCnt, rdCnt, reply, rfl⟩

theorem rdAdr_step (state : f.state = .rdAdr) (aligned : Aligned f ((dat, c) :: rest)) :
    Effect f i c (word f (idle f i) dat) ∧ Aligned (word f (idle f i) dat) rest := by
  unfold Aligned at aligned
  rw [state] at aligned
  obtain ⟨ret, first, adrs, records, rdCnt, cells⟩ := aligned
  obtain ⟨⟨rfl, rfl⟩, rfl⟩ : ((dat = ret ∧ _) ∧ _) := by
    simpa only [List.cons.injEq, Prod.mk.injEq] using cells
  have taken : word f (idle f i) dat = { (idle f i).pass .passOn dat with wrAdr := f.wrAdr, state := .read } := by
    rw [word, state]
    rfl
  rw [taken]
  exact ⟨effect_pass f i dat false f.wrAdr _ _ .read, first, adrs, records, rdCnt, rfl⟩

theorem probeId_step (state : f.state = .probeId) (aligned : Aligned f ((dat, c) :: rest)) :
    Effect f i c (word f (idle f i) dat) ∧ Aligned (word f (idle f i) dat) rest := by
  unfold Aligned at aligned
  rw [state] at aligned
  obtain ⟨id, records, cells⟩ := aligned
  obtain ⟨⟨rfl, rfl⟩, rfl⟩ : ((dat = id ∧ _) ∧ _) := by
    simpa only [List.cons.injEq, Prod.mk.injEq] using cells
  have taken : word f (idle f i) dat = { (idle f i).pass .passOn dat with wrAdr := f.wrAdr, state := .cycHdr } := by
    rw [word, state]
    rfl
  rw [taken]
  exact ⟨effect_pass f i dat false f.wrAdr _ _ .cycHdr, records, rfl⟩

theorem cycHdr_step (state : f.state = .cycHdr) (aligned : Aligned f ((dat, c) :: rest)) :
    Effect f i c (word f (idle f i) dat) ∧ Aligned (word f (idle f i) dat) rest := by
  unfold Aligned at aligned
  rw [state] at aligned
  obtain ⟨records, cells⟩ := aligned
  cases records with
  | nil => simp at cells
  | cons r records =>
    obtain ⟨⟨rfl, rfl⟩, rfl⟩ : ((dat = fFormatRec r.hdr ∧ _) ∧ _) := by
      simpa only [List.flatMap_cons, Request.cells, List.cons_append, List.cons.injEq, Prod.mk.injEq] using cells
    obtain ⟨hdr, base, writes, ret, reads, wrCnt, rdCnt⟩ := r
    have noWrites := count_zero wrCnt
    have noReads := count_zero rdCnt
    have taken : word f (idle f i) (fFormatRec hdr) = cycHdrWord f (idle f i) (fFormatRec hdr) := by rw [word, state]
    rw [taken]
    cases writes with
    | cons first dats =>
      have some : hdr.wrCnt ≠ 0 := fun zero => List.cons_ne_nil _ _ (noWrites.mp zero)
      have entered : cycHdrWord f (idle f i) (fFormatRec hdr) = { (idle f i).pass .passOn 0 with
          rxRecHdr := hdr, txRecHdr := fReplyRec hdr, state := .wrAdr } := by
        simp only [cycHdrWord, fParseRec_format]
        rw [if_pos some]
        rfl
      rw [entered]
      refine ⟨effect_pass f i 0 hdr.dropCyc f.wrAdr _ _ .wrAdr, base, first, dats, ret, reads, records,
        wrCnt, rdCnt, rfl, ?_⟩
      simp only [writePart, List.isEmpty_cons, Bool.false_eq_true, if_false, List.cons_append, List.append_assoc]
    | nil =>
      have none : ¬hdr.wrCnt ≠ 0 := not_not.mpr (noWrites.mpr rfl)
      cases reads with
      | cons adr adrs =>
        have some : hdr.rdCnt ≠ 0 := fun zero => List.cons_ne_nil _ _ (noReads.mp zero)
        have entered : cycHdrWord f (idle f i) (fFormatRec hdr) =
          { (idle f i).pass .passOn (fFormatRec (fReplyRec hdr)) with
            rxRecHdr := hdr, txRecHdr := fReplyRec hdr, state := .rdAdr } := by
          simp only [cycHdrWord, fParseRec_format]
          rw [if_neg none, if_pos some]
          rfl
        rw [entered]
        exact ⟨effect_pass f i _ hdr.dropCyc f.wrAdr _ _ .rdAdr, ret, adr, adrs, records, rdCnt, rfl⟩
      | nil =>
        have empty : ¬hdr.rdCnt ≠ 0 := not_not.mpr (noReads.mpr rfl)
        have entered : cycHdrWord f (idle f i) (fFormatRec hdr) =
          { (idle f i).pass .passOn (fFormatRec (fReplyRec hdr)) with
            rxRecHdr := hdr, txRecHdr := fReplyRec hdr, masterCyc :=
              f.masterCyc && !hdr.dropCyc, state := .cycHdr } := by
          simp only [cycHdrWord, fParseRec_format]
          rw [if_neg none, if_neg empty]
          rfl
        rw [entered]
        refine ⟨⟨rfl, rfl, ⟨rfl, rfl⟩, rfl, rfl, rfl, (Bool.false_or _).symm, ?_, rfl⟩, records, rfl⟩
        intro access none
        cases none

theorem effect_answer (hdr : EbHdr) (state : StateRX) :
    Effect f i ⟨if hdr.noResponse then .skipTx else .passTx,
      if hdr.noResponse then none else some (fFormatEb (fReplyEb hdr)), none, false, false⟩
      { answerHdr (idle f i) hdr with state := state } := by
  unfold answerHdr
  cases hdr.noResponse with
  | true =>
    refine ⟨rfl, rfl, rfl, rfl, rfl, (Bool.or_false _).symm, (Bool.false_or _).symm, ?_, rfl⟩
    intro access none
    cases none
  | false =>
    refine ⟨rfl, rfl, ⟨rfl, rfl⟩, rfl, rfl, (Bool.or_false _).symm, (Bool.false_or _).symm, ?_, rfl⟩
    intro access none
    cases none

theorem ebHdr_step (state : f.state = .ebHdr) (aligned : Aligned f ((dat, c) :: rest)) :
    Effect f i c (word f (idle f i) dat) ∧ Aligned (word f (idle f i) dat) rest := by
  unfold Aligned at aligned
  rw [state] at aligned
  obtain ⟨p, cells⟩ := aligned
  obtain ⟨⟨rfl, rfl⟩, rfl⟩ : ((dat = fFormatEb p.hdr ∧ _) ∧ _) := by
    simpa only [Packet.cells, List.cons.injEq, Prod.mk.injEq] using cells
  cases probe : p.hdr.probe with
  | true =>
    have taken : word f (idle f i) (fFormatEb p.hdr) = { answerHdr (idle f i) p.hdr with state := .probeId } := by
      simp only [word, state, ebHdrWord, fParseEb_format]
      rw [if_pos ⟨p.magic, p.ver⟩, if_pos probe, if_pos (p.probes probe)]
    rw [taken]
    exact ⟨effect_answer p.hdr .probeId, p.probeId, p.records, rfl⟩
  | false =>
    have taken : word f (idle f i) (fFormatEb p.hdr) = { answerHdr (idle f i) p.hdr with state := .cycHdr } := by
      simp only [word, state, ebHdrWord, fParseEb_format]
      rw [if_pos ⟨p.magic, p.ver⟩, if_neg (by rw [probe]; decide), if_pos (Or.inl (p.sizes probe).1)]
    rw [taken]
    exact ⟨effect_answer p.hdr .cycHdr, p.records, rfl⟩

theorem word_step (aligned : Aligned f ((dat, c) :: rest)) :
    Effect f i c (word f (idle f i) dat) ∧ Aligned (word f (idle f i) dat) rest := by
  cases state : f.state with
  | ebHdr => exact ebHdr_step state aligned
  | probeId => exact probeId_step state aligned
  | cycHdr => exact cycHdr_step state aligned
  | wrAdr => exact wrAdr_step state aligned
  | write => exact write_step state aligned
  | rdAdr => exact rdAdr_step state aligned
  | read => exact read_step state aligned
  | probeDrop =>
    unfold Aligned at aligned
    rw [state] at aligned
    exact aligned.elim
  | drop =>
    unfold Aligned at aligned
    rw [state] at aligned
    exact aligned.elim

end BelProject.SlaveCore.Requests
