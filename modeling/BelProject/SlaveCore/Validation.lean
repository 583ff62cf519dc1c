import BelProject.SlaveCore.Fsm

/-! The check of the packet header in `eb_slave_fsm`. A packet is refused by its first word, and
the drop state swallows whatever follows until the cycle line of RX falls. The two size
fields are compared with an `or`, so that one of them may name a port the core does not have. -/

namespace BelProject.SlaveCore.Validation
open Headers Fsm

def IsEtherbone (h : EbHdr) : Prop := h.magic = cEbMagic ∧ h.ver = cEbVer

instance (h : EbHdr) : Decidable (IsEtherbone h) := inferInstanceAs (Decidable (_ ∧ _))

def IsProbe (h : EbHdr) : Prop := IsEtherbone h ∧ h.probe = true

instance (h : EbHdr) : Decidable (IsProbe h) := inferInstanceAs (Decidable (_ ∧ _))

def IsSupported (h : EbHdr) : Prop := IsEtherbone h ∧ h.addrSize = 4 ∧ h.dataSize = 4

instance (h : EbHdr) : Decidable (IsSupported h) := inferInstanceAs (Decidable (_ ∧ _ ∧ _))

def HalfSupported (h : EbHdr) : Prop := IsEtherbone h ∧ (h.addrSize = 4 ↔ h.dataSize ≠ 4)

instance (h : EbHdr) : Decidable (HalfSupported h) := inferInstanceAs (Decidable (_ ∧ (_ ↔ _)))

def run (f : Registers) (inputs : List Inputs) : Registers := inputs.foldl clock f

def taken : Registers → List Inputs → List Word
  | _, [] => []
  | f, i :: inputs => (if takes f i then [i.rxDat] else []) ++ taken (clock f i) inputs

/-- This clock starts an operation on the bus or in the config space. -/
def issues (f : Registers) (i : Inputs) : Bool :=
  (clock f i).cfgStb || (clock f i).wbmStb || ((clock f i).masterStb && !(f.masterStb && i.masterStall))

/-- No clock of a run starts an operation. -/
def Quiet : Registers → List Inputs → Prop
  | _, [] => True
  | f, i :: inputs => issues f i = false ∧ Quiet (clock f i) inputs

/-- A packet from its first word on: the machine waits for a header and the cycle line stays up. -/
structure Receives (h : Word) (f : Registers) (inputs : List Inputs) : Prop where
  waiting : f.state = .ebHdr
  held : ∀ i ∈ inputs, i.rxCyc = true
  header : ∀ word ∈ (taken f inputs).head?, word = h

/-- Whatever follows this header, at any pace and after any packets, starts no operation. -/
def Refused (h : Word) : Prop := ∀ f inputs, Receives h f inputs → Quiet f inputs

variable {f : Registers}

theorem issues_idle {i : Inputs} (up : i.rxCyc = true) (still : takes f i = false) :
    issues f i = false ∧ (clock f i).state = f.state := by
  have same : clock f i = idle f i := by
    rw [takes, up, Bool.true_and] at still
    rw [clock, if_pos up, still, if_neg Bool.false_ne_true]
  rw [issues, same]
  refine ⟨?_, rfl⟩
  simp only [idle, Bool.false_or]
  cases f.masterStb <;> cases i.masterStall <;> rfl

theorem clock_taken {i : Inputs} (moves : takes f i = true) : clock f i = word f (idle f i) i.rxDat := by
  rw [takes, Bool.and_eq_true, Bool.and_eq_true] at moves
  obtain ⟨⟨up, offered⟩, free⟩ := moves
  rw [clock, if_pos up, if_pos (by rw [offered, free]; rfl)]

theorem issues_word {i : Inputs} (moves : takes f i = true) (header : f.state ≠ .write) (reads : f.state ≠ .read) :
    issues f i = false := by
  have strobes : (word f (idle f i) i.rxDat).cfgStb = false ∧ (word f (idle f i) i.rxDat).wbmStb = false ∧
      (word f (idle f i) i.rxDat).masterStb = (f.masterStb && i.masterStall) := by
    unfold word
    cases state : f.state with
    | write => exact absurd state header
    | read => exact absurd state reads
    | ebHdr =>
      dsimp only [ebHdrWord, answerHdr]
      split_ifs <;> exact ⟨rfl, rfl, rfl⟩
    | cycHdr =>
      dsimp only [cycHdrWord]
      split_ifs <;> exact ⟨rfl, rfl, rfl⟩
    | probeDrop => exact ⟨rfl, rfl, rfl⟩
    | probeId => exact ⟨rfl, rfl, rfl⟩
    | wrAdr => exact ⟨rfl, rfl, rfl⟩
    | rdAdr => exact ⟨rfl, rfl, rfl⟩
    | drop => exact ⟨rfl, rfl, rfl⟩
  obtain ⟨cfg, wbm, master⟩ := strobes
  rw [issues, clock_taken moves, cfg, wbm, master]
  cases f.masterStb && i.masterStall <;> rfl

theorem quiet_drop {inputs : List Inputs} (dropping : f.state = .drop) (held : ∀ i ∈ inputs, i.rxCyc = true) :
    Quiet f inputs := by
  induction inputs generalizing f with
  | nil => trivial
  | cons i inputs ih =>
    have up := held i List.mem_cons_self
    have later : ∀ i' ∈ inputs, i'.rxCyc = true := fun i' member => held i' (List.mem_cons_of_mem _ member)
    cases moves : takes f i with
    | false =>
      obtain ⟨silent, state⟩ := issues_idle up moves
      exact ⟨silent, ih (state.trans dropping) later⟩
    | true =>
      have silent := issues_word moves (by rw [dropping]; decide) (by rw [dropping]; decide)
      refine ⟨silent, ih ?_ later⟩
      rw [clock_taken moves, word, dropping]
      exact dropping

theorem ebHdrWord_state (d : Registers) (h : Word) (noProbe : ¬IsProbe (fParseEb h)) :
    (ebHdrWord d h).state =
      if IsEtherbone (fParseEb h) ∧ ((fParseEb h).addrSize = 4 ∨ (fParseEb h).dataSize = 4) then .cycHdr
        else .drop := by
  have answered : ∀ state, (answerHdr { d with state := state } (fParseEb h)).state = state := by
    intro state
    unfold answerHdr
    split <;> rfl
  unfold ebHdrWord
  by_cases etherbone : (fParseEb h).magic = cEbMagic ∧ (fParseEb h).ver = cEbVer
  · have flag : (fParseEb h).probe = false := by
      cases probe : (fParseEb h).probe with
      | false => rfl
      | true => exact absurd ⟨etherbone, probe⟩ noProbe
    have both : IsEtherbone (fParseEb h) := etherbone
    simp only [if_pos etherbone, flag, Bool.false_eq_true, if_false, both, true_and]
    split <;> rfl
  · have neither : ¬(IsEtherbone (fParseEb h) ∧ ((fParseEb h).addrSize = 4 ∨ (fParseEb h).dataSize = 4)) :=
      fun both => etherbone both.1
    rw [if_neg etherbone, if_neg neither]

theorem refused_of_not_half {h : Word} (noProbe : ¬IsProbe (fParseEb h)) (unsupported : ¬IsSupported (fParseEb h))
    (notHalf : ¬HalfSupported (fParseEb h)) : Refused h := by
  have dropped : ¬(IsEtherbone (fParseEb h) ∧ ((fParseEb h).addrSize = 4 ∨ (fParseEb h).dataSize = 4)) := by
    rintro ⟨etherbone, some⟩
    by_cases addr : (fParseEb h).addrSize = 4
    · by_cases data : (fParseEb h).dataSize = 4
      · exact unsupported ⟨etherbone, addr, data⟩
      · exact notHalf ⟨etherbone, fun _ => data, fun _ => addr⟩
    · have data := some.resolve_left addr
      exact notHalf ⟨etherbone, fun same => absurd same addr, fun other => absurd data other⟩
  intro f inputs receives
  obtain ⟨waiting, held, header⟩ := receives
  induction inputs generalizing f with
  | nil => trivial
  | cons i inputs ih =>
    have up := held i List.mem_cons_self
    have later : ∀ i' ∈ inputs, i'.rxCyc = true := fun i' member => held i' (List.mem_cons_of_mem _ member)
    cases moves : takes f i with
    | false =>
      obtain ⟨silent, state⟩ := issues_idle up moves
      refine ⟨silent, ih _ (state.trans waiting) later ?_⟩
      rw [taken, moves, if_neg Bool.false_ne_true] at header
      exact header
    | true =>
      have silent := issues_word moves (by rw [waiting]; decide) (by rw [waiting]; decide)
      rw [taken, moves, if_pos rfl] at header
      have first : i.rxDat = h := header i.rxDat rfl
      refine ⟨silent, quiet_drop ?_ later⟩
      rw [clock_taken moves, word, waiting, first, ebHdrWord_state _ h noProbe, if_neg dropped]

def offered (dat : Word) : Inputs := ⟨true, true, dat, false, false, false⟩

def writeRecord : List Word := [fFormatRec { cRecInit with sel := 0x0f, wrCnt := 1 }, 0x1000, 0xcafe]

/-- The machine behind an accepted header, with what the header left on the way to the transmitter. -/
def accepted (tag : Tag) (pass : Bool) (dat : Word) : Registers :=
  { reset with tagStb := true, tagDat := tag, passStb := pass, passDat := dat, rxCyc := true, state := .cycHdr }

theorem clock_accepted {h : Word} (noProbe : ¬IsProbe (fParseEb h)) (etherbone : IsEtherbone (fParseEb h))
    (some : (fParseEb h).addrSize = 4 ∨ (fParseEb h).dataSize = 4) :
    ∃ tag pass dat, clock reset (offered h) = accepted tag pass dat := by
  have flag : (fParseEb h).probe = false := by
    cases probe : (fParseEb h).probe with
    | false => rfl
    | true => exact absurd ⟨etherbone, probe⟩ noProbe
  have both : (fParseEb h).magic = cEbMagic ∧ (fParseEb h).ver = cEbVer := etherbone
  have moved : clock reset (offered h) = ebHdrWord (idle reset (offered h)) h := rfl
  rw [moved]
  simp only [ebHdrWord, if_pos both, flag, Bool.false_eq_true, if_false, if_pos some]
  cases quiet : (fParseEb h).noResponse with
  | true =>
    rw [answerHdr, quiet, if_pos rfl]
    exact ⟨.skipTx, false, 0, rfl⟩
  | false =>
    rw [answerHdr, quiet, if_neg Bool.false_ne_true]
    exact ⟨.passTx, true, _, rfl⟩

theorem not_quiet_accepted (tag : Tag) (pass : Bool) (dat : Word) :
    ¬Quiet (accepted tag pass dat) (writeRecord.map offered) := by
  rintro ⟨_, _, silent, _⟩
  cases silent

theorem not_refused_of_half {h : Word} (noProbe : ¬IsProbe (fParseEb h))
    (half : HalfSupported (fParseEb h)) : ¬Refused h := by
  have some : (fParseEb h).addrSize = 4 ∨ (fParseEb h).dataSize = 4 := by
    by_cases addr : (fParseEb h).addrSize = 4
    · exact Or.inl addr
    · by_cases data : (fParseEb h).dataSize = 4
      · exact Or.inr data
      · exact absurd (half.2.mpr data) addr
  obtain ⟨tag, pass, dat, after⟩ := clock_accepted noProbe half.1 some
  intro refused
  have quiet := refused reset ((h :: writeRecord).map offered)
    { waiting := rfl
      held := by
        intro i member
        obtain ⟨word, _, rfl⟩ := List.mem_map.mp member
        rfl
      header := by
        intro word first
        exact (Option.some.inj first).symm }
  have rest := quiet.2
  rw [after] at rest
  exact not_quiet_accepted tag pass dat rest

/-- A header that is no probe and not supported is refused unless one of its sizes is. -/
theorem header_refused_iff (h : Word) (noProbe : ¬IsProbe (fParseEb h)) (unsupported : ¬IsSupported (fParseEb h)) :
    Refused h ↔ ¬HalfSupported (fParseEb h) :=
  ⟨fun refused half => not_refused_of_half noProbe half refused, refused_of_not_half noProbe unsupported⟩

/-- Two bytes of address, four of data. -/
theorem header_refused_iff_narrow : Refused 0x4e6f1024 ↔ ¬HalfSupported (fParseEb 0x4e6f1024) :=
  header_refused_iff 0x4e6f1024 (by decide) (by decide)

/-- The header of a 16-bit address and 32-bit data port is let through. -/
theorem narrow_header_served : ¬IsProbe (fParseEb 0x4e6f1024) ∧ ¬IsSupported (fParseEb 0x4e6f1024) ∧
    ¬Refused 0x4e6f1024 :=
  ⟨by decide, by decide, not_refused_of_half (by decide) (by decide)⟩

end BelProject.SlaveCore.Validation
