import BelProject.SlaveCore.Fsm

/-! `eb_tx_mux`: the tags left by the state machine say, word by word, which FIFO the reply
comes from. A tag waits until its FIFOs have a word for it. -/

namespace BelProject.SlaveCore.TxMux
open Headers Fsm

structure Mux where
  skip : Bool
  txCyc : Bool
  txStb : Bool
  txDat : Word
  tagValid : Bool
  tagValue : Tag
  deriving DecidableEq

def reset : Mux := ⟨false, false, false, 0, false, .dropTx⟩

structure Inputs where
  tagDat : Tag
  tagEmpty : Bool
  passDat : Word
  passEmpty : Bool
  cfgDat : Word
  cfgEmpty : Bool
  wbmDat : Word
  wbmEmpty : Bool
  skipStall : Bool
  txStall : Bool

/-- `s_can_tx`. -/
def canTx (m : Mux) (i : Inputs) : Bool := !((m.txCyc && m.txStb && i.txStall) || (m.skip && i.skipStall))

/-- `s_dat_mux`; a don't-care for the two tags that send nothing. -/
def datMux (m : Mux) (i : Inputs) : Word :=
  match m.tagValue with
  | .cfgReq => i.cfgDat
  | .wbmReq => i.wbmDat
  | _ => i.passDat

/-- `s_tag_mux`: the tag has to wait. -/
def tagMux (m : Mux) (i : Inputs) : Bool :=
  match m.tagValue with
  | .passTx => i.passEmpty
  | .passOn => i.passEmpty
  | .cfgReq => i.cfgEmpty
  | .cfgIgn => i.passEmpty || i.cfgEmpty
  | .wbmReq => i.wbmEmpty
  | .wbmIgn => i.passEmpty || i.wbmEmpty
  | _ => false

def passMux (m : Mux) (i : Inputs) : Bool :=
  match m.tagValue with
  | .passTx => i.passEmpty
  | .passOn => i.passEmpty
  | .cfgIgn => i.passEmpty || i.cfgEmpty
  | .wbmIgn => i.passEmpty || i.wbmEmpty
  | _ => true

def cfgMux (m : Mux) (i : Inputs) : Bool :=
  match m.tagValue with
  | .cfgReq => i.cfgEmpty
  | .cfgIgn => i.passEmpty || i.cfgEmpty
  | _ => true

def wbmMux (m : Mux) (i : Inputs) : Bool :=
  match m.tagValue with
  | .wbmReq => i.wbmEmpty
  | .wbmIgn => i.passEmpty || i.wbmEmpty
  | _ => true

def passPop (m : Mux) (i : Inputs) : Bool := canTx m i && m.tagValid && !passMux m i

def cfgPop (m : Mux) (i : Inputs) : Bool := canTx m i && m.tagValid && !cfgMux m i

def wbmPop (m : Mux) (i : Inputs) : Bool := canTx m i && m.tagValid && !wbmMux m i

/-- `s_tag_pop`: the tag in the register is served in this clock. -/
def served (m : Mux) (i : Inputs) : Bool := canTx m i && m.tagValid && !tagMux m i

/-- `tag_pop_o`. -/
def tagPop (m : Mux) (i : Inputs) : Bool := !i.tagEmpty && (served m i || !m.tagValid)

def txCycNext (m : Mux) : Bool :=
  if m.tagValid then
    match m.tagValue with
    | .dropTx => false
    | .passTx => true
    | _ => m.txCyc
  else m.txCyc

/-- The processes `tx_out` and `tag_in`. -/
def clock (m : Mux) (i : Inputs) : Mux :=
  { skip := if canTx m i then m.tagValid && m.tagValue == .skipTx else m.skip
    txCyc := if canTx m i then txCycNext m else m.txCyc
    txStb := if canTx m i then !tagMux m i && m.tagValid else m.txStb
    txDat := if canTx m i then datMux m i else m.txDat
    tagValid := if served m i || !m.tagValid then !i.tagEmpty else m.tagValid
    tagValue := if served m i || !m.tagValid then i.tagDat else m.tagValue }

variable (m : Mux) (i : Inputs)

theorem tagMux_eq : tagMux m i = (usesPass m.tagValue && i.passEmpty || isCfg m.tagValue && i.cfgEmpty ||
    isWbm m.tagValue && i.wbmEmpty) := by
  unfold tagMux
  cases m.tagValue <;> simp [usesPass, isCfg, isWbm]

theorem passPop_eq : passPop m i = (served m i && usesPass m.tagValue) := by
  unfold passPop served passMux tagMux
  cases m.tagValue <;> simp [usesPass]

theorem cfgPop_eq : cfgPop m i = (served m i && isCfg m.tagValue) := by
  unfold cfgPop served cfgMux tagMux
  cases m.tagValue <;> simp [isCfg]

theorem wbmPop_eq : wbmPop m i = (served m i && isWbm m.tagValue) := by
  unfold wbmPop served wbmMux tagMux
  cases m.tagValue <;> simp [isWbm]

variable {m i}

theorem served_ready (done : served m i = true) :
    canTx m i = true ∧ m.tagValid = true ∧ (usesPass m.tagValue = true → i.passEmpty = false) ∧
      (isCfg m.tagValue = true → i.cfgEmpty = false) ∧ (isWbm m.tagValue = true → i.wbmEmpty = false) := by
  rw [served, Bool.and_eq_true, Bool.and_eq_true, Bool.not_eq_true', tagMux_eq, Bool.or_eq_false_iff,
    Bool.or_eq_false_iff] at done
  obtain ⟨⟨can, valid⟩, ⟨pass, cfg⟩, wbm⟩ := done
  refine ⟨can, valid, ?_, ?_, ?_⟩
  · intro uses
    rwa [uses, Bool.true_and] at pass
  · intro uses
    rwa [uses, Bool.true_and] at cfg
  · intro uses
    rwa [uses, Bool.true_and] at wbm

end BelProject.SlaveCore.TxMux
