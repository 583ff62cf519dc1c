import Mathlib.Data.BitVec

/-! `SCU_Bus_Slave`: the bus is synchronised, the address and the data are latched at the falling
edges of the select line and of the data strobe, and the standard registers answer with `dtack`.
The interrupts, the power-up memory and the user registers are inputs. The master runs no timing
cycle, so the synchronised strobe for it stays high. -/

namespace BelProject.ScuBus.Slave

structure Generics where
  slaveId : BitVec 16
  firmwareVersion : BitVec 16
  firmwareRelease : BitVec 16
  cidSystem : BitVec 16
  cidGroup : BitVec 16
  versRevi : BitVec 16
  clkIn10kHz : BitVec 16
  intrEnable : BitVec 16
  /-- `C_Dtack_dly_cnt` -/
  dtackDlyCnt : Nat

structure Bus where
  addr : BitVec 16
  nSlaveSel : Bool
  nDS : Bool
  rdnwr : Bool

structure User where
  dataToScub : BitVec 16
  dtackToScub : Bool
  userReady : Bool
  extensionCidSystem : BitVec 16
  extensionCidGroup : BitVec 16
  intrIn : BitVec 15
  intrActive : BitVec 15
  powerupDone : Bool

/-- The registers. The older bit of a synchronisation stands first. `none` is high impedance. -/
structure Registers (g : Generics) where
  adrLA : BitVec 16
  nSyncBoardSel : Bool × Bool
  dataLA : BitVec 16
  nSyncDS : Bool × Bool
  echo : BitVec 16
  intrEnable : BitVec 15
  dtack : Bool
  readOut : Option (BitVec 16)
  dtackDly : BitVec (g.dtackDlyCnt + 1)

variable {g : Generics}

def reset (dtackDly : BitVec (g.dtackDlyCnt + 1)) : Registers g :=
  { adrLA := 0, nSyncBoardSel := (true, true), dataLA := 0, nSyncDS := (true, true), echo := 0
    intrEnable := g.intrEnable.extractLsb' 1 15, dtack := false, readOut := none, dtackDly := dtackDly }

/-- What an address of `P_Standard_Reg` is. -/
inductive StandardReg where
  | slaveId | fwVersion | fwRelease | cidSystem | cidGroup | versRevi | extensionCidSystem | extensionCidGroup | clkIn10kHz
  | echo | status | intrIn | intrEna | intrActive | free | others
  deriving DecidableEq, Repr

def standardReg (adr : BitVec 16) : StandardReg :=
  if adr = 0x01 then .slaveId
  else if adr = 0x02 then .fwVersion
  else if adr = 0x03 then .fwRelease
  else if adr = 0x04 then .cidSystem
  else if adr = 0x05 then .cidGroup
  else if adr = 0x06 then .versRevi
  else if adr = 0x07 then .extensionCidSystem
  else if adr = 0x08 then .extensionCidGroup
  else if adr = 0x09 then .clkIn10kHz
  else if adr = 0x10 then .echo
  else if adr = 0x11 then .status
  else if adr = 0x20 then .intrIn
  else if adr = 0x21 then .intrEna
  else if adr = 0x24 then .intrActive
  else if 0x0a ≤ adr ∧ adr ≤ 0x2f then .free
  else .others

section
variable (r : Registers g) (bus : Bus) (user : User)

def selected : Bool := r.nSyncBoardSel == (false, false)

/-- `S_nSync_DS = "00"`. -/
def dsLow : Bool := r.nSyncDS == (false, false)

/-- What a read of a standard register shows. Bit 0 of the interrupts is the power-up interrupt,
which is always enabled. -/
def value : StandardReg → Option (BitVec 16)
  | .slaveId => some g.slaveId
  | .fwVersion => some g.firmwareVersion
  | .fwRelease => some g.firmwareRelease
  | .cidSystem => some g.cidSystem
  | .cidGroup => some g.cidGroup
  | .versRevi => some g.versRevi
  | .extensionCidSystem => some user.extensionCidSystem
  | .extensionCidGroup => some user.extensionCidGroup
  | .clkIn10kHz => some g.clkIn10kHz
  | .echo => some r.echo
  | .status => some (0#12 ++ 0#1 ++ 0#1 ++ BitVec.ofBool user.userReady ++ BitVec.ofBool user.powerupDone)
  | .intrIn => some (user.intrIn ++ 0#1)
  | .intrEna => some (r.intrEnable ++ 1#1)
  | .intrActive => some (user.intrActive ++ BitVec.ofBool user.powerupDone)
  | .free | .others => none

def writable : StandardReg → Bool
  | .echo | .intrEna | .intrActive => true
  | _ => false

/-- The last stage of the delay for the user functions. -/
def dlyHigh : Bool := r.dtackDly.msb

/-- `S_SCUB_Dtack` after the clock. -/
def dtackNext : Bool :=
  match standardReg r.adrLA with
  | .free => false
  | .others => (if bus.rdnwr then user.dtackToScub else dsLow r) && dlyHigh r
  | reg => (bus.rdnwr || writable reg) && dsLow r

/-- `S_Read_Out` after the clock. -/
def readOutNext : Option (BitVec 16) :=
  if !bus.rdnwr then none
  else if standardReg r.adrLA = .others then (if user.dtackToScub then some user.dataToScub else none)
  else value r user (standardReg r.adrLA)

/-- The register that takes the latched data in this clock. -/
def stores : Option StandardReg :=
  if selected r && !bus.rdnwr && dsLow r && writable (standardReg r.adrLA) then some (standardReg r.adrLA) else none

def clock (data : BitVec 16) : Registers g :=
  { adrLA := if r.nSyncBoardSel == (true, false) then bus.addr else r.adrLA
    nSyncBoardSel := (r.nSyncBoardSel.2, bus.nSlaveSel)
    dataLA := if selected r && r.nSyncDS == (true, false) && !bus.rdnwr then data else r.dataLA
    nSyncDS := if selected r then (r.nSyncDS.2, bus.nDS) else (true, true)
    echo := if stores r bus = some .echo then r.dataLA else r.echo
    intrEnable := if stores r bus = some .intrEna then r.dataLA.extractLsb' 1 15 else r.intrEnable
    dtack := selected r && dtackNext r bus user
    readOut := if selected r then readOutNext r bus user else none
    dtackDly :=
      if selected r && standardReg r.adrLA ==
        .others then (r.dtackDly.setWidth g.dtackDlyCnt).concat user.dtackToScub else 0 }

/-- `nSCUB_Dtack_Opdrn`. -/
def nDtack : Bool := !(r.dtack && !bus.nSlaveSel)

end

/-- `P_Tri_Buff`: the slave drives the data bus. -/
def drives (bus : Bus) : Bool := !bus.nSlaveSel && bus.rdnwr && !bus.nDS

end BelProject.ScuBus.Slave
