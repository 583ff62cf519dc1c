import BelProject.ScuBus.Bridge
import BelProject.ScuBus.Slave

/-! `wb_scu_bus` and `SCU_Bus_Slave` in one slot of its bus, on one clock. Each reads what the other
drives; the data bus holds anything while nobody drives it. -/

namespace BelProject.ScuBus.Pair
open Master
open Bridge (Request requestOf)

/-- `wb.scubData` is the data bus while nobody drives it, `wb.nDtack` is not used. -/
structure Inputs where
  wb : Master.Inputs
  user : Slave.User

/-- Beside the registers: the accesses, and for each one that is answered the data that go with the
ack, or `none` for an err. -/
structure World (sg : Slave.Generics) where
  master : Registers
  slave : Slave.Registers sg
  accepted : List Request
  answers : List (Option (BitVec 16))

variable {g : Generics} {sg : Slave.Generics} (slot : Fin 12) (w : World sg) (i : Inputs)

def busOf : Slave.Bus :=
  { addr := w.master.scubAddr, nSlaveSel := !w.master.scubSel.getLsbD slot, nDS := !w.master.ds,
    rdnwr := w.master.rdnwr }

def scubData : BitVec 16 :=
  match scubDataOut w.master with
  | some dat => dat
  | none => if Slave.drives (busOf slot w) then w.slave.readOut.getD i.wb.scubData else i.wb.scubData

def masterIn : Master.Inputs :=
  { i.wb with nDtack := Slave.nDtack w.slave (busOf slot w), scubData := scubData slot w i }

def answerOf (r : Registers) : List (Option (BitVec 16)) :=
  (if r.ack then [some r.rdData] else []) ++ if r.err then [none] else []

def step (g : Generics) : World sg :=
  { master := clock g w.master (masterIn slot w i)
    slave := Slave.clock w.slave (busOf slot w) i.user (scubData slot w i)
    accepted := w.accepted ++ if accepts w.master i.wb then [requestOf i.wb] else []
    answers := w.answers ++ answerOf (clock g w.master (masterIn slot w i)) }

def run (g : Generics) (slot : Fin 12) (w : World sg) (inputs : List Inputs) : World sg :=
  inputs.foldl (fun w i => step slot w i g) w

def reset (g : Generics) (sg : Slave.Generics) (junk : Junk) (dtackDly : BitVec (sg.dtackDlyCnt + 1)) : World sg :=
  ⟨Master.start g junk, Slave.reset dtackDly, [], []⟩

def echoAdr : BitVec 16 := 0x10

def intrEnaAdr : BitVec 16 := 0x21

/-- A host that waits for its answer, and keeps the access on the bus until it comes. It only goes
to the two registers. -/
structure NonPipelined : Prop where
  kept : ∀ q ∈ w.accepted[w.answers.length]?, requestOf i.wb = q
  known : accepts w.master i.wb = true → (requestOf i.wb).slaveNr = BitVec.ofNat 4 (slot + 1) ∧
    ((requestOf i.wb).adr = echoAdr ∨ (requestOf i.wb).adr = intrEnaAdr)

def lastWritten (initial : BitVec 16) (adr : BitVec 16) (requests : List Request) : BitVec 16 :=
  requests.foldl (fun value q => if q.we ∧ q.adr = adr then q.dat else value) initial

def initial (sg : Slave.Generics) (adr : BitVec 16) : BitVec 16 := if adr = intrEnaAdr then sg.intrEnable else 0

def longest (g : Generics) : Nat := (g.selDly - 1) + max g.dValidToDS 2 + 12

/-- Every access is acknowledged in time and one after the other, a read with what `shown` makes of
the last value written to its register; and the two do not drive the data bus together. -/
structure Serves (shown : BitVec 16 → BitVec 16 → BitVec 16) (g : Generics) (slot : Fin 12)
    (w : World sg) (inputs : List Inputs) :
    Prop where
  acknowledged : ∀ answer ∈ (run g slot w inputs).answers, answer.isSome = true
  outstanding : (run g slot w inputs).answers.length ≤ (run g slot w inputs).accepted.length ∧
    (run g slot w inputs).accepted.length ≤ (run g slot w inputs).answers.length + 1
  inTime : ∀ past more, inputs = past ++ more → longest g ≤ more.length →
    (run g slot w past).accepted.length ≤ (run g slot w inputs).answers.length
  reads : ∀ k (q : Request) (dat : BitVec 16), (run g slot w inputs).accepted[k]? = some q → q.we = false →
    (run g slot w inputs).answers[k]? = some (some dat) →
    dat = shown q.adr (lastWritten (initial sg q.adr) q.adr ((run g slot w inputs).accepted.take k))
  apart : ¬(scubDataOut (run g slot w inputs).master ≠ none ∧ Slave.drives (busOf slot (run g slot w inputs)) = true)

abbrev Along (g : Generics) (slot : Fin 12) (condition : World sg → Inputs → Prop) : World sg → List Inputs → Prop :=
  Library.Runs.Along (fun w i => step slot w i g) condition

/-- Bit 0 of the interrupts is the power-up interrupt, which is always enabled. -/
def shown (adr value : BitVec 16) : BitVec 16 := if adr = intrEnaAdr then value ||| 1 else value

end BelProject.ScuBus.Pair
