import BelProject.EbMaster.Sending

/-! The IP headers of the Etherbone master. The adder of the slave sums the constant fields and
the addresses; the length is known only when the packet is sent, and is added to that sum on the
way out. That last addition drops its carry. -/

namespace BelProject.EbMaster.HeaderSum
open BelProject.Library BelProject.SlaveCore.Checksum EthTx
open OnesComplement (total)
open Sending (pendingNext run sentAs)

/-- `t_sum_state`. -/
inductive SumState where
  | const | dstHi | dstLo | srcHi | srcLo | done
  deriving DecidableEq, Repr

variable {depth : Nat}

/-- The process `sum_header`. -/
def sumHeader (r : Registers depth) (s : Summer SumState) (i : Inputs) : Summer SumState :=
  let adder := s.adder.clock s.en s.data
  match s.state with
  | .const => ⟨if latches r i then .dstHi else .const, latches r i || s.en, constSum, adder⟩
  | .dstHi => ⟨.dstLo, s.en, r.ip.extractLsb' 16 16, adder⟩
  | .dstLo => ⟨.srcHi, s.en, r.ip.extractLsb' 0 16, adder⟩
  | .srcHi => ⟨.srcLo, s.en, i.myIp.extractLsb' 16 16, adder⟩
  | .srcLo => ⟨.done, s.en, i.myIp.extractLsb' 0 16, adder⟩
  | .done => ⟨.const, false, s.data, adder⟩

/-- The transmitter with its adder, and `my_ip_i` at the time the parameters were taken. -/
structure World (depth : Nat) where
  sending : Sending.World depth
  sum : Summer SumState
  own : BitVec 32

def start (ipTol udpLen : BitVec 16) (ram : Nat → BitVec 17) (rDat : BitVec 17) : World depth :=
  ⟨Sending.start ipTol udpLen ram rDat, ⟨.const, false, 0, .reset⟩, 0⟩

def fed (w : World depth) (i : Inputs) : Inputs := { i with sumDone := w.sum.adder.sumO }

def step (w : World depth) (i : Inputs) : World depth :=
  { sending := Sending.step w.sending (fed w i)
    sum := sumHeader w.sending.regs w.sum (fed w i)
    own := if w.sending.regs.ready then w.own else i.myIp }

def feeds : World depth → List Inputs → List Inputs
  | _, [] => []
  | w, i :: inputs => fed w i :: feeds (step w i) inputs

/-- The address of the master stays while a header with it is made. -/
def Steady (w : World depth) (i : Inputs) : Prop := w.sending.regs.ready = true → i.myIp = w.own

instance (w : World depth) (i : Inputs) : Decidable (Steady w i) :=
  inferInstanceAs (Decidable (w.sending.regs.ready = true → i.myIp = w.own))

theorem run_sending (w : World depth) (inputs : List Inputs) :
    (inputs.foldl step w).sending = run w.sending (feeds w inputs) := by
  induction inputs generalizing w with
  | nil => rfl
  | cons i inputs ih => exact ih (step w i)

/-- What a frame shows of its IP header: the addresses, the length and the check word. The sum
is right if nothing is carried when the length is added to the sum of the rest. -/
structure Header (frame : List (BitVec 16)) (tol chk : BitVec 16) (src dst : BitVec 32) : Prop where
  words : ipHeader frame = wordsOf (formatIp tol chk src dst)
  valid : Valid (ipHeader frame) ↔ (OnesComplement.sum (addressWords dst src)).toNat + tol.toNat < 2 ^ 16

variable {w : World depth} {r : Registers depth} {s : Summer SumState} {i : Inputs} {own : BitVec 32}

/-- How many words the adder has when the process is in a state. -/
def fedOf : SumState → Option Nat
  | .const => none
  | .dstHi => some 0
  | .dstLo => some 1
  | .srcHi => some 2
  | .srcLo => some 3
  | .done => some 4

theorem const_of_waiting {state : SumState} (waits : fedOf state = none) : state = .const := by
  cases state <;> first | rfl | cases waits

theorem sumHeader_follows (quiet : latches r i = false) (steady : i.myIp = own) :
    Follows fedOf (addressWords r.ip own) s (sumHeader r s i) := by
  cases state : s.state <;> simp only [sumHeader, state, quiet, steady, Bool.false_or, Bool.false_eq_true, if_false]
  all_goals
    refine ⟨rfl, fun k known inside => ?_, fun k known last => ?_, fun known => ?_⟩ <;> rw [state] at known <;>
    cases known <;> first | exact ⟨rfl, rfl, rfl⟩ | exact ⟨rfl, rfl⟩ | cases last | exact absurd inside (lt_irrefl 5)

/-- The header register: the length is missing, and the check word is the sum of the rest. -/
def Good (header : BitVec 160) : Prop :=
  ∃ dst src, header = fSendIp dst src 0 (OnesComplement.sum (addressWords dst src))

abbrev Carries : List (BitVec 16) → Prop := SlaveCore.Checksum.Carries Good

/-- What of the IP header is written in each state of the machine. -/
def Content (r : Registers depth) (packet : List (BitVec 16)) : Prop :=
  match r.state with
  | .ethernet => True
  | .ip => r.ready = true
  | .udp => r.ready = true ∧ ∃ header, Good header ∧ Heading packet r.shift header 9
  | .push =>
    r.staten = .ip ∧ r.ready = true ∨
      r.staten = .udp ∧ r.ready = true ∧ (∃ header sent, Good header ∧
        Heading packet r.shift header sent ∧ sent + r.count.toNat = 9) ∨
      r.staten = .done ∧ r.ready = true ∧ Carries packet ∨ r.staten = .lower ∧ Carries packet
  | .done => r.ready = true ∧ Carries packet
  | _ => Carries packet

theorem readyNext_high (ready : r.ready = true) (other : ¬(r.state = .done ∧ r.tx.full = false)) :
    readyNext r i = true := by
  rw [readyNext, if_neg other, ready, Bool.or_true]

theorem Content.stalled {v : Sending.World depth} (content : Content v.regs v.pending) (full : v.regs.tx.full = true)
    (stops : v.regs.state = .ip ∨ v.regs.state = .udp ∨ v.regs.state = .done ∨ v.regs.state = .runt ∨
      v.regs.state = .lower ∨
      v.regs.state = .push) : Content (clock v.regs i) (pendingNext v i) := by
  have same : hdr v.regs i = v.regs := by
    rcases stops with state | state | state | state | state | state <;> simp [hdr, state, full]
  have none : pendingNext v i = v.pending := by
    have quiet : bufPush v.regs i = false := by rw [bufPush, full, Bool.not_true, Bool.and_false]
    rcases stops with state | state | state | state | state | state <;> simp [pendingNext, state, quiet]
  have ready : v.regs.ready = true → (clock v.regs i).ready = true := fun ready =>
    readyNext_high ready fun both => absurd (full.symm.trans both.2) (by decide)
  have state : (clock v.regs i).state = v.regs.state := by rw [clock, same]
  have staten : (clock v.regs i).staten = v.regs.staten := by rw [clock, same]
  have count : (clock v.regs i).count = v.regs.count := by rw [clock, same]
  have shift : (clock v.regs i).shift = v.regs.shift := by rw [clock, same]
  rw [none]
  rw [Content] at content ⊢
  rw [state, staten, count, shift]
  cases place : v.regs.state <;> simp only [place] at content ⊢ <;> first
    | exact content
    | exact ready content
    | exact ⟨ready content.1, content.2⟩
    | exact content.imp (fun h => ⟨h.1, ready h.2⟩) (Or.imp (fun h => ⟨h.1, ready h.2.1, h.2.2⟩)
        (Or.imp (fun h => ⟨h.1, ready h.2.1, h.2.2⟩) id))

theorem Content.next {v : Sending.World depth} (content : Content v.regs v.pending)
    (stage : Sending.Stage v.regs v.pending.length)
    (room : v.regs.state = .commit → v.regs.tx.full = false)
    (header : v.regs.state = .ip → Good (fSendIp v.regs.ip i.myIp 0 i.sumDone)) :
    Content (clock v.regs i) (pendingNext v i) := by
  cases state : v.regs.state with
  | ethernet => cases ready : v.regs.ready <;> simp [Content, clock, hdr, state, readyNext, ready]
  | ip =>
    cases full : v.regs.tx.full with
    | true => exact content.stalled full (.inl state)
    | false =>
      simp only [Content, state] at content
      simp only [Sending.Stage, state] at stage
      obtain ⟨due, length⟩ := stage
      have longer : pendingNext v i = v.pending ++ [v.regs.shift.extractLsb' 144 16] := by
        simp [pendingNext, bufPush, bufStb, bufCyc, bufData, state, due, full]
      have seven : (v.pending ++ [v.regs.shift.extractLsb' 144 16]).length = 7 := by
        rw [List.length_append, length]
        rfl
      have count : (fStep ipLen).toNat = 9 := by decide
      rw [longer]
      simp only [Content, clock, hdr, state, full, Bool.not_false, if_true, count]
      exact .inr (.inl ⟨trivial, readyNext_high content (fun both =>
        State.noConfusion (state.symm.trans both.1)), _, 0, header state, heading_start seven _, rfl⟩)
  | udp =>
    cases full : v.regs.tx.full with
    | true => exact content.stalled full (.inr (.inl state))
    | false =>
      simp only [Content, state] at content
      simp only [Sending.Stage, state] at stage
      obtain ⟨ready, header, good, heading⟩ := content
      have longer : pendingNext v i = v.pending ++ [v.regs.shift.extractLsb' 144 16] := by
        simp [pendingNext, bufPush, bufStb, bufCyc, bufData, state, stage.1, full]
      rw [longer]
      simp only [Content, clock, hdr, state, full, Bool.not_false, if_true]
      exact .inr (.inr (.inl ⟨trivial, readyNext_high ready (fun both =>
        State.noConfusion (state.symm.trans both.1)), (heading.push (by decide)).carries good⟩))
  | done =>
    cases full : v.regs.tx.full with
    | true => exact content.stalled full (.inr (.inr (.inl state)))
    | false =>
      simp only [Content, state] at content
      simp only [Sending.Stage, state] at stage
      have more := content.2.append [v.regs.shift.extractLsb' 144 16]
      cases cyc : i.slave.cyc <;> cases skip : i.skipStb <;>
      simpa [Content, clock, hdr, state, pendingNext, bufPush, bufStb, bufCyc, bufData, stage.1, full,
        payloadNext, cyc, skip] using more
  | wait =>
    simp only [Content, state] at content
    simp only [Sending.Stage, state] at stage
    cases cyc : i.slave.cyc <;> cases skip : i.skipStb <;>
    simpa [Content, clock, hdr, state, pendingNext, bufPush, bufStb, stage.1, payloadNext, cyc, skip] using content
  | payload =>
    simp only [Content, state] at content
    have more := content.append [i.slave.dat]
    cases cyc : i.slave.cyc with
    | false =>
      by_cases short : inBytes v.regs < runtMin <;>
      simpa [Content, clock, hdr, state, pendingNext, bufPush, bufStb, cyc, short] using content
    | true =>
      cases push : bufPush v.regs i with
      | false => simpa [Content, clock, hdr, state, pendingNext, cyc, push] using content
      | true => simpa [Content, clock, hdr, state, pendingNext, bufCyc, bufData, cyc, push] using more
  | runt =>
    cases full : v.regs.tx.full with
    | true => exact content.stalled full (.inr (.inr (.inr (.inl state))))
    | false =>
      simp only [Content, state] at content
      simp only [Sending.Stage, state] at stage
      have more := content.append [v.regs.shift.extractLsb' 144 16]
      simpa [Content, clock, hdr, state, pendingNext, bufPush, bufStb, bufCyc, bufData, stage.1, full] using more
  | lower =>
    cases full : v.regs.tx.full with
    | true => exact content.stalled full (.inr (.inr (.inr (.inr (.inl state)))))
    | false =>
      simp only [Content, state] at content
      simpa [Content, clock, hdr, state, pendingNext, bufCyc, full] using content
  | commit => simp [Content, clock, hdr, state, room state]
  | skip => simp [Content, clock, hdr, state]
  | push =>
    cases full : v.regs.tx.full with
    | true => exact content.stalled full (.inr (.inr (.inr (.inr (.inr state)))))
    | false =>
      simp only [Content, state] at content
      simp only [Sending.Stage, state] at stage
      obtain ⟨due, counted⟩ := stage
      have longer : pendingNext v i = v.pending ++ [v.regs.shift.extractLsb' 144 16] := by
        simp [pendingNext, bufPush, bufStb, bufCyc, bufData, state, due, full]
      have same : (clock v.regs i).staten = v.regs.staten := by simp [clock, hdr, state, full]
      have less : (clock v.regs i).count = v.regs.count - 1 := by simp [clock, hdr, state, full]
      have shifted : (clock v.regs i).shift = v.regs.shift <<< 16 := by simp [clock, hdr, state, full]
      have ready : v.regs.ready = true → (clock v.regs i).ready = true := fun ready =>
        readyNext_high ready fun both => State.noConfusion (state.symm.trans both.1)
      have next : (clock v.regs i).state = if v.regs.count = 1 then v.regs.staten
        else .push := by simp [clock, hdr, state, full]
      rw [longer]
      split_ifs at next with last
      · have one : v.regs.count.toNat = 1 := by rw [last]; rfl
        rcases content with ⟨staten, set⟩ | ⟨staten, set, header, sent, good, heading,
          counts⟩ | ⟨staten, set, carries⟩ | ⟨staten, carries⟩
        · rw [staten] at next
          simp only [Content, next]
          exact ready set
        · rw [staten] at next
          have nine : sent + 1 = 9 := by omega
          simp only [Content, next, shifted]
          exact ⟨ready set, header, good, nine ▸ heading.push (by omega)⟩
        · rw [staten] at next
          simp only [Content, next]
          exact ⟨ready set, carries.append _⟩
        · rw [staten] at next
          simp only [Content, next]
          exact carries.append _
      · simp only [Content, next, same, less, shifted]
        rcases content with ⟨staten, set⟩ | ⟨staten, set, header, sent, good, heading,
          counts⟩ | ⟨staten, set, carries⟩ | ⟨staten, carries⟩
        · exact .inl ⟨staten, ready set⟩
        · have positive : 1 ≤ v.regs.count.toNat := by
            rcases counted with ⟨lower, _⟩ | ⟨_, _, positive, _⟩
            · rw [staten] at lower
              cases lower
            · exact positive
          obtain ⟨_, pred⟩ := count_pred positive last
          exact .inr (.inl ⟨staten, ready set, header, sent + 1, good, heading.push (by omega), by omega⟩)
        · exact .inr (.inr (.inl ⟨staten, ready set, carries.append _⟩))
        · exact .inr (.inr (.inr ⟨staten, carries.append _⟩))

def budget (r : Registers depth) : Nat :=
  match r.state with
  | .ip | .udp | .done => 0
  | .push =>
    match r.staten with
    | .ip => r.count.toNat
    | .udp | .done => 0
    | _ => 7
  | _ => 7

/-- The addresses that were taken are being added up, or were. -/
inductive SumInv (r : Registers depth) (s : Summer SumState) (own : BitVec 32) : Prop where
  | taken (ready : r.ready = true) (progress : Progress fedOf s (addressWords r.ip own) (budget r))
  | free (ready : r.ready = false) (waiting : Waiting fedOf s)

variable {v : Sending.World depth}

theorem budget_body (body : v.regs.state ∈ [.wait, .payload, .runt, .lower, .commit, .skip]) :
    budget (clock v.regs i) = 7 := by
  cases state : v.regs.state with
  | wait => cases cyc : i.slave.cyc <;> cases skip :
      i.skipStb <;> simp [budget, clock, hdr, state, payloadNext, cyc, skip]
  | payload =>
    cases cyc : i.slave.cyc with
    | false => by_cases short : inBytes v.regs < runtMin <;> simp [budget, clock, hdr, state, cyc, short]
    | true => simp [budget, clock, hdr, state, cyc]
  | runt => cases full : v.regs.tx.full <;> simp [budget, clock, hdr, state, full]
  | lower => cases full : v.regs.tx.full <;> simp [budget, clock, hdr, state, full]
  | commit => cases full : v.regs.tx.full <;> simp [budget, clock, hdr, state, full]
  | skip => simp [budget, clock, hdr, state]
  | ethernet | ip | udp | done | push => exact absurd (state ▸ body) (by decide)

theorem budget_clock (content : Content v.regs v.pending) (stage : Sending.Stage v.regs v.pending.length) :
    budget v.regs - 1 ≤ budget (clock v.regs i) := by
  cases state : v.regs.state with
  | ethernet => cases ready : v.regs.ready <;> simp [budget, clock, hdr, state, ready, fStep, ethLen]
  | ip => simp [budget, state]
  | udp => simp [budget, state]
  | done => simp [budget, state]
  | wait | payload | runt | lower | commit | skip =>
    rw [budget_body (by rw [state]; decide)]
    simp [budget, state]
  | push =>
    simp only [Content, state] at content
    simp only [Sending.Stage, state] at stage
    cases full : v.regs.tx.full with
    | true =>
      have same : budget (clock v.regs i) = budget v.regs := by simp [budget, clock, hdr, state, full]
      omega
    | false =>
      have next : (clock v.regs i).state = if v.regs.count = 1 then v.regs.staten
        else .push := by simp [clock, hdr, state, full]
      have target : (clock v.regs i).staten = v.regs.staten := by simp [clock, hdr, state, full]
      have less : (clock v.regs i).count = v.regs.count - 1 := by simp [clock, hdr, state, full]
      rcases content with ⟨staten, _⟩ | ⟨staten, _⟩ | ⟨staten, _⟩ | ⟨staten, _⟩
      · have positive : 1 ≤ v.regs.count.toNat := by
          rcases stage.2 with ⟨lower, _⟩ | ⟨_, _, positive, _⟩
          · rw [staten] at lower
            cases lower
          · exact positive
        by_cases last : v.regs.count = 1
        · have one : v.regs.count.toNat = 1 := by rw [last]; rfl
          simp [budget, state, staten, one]
        · obtain ⟨_, pred⟩ := count_pred positive last
          rw [if_neg last] at next
          simp only [budget, state, staten, next, target, less]
          omega
      · simp [budget, state, staten]
      · simp [budget, state, staten]
      · by_cases last : v.regs.count = 1
        · rw [if_pos last, staten] at next
          simp [budget, state, staten, next]
        · rw [if_neg last] at next
          simp [budget, state, staten, next, target]

theorem budget_late (content : Content v.regs v.pending) (ready : v.regs.ready = false) :
    budget (clock v.regs i) = 7 ∧ v.regs.state ≠ .done := by
  have set : v.regs.ready ≠ true := by rw [ready]; exact Bool.false_ne_true
  cases state : v.regs.state with
  | ethernet => simp [budget, clock, hdr, state, ready]
  | ip =>
    simp only [Content, state] at content
    exact absurd content set
  | udp =>
    simp only [Content, state] at content
    exact absurd content.1 set
  | done =>
    simp only [Content, state] at content
    exact absurd content.1 set
  | wait | payload | runt | lower | commit | skip => exact ⟨budget_body (by rw [state]; decide), by decide⟩
  | push =>
    simp only [Content, state] at content
    rcases content with ⟨_, taken⟩ | ⟨_, taken, _⟩ | ⟨_, taken, _⟩ | ⟨staten, _⟩
    · exact absurd taken set
    · exact absurd taken set
    · exact absurd taken set
    · cases full : v.regs.tx.full <;> by_cases last :
        v.regs.count = 1#5 <;> simp [budget, clock, hdr, state, full, staten, last]

theorem SumInv.next (sums : SumInv w.sending.regs w.sum w.own) (content : Content w.sending.regs w.sending.pending)
    (stage : Sending.Stage w.sending.regs w.sending.pending.length) (steady : Steady w i) :
    SumInv (step w i).sending.regs (step w i).sum (step w i).own := by
  have few : ∀ dst src, (addressWords dst src).length ≤ 2 ^ 12 := fun dst src => by
    show 5 ≤ _
    decide
  have regs : (step w i).sending.regs = clock w.sending.regs (fed w i) := rfl
  rw [regs]
  cases sums with
  | taken ready progress =>
    have quiet : latches w.sending.regs (fed w i) = false := by rw [latches, ready, Bool.not_true, Bool.and_false]
    have own : (step w i).own = w.own := if_pos ready
    have ip : (clock w.sending.regs (fed w i)).ip = w.sending.regs.ip :=
      if_neg (by rw [quiet]; exact Bool.false_ne_true)
    have next := progress.next (sumHeader_follows (s := w.sum) quiet (steady ready)) (few _ _)
    rw [own]
    by_cases spent : w.sending.regs.state = .done ∧ w.sending.regs.tx.full = false
    · have zero : budget w.sending.regs = 0 := by rw [budget, spent.1]
      rw [zero] at next
      have cleared : (clock w.sending.regs (fed w i)).ready = false := by rw [clock, readyNext, if_pos spent]
      exact .free cleared next.waiting.1
    · refine .taken (readyNext_high ready spent) ?_
      rw [ip]
      exact next.mono (budget_clock content stage)
  | free ready waiting =>
    obtain ⟨late, other⟩ := budget_late (i := fed w i) content ready
    have readyAfter : (clock w.sending.regs (fed w i)).ready = latches w.sending.regs (fed w i) := by
      rw [clock, readyNext, if_neg fun both => other both.1, ready, Bool.or_false]
    cases taken : latches w.sending.regs (fed w i) with
    | true =>
      have state : w.sum.state = .const := const_of_waiting waiting.state
      refine .taken (readyAfter.trans taken) ?_
      rw [late]
      refine Progress.mono (s := (step w i).sum) (waiting.start ?_ ?_ ?_ ?_) (Nat.le_succ 6)
      all_goals simp only [step, sumHeader, state, taken, Bool.true_or, if_true]
      all_goals rfl
    | false =>
      have same : (fed w i).myIp = (step w i).own := (if_neg (by rw [ready]; exact Bool.false_ne_true)).symm
      exact .free (readyAfter.trans taken) (waiting.next (sumHeader_follows taken same))

theorem SumInv.header (sums : SumInv w.sending.regs w.sum w.own)
    (content : Content w.sending.regs w.sending.pending) (steady : Steady w i)
    (state : w.sending.regs.state = .ip) : Good (fSendIp w.sending.regs.ip (fed w i).myIp 0 (fed w i).sumDone) := by
  simp only [Content, state] at content
  cases sums with
  | taken ready progress =>
    have zero : budget w.sending.regs = 0 := by rw [budget, state]
    rw [zero] at progress
    refine ⟨w.sending.regs.ip, i.myIp, ?_⟩
    show fSendIp w.sending.regs.ip i.myIp 0 w.sum.adder.sumO = _
    rw [progress.waiting.2.sumO, steady ready]
  | free ready waiting => exact absurd (ready.symm.trans content) Bool.false_ne_true

theorem Carries.sent {packet : List (BitVec 16)} (carries : Carries packet) :
    ∃ tol chk src dst, Header (sentAs packet) tol chk src dst := by
  obtain ⟨long, _, ⟨dst, src, rfl⟩, words⟩ := carries
  have fields := wordsOf_formatIp (0 + 20) (OnesComplement.sum (addressWords dst src)) src dst
  have split : packet = packet.take 7 ++ (ipHeader packet ++ packet.drop 17) := by
    have rest : packet.drop 17 = (packet.drop 7).drop 10 := by rw [List.drop_drop]
    rw [ipHeader, rest, List.take_append_drop, List.take_append_drop]
  have front : (packet.take 7).length = 7 := by rw [List.length_take]; omega
  have whole : ipHeader packet = _ := words.trans fields
  generalize tolIs : BitVec.ofNat 16 (2 * packet.length - 14) = tol
  have sent : ipHeader (sentAs packet) =
      wordsOf (formatIp tol (~~~(OnesComplement.sum (addressWords dst src) + tol)) src dst) := by
    rw [sentAs, tolIs]
    conv_lhs => rw [split, List.mapIdx_append, List.mapIdx_append, front, whole]
    rw [ipHeader, List.drop_append_of_le_length (by rw [List.length_mapIdx, front]), List.drop_of_length_le
      (by rw [List.length_mapIdx, front]), List.nil_append, List.take_append_of_le_length
      (by rw [List.length_mapIdx]; rfl),
      wordsOf_formatIp]
    rfl
  refine ⟨tol, _, src, dst, sent, ?_⟩
  rw [sent]
  exact OnesComplement.sum_complement_iff (by decide) (total_header _ _ _ _)

structure Inv (w : World depth) : Prop where
  sending : Sending.Inv w.sending
  content : Content w.sending.regs w.sending.pending
  sums : SumInv w.sending.regs w.sum w.own
  committed : ∀ packet ∈ w.sending.committed, Carries packet

theorem start_inv (ipTol udpLen : BitVec 16) (ram : Nat → BitVec 17) (rDat : BitVec 17) :
    Inv (start ipTol udpLen ram rDat : World depth) where
  sending := Sending.start_inv ipTol udpLen ram rDat
  content := trivial
  sums := .free rfl ⟨rfl, rfl, rfl⟩
  committed := fun _ listed => absurd listed List.not_mem_nil

theorem Inv.kept (inv : Inv w) (alone : Sending.Alone w.sending) (steady : Steady w i) : Inv (step w i) := by
  refine ⟨inv.sending.step alone, inv.content.next inv.sending.stage (fun commits => (alone commits).2)
    (fun state => inv.sums.header inv.content steady state), inv.sums.next inv.content inv.sending.stage steady, ?_⟩
  intro packet listed
  by_cases commits : w.sending.regs.state = .commit
  · have more : (step w i).sending.committed = w.sending.committed ++ [w.sending.pending] := if_pos commits
    rw [more] at listed
    rcases List.mem_append.mp listed with before | now
    · exact inv.committed packet before
    · obtain rfl := List.mem_singleton.mp now
      have content := inv.content
      simp only [Content, commits] at content
      exact content
  · have same : (step w i).sending.committed = w.sending.committed := if_neg commits
    rw [same] at listed
    exact inv.committed packet listed

theorem Inv.run {inputs : List Inputs} (inv : Inv w)
    (alone : Runs.Along Sending.step (fun w _ => Sending.Alone w) w.sending (feeds w inputs))
    (steady : Runs.Along step Steady w inputs) : Inv (inputs.foldl step w) := by
  induction inputs generalizing w with
  | nil => exact inv
  | cons i inputs ih => exact ih (inv.kept alone.1 steady.1) alone.2 steady.2

theorem Header.before {words frame : List (BitVec 16)} {tol chk : BitVec 16} {src dst : BitVec 32}
    (header : Header frame tol chk src dst)
    (before : words <+: frame) (long : 17 ≤ words.length) : Header words tol chk src dst := by
  obtain ⟨rest, rfl⟩ := before
  obtain ⟨whole, valid⟩ := header
  rw [ipHeader_append long] at whole valid
  exact ⟨whole, valid⟩

/-- In every run in which each commit finds the packets before it read and the address of the
master stays while a header with it is made, the IP header on the wire is valid exactly when
nothing is carried as the length is added to the sum of the other words. -/
theorem header_valid_iff (fits : depth ≤ 15) (ipTol udpLen : BitVec 16) (ram : Nat → BitVec 17)
    (rDat : BitVec 17) (inputs : List Inputs)
    (alone : Runs.Along Sending.step (fun w _ => Sending.Alone w)
      (Sending.start ipTol udpLen ram rDat : Sending.World depth)
      (feeds (start ipTol udpLen ram rDat : World depth) inputs))
    (steady : Runs.Along step Steady (start ipTol udpLen ram rDat : World depth) inputs) :
    ∀ frame ∈ (inputs.foldl step (start ipTol udpLen ram rDat : World depth)).sending.frames ++
        (inputs.foldl step (start ipTol udpLen ram rDat : World depth)).sending.current.toList,
      17 ≤ frame.length → ∃ tol chk src dst, Header frame tol chk src dst := by
  have inv : Inv (inputs.foldl step (start ipTol udpLen ram rDat : World depth)) :=
    (start_inv ipTol udpLen ram rDat).run alone steady
  have faithful := Sending.run_sends fits ipTol udpLen ram rDat
    (feeds (start ipTol udpLen ram rDat : World depth) inputs) alone
  have same : run (Sending.start ipTol udpLen ram rDat : Sending.World depth)
      (feeds (start ipTol udpLen ram rDat : World depth) inputs) =
        (inputs.foldl step (start ipTol udpLen ram rDat : World depth)).sending :=
    (run_sending (start ipTol udpLen ram rDat : World depth) inputs).symm
  have sent : ∀ frame ∈ (inputs.foldl step (start ipTol udpLen ram rDat : World depth)).sending.committed.map sentAs,
      ∃ tol chk src dst, Header frame tol chk src dst := by
    intro frame listed
    obtain ⟨packet, committed, rfl⟩ := List.mem_map.mp listed
    exact (inv.committed packet committed).sent
  have frames := faithful.frames
  have current := faithful.current
  rw [same] at frames current
  intro frame listed long
  rcases List.mem_append.mp listed with whole | onWire
  · exact sent frame (frames.subset whole)
  · obtain ⟨next, known, before⟩ := current frame (Option.mem_toList.mp onWire)
    obtain ⟨tol, chk, src, dst, header⟩ :=
      sent next (known.subset (List.mem_append_right _ (List.mem_singleton_self _)))
    exact ⟨tol, chk, src, dst, header.before before long⟩

def clockOf (myIp : BitVec 32) (params : Bool) (payload : Option (BitVec 16)) : Inputs :=
  { slave := ⟨payload.isSome, payload.isSome, payload.getD 0⟩, stall := false, stb := params,
    mac := 0x112233445566, ip := 0xc0a80001
    port := 0x0ebd, skipStb := false, myMac := 0x665544332211, myIp := myIp, myPort :=
      0xebd0, sumDone := 0, conflict := 0 }

def packetFrom (myIp : BitVec 32) : List Inputs :=
  List.replicate 2 (clockOf myIp true none) ++ List.replicate 36 (clockOf myIp false (some 0x4e6f)) ++
    List.replicate 90 (clockOf myIp false none)

/-- The header of a packet from 192.168.0.2. -/
theorem header_valid_iff_plain :
    ∃ tol chk src dst, Header (((packetFrom 0xc0a80002).foldl step
      (start 0 0 (fun _ => 0) 0 : World 7)).sending.frames.headD [])
      tol chk src dst :=
  @header_valid_iff 7 (by decide) 0 0 (fun _ => 0) 0 (packetFrom 0xc0a80002) (by decide +kernel) (by decide +kernel) _
    (List.mem_append_left _ (by decide +kernel)) (by decide +kernel)

/-- From 192.168.186.128 the sum over the constant fields and the addresses is 0xffe4, and the
length carries. -/
theorem header_carry_lost :
    Runs.Along Sending.step (fun w _ => Sending.Alone w) (Sending.start 0 0 (fun _ => 0) 0 : Sending.World 7)
        (feeds (start 0 0 (fun _ => 0) 0 : World 7) (packetFrom 0xc0a8ba80)) ∧
      Runs.Along step Steady (start 0 0 (fun _ => 0) 0 : World 7) (packetFrom 0xc0a8ba80) ∧
        ∃ frame ∈ ((packetFrom 0xc0a8ba80).foldl step (start 0 0 (fun _ => 0) 0 : World 7)).sending.frames,
          17 ≤ frame.length ∧ ¬Valid (ipHeader frame) :=
  ⟨by decide +kernel, by decide +kernel, by decide +kernel⟩

end BelProject.EbMaster.HeaderSum
