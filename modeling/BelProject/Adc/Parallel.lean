import BelProject.Adc.Ad7606
import BelProject.Library.Runs

/-! The read over the parallel bus. The converter presents its next word at each falling edge of RD,
and the word is on the bus as soon as RD has been low for its time. -/

namespace BelProject.Adc.Parallel
open BelProject.Library Ad7606 Runs

/-- The converter: RD in the clock before and since when it is so, the word, and the words of a read
with the times of RD: low until each is latched, and high in front of each but the first. -/
structure Converter where
  rd : Bool
  held : ℕ
  word : BitVec 16
  words : List (BitVec 16)
  lows : List ℕ
  highs : List ℕ

structure World where
  regs : Registers
  converter : Converter

/-- The word that comes next, and what is on the bus while there is no word. -/
structure Ports where
  nrst : Bool
  syncRst : Bool
  transferMode : BitVec 2
  busy : Bool
  word : BitVec 16
  noise : BitVec 16

def Converter.follow (c : Converter) (nRd : Bool) (word : BitVec 16) : Converter :=
  if nRd = c.rd then { c with held := c.held + 1 }
  else if nRd then { c with rd := nRd, held := 1 }
  else { c with
    rd := nRd
    held := 1
    word := word
    words := c.words ++ [word]
    highs := if c.words = [] then c.highs else c.highs ++ [c.held] }

def Converter.bus (g : Generics) (c : Converter) (noise : BitVec 16) : BitVec 16 :=
  if c.rd = false ∧ g.Lasts c.held g.rdLowInNs then c.word else noise

/-- What is noted in a clock: a word that is latched, and the beginning of a read. -/
def Converter.note (c : Converter) (cycle : Cycle) : Converter :=
  if cycle.convState = .readPar then { c with words := [], lows := [], highs := [] }
  else if cycle.channelLatch then { c with lows := c.lows ++ [c.held] }
  else c

def step (g : Generics) (w : World) (i : Ports) : World :=
  let cycle := (settle w.regs i.nrst i.syncRst).cycle
  let converter := w.converter.follow cycle.nRd i.word
  { regs := clock g.constants w.regs ⟨i.nrst, i.syncRst, i.transferMode, i.busy, converter.bus g i.noise⟩
    converter := converter.note cycle }

def Completes (w : World) (i : Ports) : Prop :=
  (settle w.regs i.nrst i.syncRst).cycle.convState = .dataReady ∧ (settle w.regs i.nrst i.syncRst).cycle.channelCnt = 8

/-- What a data sheet asks of a read: eight pulses, the words in their order, and the times of RD. -/
structure ReadOut (g : Generics) (w : World) : Prop where
  eight : w.converter.words.length = 8
  stored : w.converter.words = (List.range 8).map w.regs.shift.shadowRegs
  lows : w.converter.lows.length = 8 ∧ ∀ n ∈ w.converter.lows, g.Lasts n g.rdLowInNs
  highs : w.converter.highs.length = 7 ∧ ∀ n ∈ w.converter.highs, g.Lasts n g.csHighInNs

/-- The logs with some words, of which some are stored. -/
structure Logged (g : Generics) (w : World) (p s : ℕ) : Prop where
  words : w.converter.words.length = p
  stored : w.converter.words.take s = (List.range s).map w.regs.shift.shadowRegs
  lows : w.converter.lows.length = s ∧ ∀ n ∈ w.converter.lows, g.Lasts n g.rdLowInNs
  highs : w.converter.highs.length = p - 1 ∧ ∀ n ∈ w.converter.highs, g.Lasts n g.csHighInNs

structure At (c : Cycle) (place : State) (cnt : ℕ) (latch nRd : Bool) (rdLow csHigh : ℕ) : Prop where
  state : c.convState = place
  channelCnt : c.channelCnt = cnt
  channelLatch : c.channelLatch = latch
  level : c.nRd = nRd
  waitRdLow : c.waitRdLow = rdLow
  waitCsHigh : c.waitCsHigh = csHigh
  released : place = State.waitRdLow ∨ place = State.waitCsHigh → c.parSerSel = false

/-- Where a read is, `k` being the words that are stored. -/
inductive Phase (g : Generics) (w : World) : Prop
  | elsewhere (nRd : Bool) (place : State) (other : place ∉ [State.readPar, .dataReady, .waitRdLow, .waitCsHigh])
      (stands : At w.regs.cycle place 0 false nRd 0 0)
  | starting (stands : At w.regs.cycle .readPar 0 false true 0 0)
  | between (k : ℕ) (few : k ≤ 8) (stands : At w.regs.cycle .dataReady k false true 0 0) (rd : w.converter.rd = true)
      (rested : 0 < k → w.converter.held = g.constants.waitCsHigh) (logged : Logged g w k k)
  | falling (k : ℕ) (few : k < 8) (stands : At w.regs.cycle .waitRdLow (k + 1) false false 0 0)
      (rd : w.converter.rd = true)
      (rested : 0 < k → w.converter.held = g.constants.waitCsHigh + 1) (logged : Logged g w k k)
  | low (k n : ℕ) (few : k < 8) (before : n < g.constants.waitRdLow)
      (stands : At w.regs.cycle .waitRdLow (k + 1) false false (n + 1) 0) (rd : w.converter.rd = false)
      (held : w.converter.held = n + 1)
      (last : w.converter.words.getLast? = some w.converter.word) (logged : Logged g w (k + 1) k)
  | latching (k : ℕ) (few : k < 8) (stands : At w.regs.cycle .waitCsHigh (k + 1) true false 0 0)
      (rd : w.converter.rd = false)
      (held : w.converter.held = g.constants.waitRdLow + 1) (last : w.converter.words.getLast? = some w.converter.word)
      (logged : Logged g w (k + 1) k)
  | rising (k : ℕ) (few : k < 8) (stands : At w.regs.cycle .waitCsHigh (k + 1) false true 0 1)
      (rd : w.converter.rd = false)
      (logged : Logged g w (k + 1) (k + 1))
  | high (k n : ℕ) (few : k < 8) (before : n + 1 < g.constants.waitCsHigh)
      (stands : At w.regs.cycle .waitCsHigh (k + 1) false true 0 (n + 2)) (rd : w.converter.rd = true)
      (held : w.converter.held = n + 1)
      (logged : Logged g w (k + 1) (k + 1))

section
variable {k : Constants} {c : Cycle} {sclk syncBusy2 nRd : Bool} {bitCount cnt n : ℕ}
  {transferMode : BitVec 2} {place : State}

theorem next_elsewhere (other : c.convState ∉ [State.readPar, .dataReady, .waitRdLow, .waitCsHigh]) :
    (convCycle k c sclk bitCount syncBusy2 transferMode).convState ∉
    [State.readPar, .dataReady, .waitRdLow, .waitCsHigh] ∨
      (convCycle k c sclk bitCount syncBusy2 transferMode).convState = .readPar ∧
        (convCycle k c sclk bitCount syncBusy2 transferMode).nRd = true := by
  cases place : c.convState <;> rw [place] at other <;> simp only [convCycle, place]
  case reset => exact .inl (by split <;> decide)
  case idle => exact .inl (by split <;> decide)
  case convTrigger => exact .inl (by decide)
  case convSt => exact .inl (by split <;> decide)
  case waitForBusy => exact .inl (by split <;> decide)
  case waitForConvFin =>
    split_ifs
    · exact .inl (by decide)
    · exact .inr ⟨rfl, trivial⟩
    · exact .inl (by decide)
    · exact .inl (by decide)
  case readSer => exact .inl (by split <;> decide)
  all_goals exact absurd (by decide) other

theorem kept_elsewhere (other : c.convState ∉ [State.readPar, .dataReady, .waitRdLow, .waitCsHigh]) :
    (convCycle k c sclk bitCount syncBusy2 transferMode).channelCnt = c.channelCnt ∧
      (convCycle k c sclk bitCount syncBusy2 transferMode).channelLatch = false ∧
      (convCycle k c sclk bitCount syncBusy2 transferMode).waitRdLow = c.waitRdLow ∧
      (convCycle k c sclk bitCount syncBusy2 transferMode).waitCsHigh = c.waitCsHigh := by
  cases place : c.convState <;> rw [place] at other <;> simp only [convCycle, place] <;>
    first | exact ⟨trivial, trivial, trivial, trivial⟩ | exact absurd (by decide) other

theorem At.elsewhere (other : place ∉ [State.readPar, .dataReady, .waitRdLow, .waitCsHigh])
    (stands : At c place 0 false nRd 0 0) :
    ∃ place' nRd', At (convCycle k c sclk bitCount syncBusy2 transferMode) place' 0 false nRd' 0 0 ∧
      (place' ∉ [State.readPar, .dataReady, .waitRdLow, .waitCsHigh] ∨ place' = .readPar ∧ nRd' = true) := by
  rw [← stands.state] at other
  have next := @next_elsewhere k c sclk syncBusy2 bitCount transferMode other
  obtain ⟨channelCnt, latch, rdLow, csHigh⟩ := @kept_elsewhere k c sclk syncBusy2 bitCount transferMode other
  refine ⟨_, _, ⟨rfl, channelCnt.trans stands.channelCnt, latch, rfl, rdLow.trans stands.waitRdLow,
    csHigh.trans stands.waitCsHigh,
    fun waits => ?_⟩, next⟩
  rcases next with away | ⟨reading, _⟩
  · rcases waits with waits | waits <;> exact absurd (by rw [waits]; decide) away
  · rcases waits with waits | waits <;> exact absurd (reading.symm.trans waits) (by decide)

theorem At.readPar (stands : At c .readPar 0 false true 0 0) :
    At (convCycle k c sclk bitCount syncBusy2 transferMode) .readPar 0 false true 0 0 ∨
      At (convCycle k c sclk bitCount syncBusy2 transferMode) .dataReady 0 false true 0 0 := by
  simp only [convCycle, stands.state]
  cases expired k.waitDReady c.waitDReady with
  | false => exact .inl ⟨rfl, stands.channelCnt, rfl, rfl, stands.waitRdLow, stands.waitCsHigh, fun _ => rfl⟩
  | true => exact .inr ⟨rfl, stands.channelCnt, rfl, rfl, stands.waitRdLow, stands.waitCsHigh, fun _ => rfl⟩

theorem At.dataReady (few : cnt < 8) (stands : At c .dataReady cnt false true 0 0) :
    At (convCycle k c sclk bitCount syncBusy2 transferMode) .waitRdLow (cnt + 1) false false 0 0 := by
  simp only [convCycle, stands.state, stands.channelCnt, if_pos few]
  exact ⟨rfl, rfl, rfl, rfl, stands.waitRdLow, stands.waitCsHigh, fun _ => rfl⟩

theorem At.finish (stands : At c .dataReady 8 false true 0 0) :
    At (convCycle k c sclk bitCount syncBusy2 transferMode) .idle 0 false true 0 0 := by
  simp only [convCycle, stands.state, stands.channelCnt, if_neg (lt_irrefl 8)]
  refine ⟨rfl, rfl, rfl, rfl, stands.waitRdLow, stands.waitCsHigh, fun _ => rfl⟩

theorem At.lowOn (before : n < k.waitRdLow) (stands : At c .waitRdLow cnt false false n 0) :
    At (convCycle k c sclk bitCount syncBusy2 transferMode) .waitRdLow cnt false false (n + 1) 0 := by
  obtain ⟨running, next⟩ := advance_of_lt before
  simp only [convCycle, stands.state, stands.waitRdLow, running, next]
  exact ⟨rfl, stands.channelCnt, rfl, rfl, rfl, stands.waitCsHigh, fun _ => rfl⟩

theorem At.latch (stands : At c .waitRdLow cnt false false k.waitRdLow 0) :
    At (convCycle k c sclk bitCount syncBusy2 transferMode) .waitCsHigh cnt true false 0 0 := by
  obtain ⟨last, next⟩ := advance_limit k.waitRdLow
  simp only [convCycle, stands.state, stands.waitRdLow, last, next]
  exact ⟨rfl, stands.channelCnt, rfl, rfl, rfl, stands.waitCsHigh, fun _ => rfl⟩

theorem At.highOn {latch : Bool} (before : n < k.waitCsHigh) (stands : At c .waitCsHigh cnt latch nRd 0 n) :
    At (convCycle k c sclk bitCount syncBusy2 transferMode) .waitCsHigh cnt false true 0 (n + 1) := by
  obtain ⟨running, next⟩ := advance_of_lt before
  simp only [convCycle, stands.state, stands.waitCsHigh, running, next]
  exact ⟨rfl, stands.channelCnt, rfl, rfl, stands.waitRdLow, rfl, fun _ => rfl⟩

theorem At.again {latch : Bool} (stands : At c .waitCsHigh cnt latch nRd 0 k.waitCsHigh) :
    At (convCycle k c sclk bitCount syncBusy2 transferMode) .dataReady cnt false true 0 0 := by
  obtain ⟨last, next⟩ := advance_limit k.waitCsHigh
  simp only [convCycle, stands.state, stands.waitCsHigh, last, next]
  exact ⟨rfl, stands.channelCnt, rfl, rfl, stands.waitRdLow, rfl, fun _ => rfl⟩

end

section
variable {g : Generics} {w : World} {i : Ports}

def Ports.Free (i : Ports) : Prop := i.nrst = true ∧ i.syncRst = false

theorem step_free (free : i.Free) :
    (step g w i).regs.cycle = convCycle g.constants w.regs.cycle w.regs.serial.sclk
      w.regs.shift.bitCount w.regs.syncBusy2 i.transferMode ∧
      (step g w i).converter = (w.converter.follow w.regs.cycle.nRd i.word).note w.regs.cycle ∧
      (step g w i).regs.shift = w.regs.shift.clock w.regs.cycle w.regs.serial.sclkEn
        (dbIn w.regs.cycle ((w.converter.follow w.regs.cycle.nRd i.word).bus g i.noise)) := by
  rw [step, settle_free free, clock_free]
  · exact ⟨rfl, rfl, rfl⟩
  · exact free

theorem step_reset (asserted : ¬i.Free) : (step g w i).regs.cycle = w.regs.cycle.cleared := clock_reset asserted

theorem shadow_quiet {s : Shift} {c : Cycle} {sclkEn : Bool} {db : BitVec 16} (other : c.convState ≠ .readSer)
    (quiet : c.channelLatch = false) : (s.clock c sclkEn db).shadowRegs = s.shadowRegs := by
  rw [Shift.clock, if_neg other, quiet]
  rfl

theorem shadow_latch {s : Shift} {c : Cycle} {sclkEn : Bool} {db : BitVec 16} (other : c.convState ≠ .readSer)
    (latch : c.channelLatch = true) : (s.clock c sclkEn db).shadowRegs = Function.update s.shadowRegs
    (c.channelCnt - 1) db := by
  rw [Shift.clock, if_neg other, latch]
  rfl

variable {word : BitVec 16}

theorem follow_same {c : Converter} {nRd : Bool} (same : nRd = c.rd) :
    c.follow nRd word = { c with held := c.held + 1 } := if_pos same

theorem follow_rise {c : Converter} (rd : c.rd = false) :
    c.follow true word = { c with rd := true, held := 1 } := by
  rw [Converter.follow, rd]
  rfl

theorem follow_fall {c : Converter} (rd : c.rd = true) : c.follow false word =
    { c with
      rd := false, held := 1, word := word, words := c.words ++ [word],
      highs := if c.words = [] then c.highs else c.highs ++ [c.held] } := by
  rw [Converter.follow, rd]
  rfl

theorem note_plain {c : Converter} {cycle : Cycle} (other : cycle.convState ≠ .readPar)
    (quiet : cycle.channelLatch = false) :
    c.note cycle = c := by
  rw [Converter.note, if_neg other, quiet]
  rfl

theorem Logged.keep {v : World} {p s : ℕ} (logged : Logged g w p s) (words : v.converter.words = w.converter.words)
    (lows : v.converter.lows = w.converter.lows) (highs : v.converter.highs = w.converter.highs)
    (shadow : v.regs.shift.shadowRegs = w.regs.shift.shadowRegs) : Logged g v p s :=
  ⟨by rw [words, logged.words], by rw [words, shadow, logged.stored], by rw [lows]; exact logged.lows,
    by rw [highs]; exact logged.highs⟩

section
variable (free : i.Free)
include free

theorem quiet_clock {place : State} {cnt rdLow csHigh : ℕ} {nRd : Bool}
    (stands : At w.regs.cycle place cnt false nRd rdLow csHigh) (reads : place ≠ .readPar)
    (parallel : place ≠ .readSer) :
    (step g w i).converter = w.converter.follow nRd i.word ∧
      (step g w i).regs.shift.shadowRegs = w.regs.shift.shadowRegs := by
  obtain ⟨-, converter, shift⟩ := step_free (g := g) (w := w) free
  rw [converter, shift, note_plain (stands.state ▸ reads) stands.channelLatch, stands.level,
    shadow_quiet (stands.state ▸ parallel) stands.channelLatch]
  exact ⟨rfl, rfl⟩

theorem starting_next (stands : At w.regs.cycle .readPar 0 false true 0 0) : Phase g (step g w i) := by
  obtain ⟨cycle, converter, -⟩ := step_free (g := g) (w := w) free
  rcases stands.readPar with waits | done
  · exact .starting (cycle ▸ waits)
  · have rd : (w.converter.follow true i.word).rd = true := by
      cases rd : w.converter.rd with
      | false => rw [follow_rise rd]
      | true => rw [follow_same rd.symm, rd]
    rw [Converter.note, if_pos stands.state, stands.level] at converter
    refine .between 0 (by decide) (cycle ▸ done) (converter ▸ rd) (fun never => absurd never (lt_irrefl 0)) ?_
    exact ⟨by rw [converter]; rfl, rfl, by rw [converter]; exact ⟨rfl, fun n none => absurd none List.not_mem_nil⟩,
      by rw [converter]; exact ⟨rfl, fun n none => absurd none List.not_mem_nil⟩⟩

theorem between_next {k : ℕ} (few : k ≤ 8) (stands : At w.regs.cycle .dataReady k false true 0 0)
    (rd : w.converter.rd = true) (rested : 0 < k → w.converter.held = g.constants.waitCsHigh)
    (logged : Logged g w k k) :
    Phase g (step g w i) := by
  obtain ⟨cycle, -, -⟩ := step_free (g := g) (w := w) free
  obtain ⟨converter, shadow⟩ := quiet_clock (g := g) free stands (by decide) (by decide)
  rw [follow_same rd.symm] at converter
  rcases few.lt_or_eq with more | rfl
  · refine .falling k more (cycle ▸ stands.dataReady more) (by rw [converter, rd]) (fun some => ?_) ?_
    · rw [converter, rested some]
    · exact logged.keep (by rw [converter]) (by rw [converter]) (by rw [converter]) shadow
  · exact .elsewhere true .idle (by decide) (cycle ▸ stands.finish)

theorem falling_next {k : ℕ} (few : k < 8) (stands : At w.regs.cycle .waitRdLow (k + 1) false false 0 0)
    (rd : w.converter.rd = true) (rested : 0 < k → w.converter.held = g.constants.waitCsHigh + 1)
    (logged : Logged g w k k) :
    Phase g (step g w i) := by
  obtain ⟨cycle, -, -⟩ := step_free (g := g) (w := w) free
  obtain ⟨converter, shadow⟩ := quiet_clock (g := g) free stands (by decide) (by decide)
  have rdPos : 0 < g.constants.waitRdLow := g.cycles_pos g.waits.2.2.1
  rw [follow_fall rd] at converter
  refine .low k 0 few rdPos (cycle ▸ stands.lowOn rdPos) (by rw [converter]) (by rw [converter])
    (by rw [converter]; exact List.getLast?_concat) ?_
  refine ⟨?_, ?_, ?_, ?_⟩
  · rw [converter, List.length_append, logged.words, List.length_singleton]
  · rw [converter, shadow, List.take_append_of_le_length logged.words.ge, logged.stored]
  · rw [converter]
    exact logged.lows
  · rw [converter]
    obtain ⟨count, all⟩ := logged.highs
    split_ifs with first
    · have none : k = 0 := by rw [← logged.words, first, List.length_nil]
      subst none
      exact ⟨count, all⟩
    · have some : 0 < k := by
        rw [← logged.words]
        exact List.length_pos_iff.mpr first
      refine ⟨by rw [List.length_append, count, List.length_singleton]; omega, fun n member => ?_⟩
      rcases List.mem_append.mp member with old | new
      · exact all n old
      · rw [List.mem_singleton.mp new, rested some]
        exact (g.lasts_cycles _).mono (Nat.le_succ _)

theorem low_next {k n : ℕ} (few : k < 8) (before : n < g.constants.waitRdLow)
    (stands : At w.regs.cycle .waitRdLow (k + 1) false false (n + 1) 0) (rd : w.converter.rd = false)
    (held : w.converter.held = n + 1)
    (last : w.converter.words.getLast? = some w.converter.word) (logged : Logged g w (k + 1) k) :
    Phase g (step g w i) := by
  obtain ⟨cycle, -, -⟩ := step_free (g := g) (w := w) free
  obtain ⟨converter, shadow⟩ := quiet_clock (g := g) free stands (by decide) (by decide)
  rw [follow_same rd.symm] at converter
  have kept : Logged g (step g w i) (k + 1) k :=
    logged.keep (by rw [converter]) (by rw [converter]) (by rw [converter]) shadow
  rcases (Nat.succ_le_of_lt before).lt_or_eq with more | done
  · exact .low k (n + 1) few more (cycle ▸ stands.lowOn more) (by rw [converter, rd])
      (by rw [converter, held]) (by rw [converter, last]) kept
  · have full : At w.regs.cycle .waitRdLow (k + 1) false false g.constants.waitRdLow 0 := done ▸ stands
    exact .latching k few (cycle ▸ full.latch) (by rw [converter, rd]) (by rw [converter, held, ← done])
      (by rw [converter, last]) kept

theorem latching_next {k : ℕ} (few : k < 8) (stands : At w.regs.cycle .waitCsHigh (k + 1) true false 0 0)
    (rd : w.converter.rd = false) (held : w.converter.held = g.constants.waitRdLow + 1)
    (last : w.converter.words.getLast? = some w.converter.word) (logged : Logged g w (k + 1) k) :
    Phase g (step g w i) := by
  obtain ⟨cycle, converter, shift⟩ := step_free (g := g) (w := w) free
  have csPos : 0 < g.constants.waitCsHigh := g.cycles_pos g.waits.2.1
  have long : g.Lasts (w.converter.held + 1) g.rdLowInNs :=
    (g.lasts_cycles _).mono (by rw [held]; exact Nat.le_add_right _ 2)
  rw [stands.level, follow_same rd.symm] at converter shift
  rw [Converter.note, if_neg (by rw [stands.state]; decide), stands.channelLatch, if_pos rfl] at converter
  have shadow : (step g w i).regs.shift.shadowRegs = Function.update w.regs.shift.shadowRegs k w.converter.word := by
    have bus : Converter.bus g { w.converter with held := w.converter.held + 1 } i.noise =
      w.converter.word := if_pos ⟨rd, long⟩
    rw [shift, shadow_latch (by rw [stands.state]; decide) stands.channelLatch, stands.channelCnt,
      Nat.add_sub_cancel, bus,
      dbIn, stands.released (.inr rfl), if_neg Bool.false_ne_true]
  refine .rising k few (cycle ▸ stands.highOn csPos) (by rw [converter, rd]) ?_
  refine ⟨?_, ?_, ?_, ?_⟩
  · rw [converter, logged.words]
  · obtain ⟨before, split⟩ := List.getLast?_eq_some_iff.mp last
    have length := logged.words
    have stored := logged.stored
    rw [split, List.length_append, List.length_singleton, Nat.add_right_cancel_iff] at length
    rw [split, List.take_left' length] at stored
    rw [converter, shadow, split, List.take_of_length_le
      (by rw [List.length_append, length, List.length_singleton]), List.range_succ,
      List.map_append, List.map_singleton, Function.update_self, stored]
    congr 1
    apply List.map_congr_left
    intro n inside
    exact (Function.update_of_ne (List.mem_range.mp inside).ne _ _).symm
  · rw [converter]
    refine ⟨by rw [List.length_append, logged.lows.1, List.length_singleton], fun n member => ?_⟩
    rcases List.mem_append.mp member with old | new
    · exact logged.lows.2 n old
    · rw [List.mem_singleton.mp new]
      exact long
  · rw [converter]
    exact logged.highs

theorem high_next {k n : ℕ} (few : k < 8) (before : n + 1 ≤ g.constants.waitCsHigh)
    (stands : At w.regs.cycle .waitCsHigh (k + 1) false true 0 (n + 1))
    (follows : w.converter.follow true i.word = { w.converter with rd := true, held := n + 1 })
    (logged : Logged g w (k + 1) (k + 1)) :
    Phase g (step g w i) := by
  obtain ⟨cycle, -, -⟩ := step_free (g := g) (w := w) free
  obtain ⟨converter, shadow⟩ := quiet_clock (g := g) free stands (by decide) (by decide)
  rw [follows] at converter
  have kept : Logged g (step g w i) (k + 1) (k + 1) :=
    logged.keep (by rw [converter]) (by rw [converter]) (by rw [converter]) shadow
  rcases before.lt_or_eq with more | done
  · exact .high k n few more (cycle ▸ stands.highOn more) (by rw [converter]) (by rw [converter]) kept
  · have full : At w.regs.cycle .waitCsHigh (k + 1) false true 0 g.constants.waitCsHigh := done ▸ stands
    exact .between (k + 1) few (cycle ▸ full.again) (by rw [converter]) (fun _ => by rw [converter, done]) kept

end

theorem Phase.next (phase : Phase g w) : Phase g (step g w i) := by
  by_cases free : i.Free
  · cases phase with
    | elsewhere nRd place other stands =>
      obtain ⟨cycle, -, -⟩ := step_free (g := g) (w := w) free
      obtain ⟨place', nRd', next, away | ⟨rfl, rfl⟩⟩ := stands.elsewhere other
      · exact .elsewhere nRd' place' away (cycle ▸ next)
      · exact .starting (cycle ▸ next)
    | starting stands => exact starting_next free stands
    | between k few stands rd rested logged => exact between_next free few stands rd rested logged
    | falling k few stands rd rested logged => exact falling_next free few stands rd rested logged
    | low k n few before stands rd held last logged => exact low_next free few before stands rd held last logged
    | latching k few stands rd held last logged => exact latching_next free few stands rd held last logged
    | rising k few stands rd logged => exact high_next free few (g.cycles_pos g.waits.2.1) stands (follow_rise rd) logged
    | high k n few before stands rd held logged =>
      exact high_next free few before stands (by rw [follow_same rd.symm, rd, held]) logged
  · exact .elsewhere true .reset (by decide) (step_reset (g := g) (w := w) free ▸
      ⟨rfl, rfl, rfl, rfl, rfl, rfl, fun _ => rfl⟩)

theorem Phase.readOut (phase : Phase g w) (completes : Completes w i) : ReadOut g (step g w i) := by
  obtain ⟨state, cnt⟩ := completes
  by_cases free : i.Free
  · rw [settle_free free] at state cnt
    cases phase with
    | between k few stands rd rested logged =>
      obtain ⟨converter, shadow⟩ := quiet_clock (g := g) free stands (by decide) (by decide)
      rw [follow_same rd.symm] at converter
      have all : k = 8 := stands.channelCnt.symm.trans cnt
      subst all
      obtain ⟨words, stored, lows, highs⟩ :=
        logged.keep (v := step g w i) (by rw [converter]) (by rw [converter]) (by rw [converter]) shadow
      rw [List.take_of_length_le words.le] at stored
      exact ⟨words, stored, lows, highs⟩
    | elsewhere nRd place other stands => exact absurd (by rw [← stands.state, state]; decide) other
    | starting stands => exact State.noConfusion (state.symm.trans stands.state)
    | falling k few stands rd rested logged => exact State.noConfusion (state.symm.trans stands.state)
    | low k n few before stands rd held last logged => exact State.noConfusion (state.symm.trans stands.state)
    | latching k few stands rd held last logged => exact State.noConfusion (state.symm.trans stands.state)
    | rising k few stands rd logged => exact State.noConfusion (state.symm.trans stands.state)
    | high k n few before stands rd held logged => exact State.noConfusion (state.symm.trans stands.state)
  · rw [settle_reset free] at state
    exact State.noConfusion state

end

def start (r : Registers) (c : Converter) : World := ⟨settle r false false, c⟩

/-- Every limit fits into its counter, and in every run each read that is completed has stored the
eight words in their order, with the times of RD that the data sheet asks for. -/
theorem parallel_readOut (g : Generics) (r : Registers) (c : Converter) (inputs : List Ports) :
    g.constants.Fits ∧ Along (step g) (fun w i => Completes w i → ReadOut g (step g w i)) (start r c) inputs := by
  refine ⟨g.constants.fits, ?_⟩
  apply (along_true (step g) (start r c) inputs).derive (Phase g)
  · exact .elsewhere true .reset (by decide) ⟨rfl, rfl, rfl, rfl, rfl, rfl, fun _ => rfl⟩
  · exact fun phase _ => phase.next
  · exact fun phase _ => phase.readOut

/-- The ports of a conversion, and those of a read with the clock as the word. -/
def conversion : List Ports :=
  List.replicate 310 ⟨true, false, 0, false, 0, 0⟩ ++ List.replicate 10 ⟨true, false, 0, true, 0, 0⟩ ++
    (List.range 60).map fun n => ⟨true, false, 0, false, BitVec.ofNat 16 n, 0⟩

-- with the default generics the read is over in this clock
example :
    let w := (conversion.take 373).foldl (step .defaults) (start .zero ⟨true, 0, 0, [], [], []⟩)
    w.regs.cycle.convState = .dataReady ∧ w.regs.cycle.channelCnt = 8 := by decide +kernel

end BelProject.Adc.Parallel
