import BelProject.Library.Runs
import BelProject.Ftm.PriorityQueue

/-! What the queue writes out. The machine of `data_out` copies the entry the heap presents once
the Etherbone master is set up, and shifts it out. In every clock the words written and the ones
still to go are those of the entries removed, provided that the machine takes each pop and that
the heap presents nothing else meanwhile. -/

namespace BelProject.Ftm.Emission
open Heap Library.Runs PriorityQueue

variable {g : Generics}

/-- The machine takes each pop at once, and the entry it has taken stays on the output of the
heap until it is copied. -/
structure Orderly (w : World g) (i : Inputs g) : Prop where
  taken : pop w i = true → w.out.state = .idle ∧ w.out.send = false ∧ rdy w = true
  kept : w.heap.wr.out = true → w.out.state ≠ .ebmChk ∧ (w.out.state = .ebmCfg → i.srcStall = false)

instance (w : World g) (i : Inputs g) : Decidable (Orderly w i) :=
  decidable_of_iff
    ((pop w i = true → w.out.state = .idle ∧ w.out.send = false ∧ rdy w = true) ∧
      (w.heap.wr.out = true → w.out.state ≠ .ebmChk ∧ (w.out.state = .ebmCfg → i.srcStall = false)))
    ⟨fun ⟨taken, kept⟩ => ⟨taken, kept⟩, fun ⟨taken, kept⟩ => ⟨taken, kept⟩⟩

def Resting (state : StateOut) : Prop := state ≠ .ebmChk ∧ state ≠ .ebmCfg ∧ state ≠ .shiftOut

instance (state : StateOut) : Decidable (Resting state) := inferInstanceAs (Decidable (_ ∧ _))

/-- The words of the shift register from the one at its top. -/
def shifted (vector : BitVec g.entryWidth) (count : Nat) : List (BitVec 32) :=
  (List.range count).map fun j => topWord (vector <<< (32 * j))

/-- The words of the entry taken that are not written yet. -/
def unsent (w : World g) : List (BitVec 32) :=
  match w.out.state with
  | .ebmChk | .ebmCfg => wordsOf w.out.regOut
  | .shiftOut => shifted w.out.sregOut (g.wordsPerEntry - w.out.soutCnt)
  | _ => []

def clocksLeft (w : World g) : Nat :=
  match w.out.state with
  | .ebmChk => g.wordsPerEntry + 2
  | .ebmCfg => g.wordsPerEntry + 1
  | .shiftOut => g.wordsPerEntry - w.out.soutCnt
  | _ => 0

theorem wordsPerEntry_pos (g : Generics) : 0 < g.wordsPerEntry := by
  have wide := g.key_wide
  have width : 64 ≤ g.entryWidth := wide.trans (Nat.le_add_right _ _)
  rw [Generics.wordsPerEntry]
  omega

theorem wordsOf_eq (entry : g.Data) : wordsOf entry = shifted (pack entry) g.wordsPerEntry := rfl

theorem shiftIn_zero (vector : BitVec g.entryWidth) : shiftIn vector 0 = vector <<< 32 := by
  have nothing : (0 : BitVec 32).setWidth g.entryWidth = 0#g.entryWidth := BitVec.setWidth_zero ..
  rw [shiftIn, nothing, BitVec.or_zero]

theorem shifted_succ (vector : BitVec g.entryWidth) (count : Nat) :
    shifted vector (count + 1) = topWord vector :: shifted (shiftIn vector 0) count := by
  have further : ∀ j, vector <<< (32 * (j + 1)) = vector <<< 32 <<< (32 * j) := by
    intro j
    rw [Nat.mul_succ, Nat.add_comm, BitVec.shiftLeft_add]
  rw [shifted, List.range_succ_eq_map, List.map_cons, List.map_map, Nat.mul_zero, BitVec.shiftLeft_zero,
    shifted, shiftIn_zero]
  apply congrArg
  apply List.map_congr_left
  intro j _
  rw [Function.comp_apply, Nat.succ_eq_add_one, further]

theorem shifted_length (vector : BitVec g.entryWidth) (count : Nat) : (shifted vector count).length = count := by
  rw [shifted, List.length_map, List.length_range]

/-- The strobes of the bus follow the state, the entry kept is the one shown, and the entries
removed are written except for the words to go. -/
structure Emitting (w : World g) : Prop where
  strobes : (w.out.cyc = true ∧ w.out.stb = true) ↔ (w.out.state ≠ .idle ∧ w.out.state ≠ .waitIdle)
  srcMux : w.out.cyc = true → (w.out.srcMux = true ↔ w.out.state = .shiftOut)
  counted : w.out.soutCnt < g.wordsPerEntry
  rewound : w.out.state ≠ .shiftOut → w.out.soutCnt = 0
  presented : w.out.dataOutRdy = true → w.out.regOut = w.heap.shown
  writer : w.heap.wr.out = true → w.heap.wr.busy = true
  words : w.removed.flatMap wordsOf = w.sent ++ unsent w
  fits : Resting w.out.state ∨ g.wordsPerEntry ≤ 16

theorem emitting_start (junk : Junk g) : Emitting (start junk) :=
  { strobes := by simp [start]
    srcMux := fun on => Bool.noConfusion on
    counted := wordsPerEntry_pos g
    rewound := fun _ => rfl
    presented := fun on => Bool.noConfusion on
    writer := fun on => Bool.noConfusion on
    words := rfl
    fits := Or.inl (by decide : Resting .idle) }

variable {w : World g} {i : Inputs g}

theorem writer_step : (step w i).heap.wr.out = true → (step w i).heap.wr.busy = true := by
  intro out
  have presenting : w.heap.wr.state = .setAdrLastCpy1st := of_decide_eq_true out
  show (Writer.nextState w.heap.wr _ != .idle) = true
  rw [Writer.nextState, presenting]
  rfl

theorem strobes_step :
    ((step w i).out.cyc = true ∧ (step w i).out.stb = true) ↔
    ((step w i).out.state ≠ .idle ∧ (step w i).out.state ≠ .waitIdle) := by
  show (((nextState w i != .idle && nextState w i != .waitIdle) = true) ∧
    ((nextState w i != .idle && nextState w i != .waitIdle) = true)) ↔
    (nextState w i ≠ .idle ∧ nextState w i ≠ .waitIdle)
  rw [and_self, Bool.and_eq_true, bne_iff_ne, bne_iff_ne]

theorem Emitting.popped (emitting : Emitting w) (pops : pop w i = true) (ready : rdy w = true) :
    w.heap.wr.out = false ∧ w.out.regOut = w.heap.shown := by
  have quiet : HeapTop.busy w.heap = false := by
    simp only [pop, Bool.and_eq_true, Bool.not_eq_true'] at pops
    exact pops.1.1.1.2
  have silent : w.heap.wr.out = false := by
    by_contra out
    have busy := emitting.writer (eq_true_of_ne_false out)
    rw [HeapTop.busy, busy, Bool.or_true] at quiet
    cases quiet
  constructor
  · exact silent
  · apply emitting.presented
    rwa [rdy, silent, Bool.false_or] at ready

theorem regOut_step : (step w i).out.regOut = if w.heap.wr.out then w.heap.wr.data else w.out.regOut := by
  show (dataOutMain w i).regOut = (dataOutDefault w).regOut
  unfold dataOutMain
  split
  · split
    · rfl
    · split <;> rfl
  · rfl
  · split <;> rfl
  · split
    · rfl
    · split <;> rfl
  · rfl
  · split <;> rfl
  · rfl

theorem dataOutRdy_step (ready : (step w i).out.dataOutRdy = true) : rdy w = true := by
  have main : (dataOutMain w i).dataOutRdy = rdy w ∨ (dataOutMain w i).dataOutRdy = w.heap.wr.out := by
    unfold dataOutMain
    split
    · split
      · exact Or.inl rfl
      · split <;> exact Or.inl rfl
    · exact Or.inl rfl
    · split
      · exact Or.inl rfl
      · exact Or.inr rfl
    · split
      · exact Or.inl rfl
      · split <;> exact Or.inl rfl
    · exact Or.inl rfl
    · split <;> exact Or.inl rfl
    · exact Or.inl rfl
  rcases main with same | fresh
  · exact same.symm.trans ready
  · rw [rdy, fresh.symm.trans ready, Bool.true_or]

theorem Emitting.presented_step (emitting : Emitting w) (ready : (step w i).out.dataOutRdy = true) :
    (step w i).out.regOut = (step w i).heap.shown := by
  have before := dataOutRdy_step ready
  rw [regOut_step]
  show _ = if w.heap.wr.out then w.heap.wr.data else w.heap.shown
  split
  · rfl
  · next silent =>
    apply emitting.presented
    rwa [rdy, eq_false_of_ne_true silent, Bool.false_or] at before

theorem soutCnt_shift (state : w.out.state = .shiftOut) (stall : i.srcStall = false) :
    (step w i).out.soutCnt = if lastWord w then 0 else (w.out.soutCnt + 1) % 16 := by
  show (dataOutMain w i).soutCnt = _
  simp only [dataOutMain, state, stall, Bool.false_eq_true, if_false]
  cases lastWord w <;> rfl

theorem soutCnt_still (still : w.out.state = .shiftOut → i.srcStall = true) :
    (step w i).out.soutCnt = w.out.soutCnt := by
  show (dataOutMain w i).soutCnt = (dataOutDefault w).soutCnt
  unfold dataOutMain
  split
  · split
    · rfl
    · split <;> rfl
  · rfl
  · split <;> rfl
  · next state => rw [if_pos (still state)]
  · rfl
  · split <;> rfl
  · rfl

theorem sregOut_shift (state : w.out.state = .shiftOut) (stall : i.srcStall = false) :
    (step w i).out.sregOut = shiftIn w.out.sregOut 0 := by
  show (dataOutMain w i).sregOut = _
  simp only [dataOutMain, state, stall, Bool.false_eq_true, if_false]
  cases lastWord w <;> rfl

theorem sregOut_copy (state : w.out.state = .ebmCfg) (stall : i.srcStall = false) :
    (step w i).out.sregOut = pack w.out.regOut := by
  show (dataOutMain w i).sregOut = _
  simp only [dataOutMain, state, stall, Bool.false_eq_true, if_false]

theorem sregOut_stalled (stall : i.srcStall = true) : (step w i).out.sregOut = w.out.sregOut := by
  show (dataOutMain w i).sregOut = (dataOutDefault w).sregOut
  unfold dataOutMain
  split
  · split
    · rfl
    · split <;> rfl
  · rfl
  · rw [if_pos stall]
  · rw [if_pos stall]
  · rfl
  · split <;> rfl
  · rfl

theorem Emitting.sent_step (emitting : Emitting w) :
    (step w i).sent = if w.out.state = .shiftOut ∧
      i.srcStall = false then w.sent ++ [topWord w.out.sregOut] else w.sent := by
  have strobes := emitting.strobes
  have srcMux := emitting.srcMux
  show (if w.out.srcMux && transfers w i then w.sent ++ [srcDat w] else w.sent) = _
  by_cases shifts : w.out.state = .shiftOut ∧ i.srcStall = false
  · rw [if_pos shifts]
    obtain ⟨state, stall⟩ := shifts
    obtain ⟨cyc, stb⟩ :=
      strobes.mpr ⟨by rw [state]; exact StateOut.noConfusion, by rw [state]; exact StateOut.noConfusion⟩
    have mux := (srcMux cyc).mpr state
    rw [transfers, cyc, stb, mux, stall, srcDat, mux, if_pos rfl]
    rfl
  · rw [if_neg shifts, if_neg]
    intro writes
    rw [transfers, Bool.and_eq_true, Bool.and_eq_true, Bool.and_eq_true, Bool.not_eq_true'] at writes
    exact shifts ⟨(srcMux writes.2.1.1).mp writes.1, writes.2.2⟩

theorem unsent_resting (resting : Resting w.out.state) : unsent w = [] := by
  unfold unsent
  split
  · next state => exact absurd state resting.1
  · next state => exact absurd state resting.2.1
  · next state => exact absurd state resting.2.2
  · rfl

theorem Emitting.words_takes (emitting : Emitting w) (orderly : Orderly w i) (pops : pop w i = true) :
    (step w i).removed.flatMap wordsOf = (step w i).sent ++ unsent (step w i) := by
  obtain ⟨state, noSend, ready⟩ := orderly.taken pops
  obtain ⟨silent, kept⟩ := emitting.popped pops ready
  have takes : takes w i = true := by rw [takes, noSend, pops, ready]; rfl
  have next : (step w i).out.state = .ebmChk := by
    show nextState w i = _
    simp only [nextState, state, noSend, takes, Bool.false_eq_true, if_false, if_true]
  have sent : (step w i).sent = w.sent := by
    rw [emitting.sent_step, if_neg]
    rintro ⟨other, _⟩
    exact StateOut.noConfusion (state.symm.trans other)
  have removed : (step w i).removed = w.removed ++ [w.heap.shown] := if_pos pops
  have before : unsent w = [] := by simp only [unsent, state]
  have after : unsent (step w i) = wordsOf w.heap.shown := by
    simp only [unsent, next]
    rw [regOut_step, silent, if_neg Bool.false_ne_true, kept]
  rw [removed, List.flatMap_append, List.flatMap_singleton, emitting.words, before, List.append_nil, sent, after]

theorem removed_still (noPop : pop w i = false) : (step w i).removed = w.removed :=
  if_neg (by rw [noPop]; exact Bool.false_ne_true)

theorem Emitting.small (emitting : Emitting w) (state : w.out.state = .shiftOut) : g.wordsPerEntry ≤ 16 :=
  emitting.fits.resolve_left fun resting => resting.2.2 state

theorem Emitting.words_shift (emitting : Emitting w) (state : w.out.state = .shiftOut)
    (stall : i.srcStall = false) : unsent w = topWord w.out.sregOut :: unsent (step w i) := by
  have counted := emitting.counted
  have fits := emitting.small state
  have before : unsent w = shifted w.out.sregOut (g.wordsPerEntry - w.out.soutCnt) := by simp only [unsent, state]
  have left : g.wordsPerEntry - w.out.soutCnt = g.wordsPerEntry - (w.out.soutCnt + 1) + 1 := by omega
  rw [before, left, shifted_succ]
  apply congrArg
  cases last : lastWord w with
  | true =>
    have count : w.out.soutCnt = g.wordsPerEntry - 1 := of_decide_eq_true last
    have none : g.wordsPerEntry - (w.out.soutCnt + 1) = 0 := by omega
    have next : (step w i).out.state = if w.out.send then .ebmFlush else .waitIdle := by
      show nextState w i = _
      simp only [nextState, state, stall, last, Bool.false_eq_true, if_false, if_true]
    rw [none]
    symm
    apply unsent_resting
    rw [next]
    cases w.out.send <;> decide
  | false =>
    have next : (step w i).out.state = .shiftOut := by
      show nextState w i = _
      simp only [nextState, state, stall, last, Bool.false_eq_true, if_false]
    have more : w.out.soutCnt ≠ g.wordsPerEntry - 1 := of_decide_eq_false last
    have count : (step w i).out.soutCnt = w.out.soutCnt + 1 := by
      rw [soutCnt_shift state stall, last, if_neg Bool.false_ne_true, Nat.mod_eq_of_lt (by omega)]
    simp only [unsent, next]
    rw [sregOut_shift state stall, count]

theorem resting_step (resting : Resting w.out.state) (noPop : pop w i = false) : Resting (step w i).out.state := by
  have idles : takes w i = false := by rw [takes, noPop, Bool.and_false, Bool.false_and]
  show Resting (nextState w i)
  unfold nextState
  split
  · rw [idles, if_neg Bool.false_ne_true]
    cases w.out.send <;> decide
  · next state => exact absurd state resting.1
  · next state => exact absurd state resting.2.1
  · next state => exact absurd state resting.2.2
  · split
    · decide
    · split <;> decide
  · split <;> decide
  · decide

section
variable (emitting : Emitting w)
include emitting

theorem Emitting.unsent_still (orderly : Orderly w i) (noPop : pop w i = false)
    (still : w.out.state = .shiftOut → i.srcStall = true) : unsent (step w i) = unsent w := by
  by_cases resting : Resting w.out.state
  · rw [unsent_resting resting, unsent_resting (resting_step resting noPop)]
  have next : (step w i).out.state = nextState w i := rfl
  cases state : w.out.state with
  | ebmChk =>
    have silent : w.heap.wr.out = false := eq_false_of_ne_true fun out => (orderly.kept out).1 state
    simp only [nextState, state] at next
    simp only [unsent, next, state]
    rw [regOut_step, silent, if_neg Bool.false_ne_true]
  | ebmCfg =>
    cases stall : i.srcStall with
    | true =>
      have silent : w.heap.wr.out = false :=
        eq_false_of_ne_true fun out => absurd (((orderly.kept out).2 state).symm.trans stall) Bool.false_ne_true
      simp only [nextState, state, stall, if_true] at next
      simp only [unsent, next, state]
      rw [regOut_step, silent, if_neg Bool.false_ne_true]
    | false =>
      have count : (step w i).out.soutCnt = 0 :=
        (soutCnt_still fun other => StateOut.noConfusion (state.symm.trans other)).trans
          (emitting.rewound (by rw [state]; exact StateOut.noConfusion))
      simp only [nextState, state, stall, Bool.false_eq_true, if_false] at next
      simp only [unsent, next, state]
      rw [sregOut_copy state stall, count, Nat.sub_zero, wordsOf_eq]
  | shiftOut =>
    have stall := still state
    simp only [nextState, state, stall, if_true] at next
    simp only [unsent, next, state]
    rw [sregOut_stalled stall, soutCnt_still still]
  | idle | waitIdle | ebmFlush | error =>
    rw [state] at resting
    exact absurd (by decide) resting

theorem Emitting.words_step (orderly : Orderly w i) :
    (step w i).removed.flatMap wordsOf = (step w i).sent ++ unsent (step w i) := by
  cases pops : pop w i with
  | true => exact emitting.words_takes orderly pops
  | false =>
    rw [removed_still pops, emitting.words, emitting.sent_step]
    by_cases shifts : w.out.state = .shiftOut ∧ i.srcStall = false
    · rw [if_pos shifts, emitting.words_shift shifts.1 shifts.2, List.append_assoc, List.singleton_append]
    · rw [if_neg shifts, emitting.unsent_still orderly pops]
      intro state
      by_contra stall
      exact shifts ⟨state, eq_false_of_ne_true stall⟩

theorem Emitting.counted_step :
    (step w i).out.soutCnt < g.wordsPerEntry ∧ ((step w i).out.state ≠ .shiftOut → (step w i).out.soutCnt = 0) := by
  have counted := emitting.counted
  by_cases shifts : w.out.state = .shiftOut ∧ i.srcStall = false
  · obtain ⟨state, stall⟩ := shifts
    have fits := emitting.small state
    rw [soutCnt_shift state stall]
    cases last : lastWord w with
    | true => exact ⟨wordsPerEntry_pos g, fun _ => rfl⟩
    | false =>
      have more : w.out.soutCnt ≠ g.wordsPerEntry - 1 := of_decide_eq_false last
      have next : (step w i).out.state = .shiftOut := by
        show nextState w i = _
        simp only [nextState, state, stall, last, Bool.false_eq_true, if_false]
      rw [if_neg Bool.false_ne_true, Nat.mod_eq_of_lt (by omega)]
      exact ⟨by omega, fun other => absurd next other⟩
  · have still : w.out.state = .shiftOut → i.srcStall = true := by
      intro state
      by_contra stall
      exact shifts ⟨state, eq_false_of_ne_true stall⟩
    rw [soutCnt_still still]
    refine ⟨counted, fun other => emitting.rewound fun state => other ?_⟩
    show nextState w i = _
    simp only [nextState, state, still state, if_true]

theorem Emitting.step (orderly : Orderly w i) (fits : pop w i = true → g.wordsPerEntry ≤ 16) :
    Emitting (PriorityQueue.step w i) := by
  obtain ⟨counted, rewound⟩ := emitting.counted_step (i := i)
  have small : Resting (PriorityQueue.step w i).out.state ∨ g.wordsPerEntry ≤ 16 := by
    cases pops : pop w i with
    | true => exact Or.inr (fits pops)
    | false => exact emitting.fits.imp_left fun resting => resting_step resting pops
  exact
    { strobes := strobes_step
      srcMux := fun _ => beq_iff_eq
      counted := counted
      rewound := rewound
      presented := emitting.presented_step
      writer := writer_step
      words := emitting.words_step orderly
      fits := small }

theorem Emitting.clocks_step (orderly : Orderly w i) (some : clocksLeft w ≠ 0) :
    pop w i = false ∧ clocksLeft (PriorityQueue.step w i) + (if i.srcStall then 0 else 1) ≤ clocksLeft w := by
  have next : (PriorityQueue.step w i).out.state = nextState w i := rfl
  have counted := emitting.counted
  have noPop : w.out.state ≠ .idle → pop w i = false := fun state => eq_false_of_ne_true fun pops =>
    state (orderly.taken pops).1
  cases state : w.out.state with
  | ebmChk =>
    simp only [nextState, state] at next
    simp only [clocksLeft, next, state]
    refine ⟨noPop (by rw [state]; exact StateOut.noConfusion), ?_⟩
    split <;> omega
  | ebmCfg =>
    refine ⟨noPop (by rw [state]; exact StateOut.noConfusion), ?_⟩
    cases stall : i.srcStall with
    | true =>
      simp only [nextState, state, stall, if_true] at next
      simp only [clocksLeft, next, state, if_true]
      omega
    | false =>
      have count : (PriorityQueue.step w i).out.soutCnt = 0 :=
        (soutCnt_still fun other => StateOut.noConfusion (state.symm.trans other)).trans
          (emitting.rewound (by rw [state]; exact StateOut.noConfusion))
      simp only [nextState, state, stall, Bool.false_eq_true, if_false] at next
      simp only [clocksLeft, next, state, count, Bool.false_eq_true, if_false]
      omega
  | shiftOut =>
    refine ⟨noPop (by rw [state]; exact StateOut.noConfusion), ?_⟩
    cases stall : i.srcStall with
    | true =>
      simp only [nextState, state, stall, if_true] at next
      simp only [clocksLeft, next, state, if_true, Nat.add_zero]
      rw [soutCnt_still fun _ => stall]
    | false =>
      cases last : lastWord w with
      | true =>
        simp only [nextState, state, stall, last, Bool.false_eq_true, if_false, if_true] at next
        simp only [clocksLeft, next, state, Bool.false_eq_true, if_false]
        cases w.out.send <;> simp only [Bool.false_eq_true, if_false, if_true] <;> omega
      | false =>
        have fits := emitting.small state
        have more : w.out.soutCnt ≠ g.wordsPerEntry - 1 := of_decide_eq_false last
        simp only [nextState, state, stall, last, Bool.false_eq_true, if_false] at next
        simp only [clocksLeft, next, state, Bool.false_eq_true, if_false]
        rw [soutCnt_shift state stall, last, if_neg Bool.false_ne_true, Nat.mod_eq_of_lt (by omega)]
        omega
  | idle | waitIdle | ebmFlush | error =>
    simp only [clocksLeft, state, ne_eq, not_true_eq_false] at some

end

theorem unsent_length : (unsent w).length ≤ g.wordsPerEntry ∧ (unsent w).length ≤ clocksLeft w := by
  have words (entry : g.Data) : (wordsOf entry).length = g.wordsPerEntry := shifted_length (pack entry) g.wordsPerEntry
  unfold unsent clocksLeft
  split
  · rw [words]
    exact ⟨le_rfl, Nat.le_add_right _ _⟩
  · rw [words]
    exact ⟨le_rfl, Nat.le_add_right _ _⟩
  · rw [shifted_length]
    exact ⟨Nat.sub_le _ _, le_rfl⟩
  · exact ⟨Nat.zero_le _, Nat.zero_le _⟩

theorem clocksLeft_le : clocksLeft w ≤ g.wordsPerEntry + 2 := by
  unfold clocksLeft
  split <;> omega

theorem sent_grows (inputs : List (Inputs g)) : w.sent <+: (run w inputs).sent := by
  induction inputs generalizing w with
  | nil => exact List.prefix_rfl
  | cons i inputs ih =>
    have here : w.sent <+: (step w i).sent := by
      show w.sent <+: if w.out.srcMux && transfers w i then w.sent ++ [srcDat w] else w.sent
      split
      · exact List.prefix_append _ _
      · exact List.prefix_rfl
    exact here.trans ih

/-- With entries of more words than the count of `data_in` can tell nothing is ever pushed. -/
structure Dry (w : World g) : Prop where
  long : 16 < g.wordsPerEntry
  noPush : w.input.push = false
  counted : w.input.sinCnt < 16
  idle : w.heap.pf.state = .idle
  empty : w.heap.pf.last = 0

theorem Dry.noPop (dry : Dry w) : pop w i = false := by
  have empty : HeapTop.emptyOut w.heap = true := by rw [HeapTop.emptyOut, Pathfinder.empty, dry.empty]; rfl
  rw [pop, empty, Bool.not_true, Bool.and_false, Bool.false_and]

theorem Dry.step (dry : Dry w) : Dry (PriorityQueue.step w i) := by
  have long := dry.long
  have counted := dry.counted
  have push : HeapTop.push w.heap (event w i) = false := by rw [HeapTop.push, event, dry.noPush, Bool.false_and]
  have noPop : HeapTop.pop w.heap (event w i) = false := by rw [HeapTop.pop, event, dry.noPop, Bool.false_and]
  obtain ⟨idle, _, _, last, _⟩ := Queue.idle_registers (w := g.idxWidth) dry.idle push noPop
  have input : (dataIn w i).push = false ∧ (dataIn w i).sinCnt < 16 := by
    have early : ¬w.input.sinCnt = g.wordsPerEntry - 1 := by omega
    simp only [dataIn, if_neg early, decide_eq_false early]
    split
    · split
      · split
        · exact ⟨rfl, Nat.mod_lt _ (Nat.succ_pos 15)⟩
        · exact ⟨rfl, counted⟩
      · exact ⟨rfl, counted⟩
    · exact ⟨rfl, counted⟩
  exact ⟨long, input.1, input.2, idle, last.trans dry.empty⟩

def Fits (w : World g) : Prop := g.wordsPerEntry ≤ 16 ∨ Dry w

theorem fits_start (junk : Junk g) : Fits (start junk) := by
  rcases Nat.lt_or_ge 16 g.wordsPerEntry with long | short
  · exact Or.inr ⟨long, rfl, (by decide : 0 < 16), rfl, rfl⟩
  · exact Or.inl short

theorem Fits.step (fits : Fits w) : Fits (PriorityQueue.step w i) := fits.imp_right Dry.step

theorem Fits.popped (fits : Fits w) (pops : pop w i = true) : g.wordsPerEntry ≤ 16 :=
  fits.resolve_right fun dry => Bool.noConfusion (dry.noPop.symm.trans pops)

theorem Emitting.completes {inputs : List (Inputs g)} (emitting : Emitting w) (fits : Fits w)
    (along : Along PriorityQueue.step Orderly w inputs) (enough : clocksLeft w ≤ inputs.countP fun i => !i.srcStall) :
    w.removed.flatMap wordsOf <+: (run w inputs).sent := by
  induction inputs generalizing w with
  | nil =>
    have none := unsent_length.2.trans enough
    rw [List.countP_nil, Nat.le_zero, List.length_eq_zero_iff] at none
    rw [emitting.words, none, List.append_nil]
    exact List.prefix_rfl
  | cons i inputs ih =>
    obtain ⟨orderly, along⟩ := along
    by_cases done : clocksLeft w = 0
    · have none := unsent_length (w := w).2
      rw [done, Nat.le_zero, List.length_eq_zero_iff] at none
      rw [emitting.words, none, List.append_nil]
      exact sent_grows _
    · obtain ⟨noPop, fewer⟩ := emitting.clocks_step orderly done
      rw [← removed_still noPop]
      apply ih (emitting.step orderly fits.popped) fits.step along
      rw [List.countP_cons] at enough
      cases stall : i.srcStall <;> simp only [stall, Bool.not_true, Bool.not_false, Bool.false_eq_true,
        if_true, if_false] at enough fewer <;> omega

/-- The words written are those of the entries removed, in the order of removal; at most words
of the last entry are missing, and none when no entry is on its way. -/
def Faithful (w : World g) : Prop :=
  ∃ missing, w.removed.flatMap wordsOf = w.sent ++ missing ∧ missing.length ≤ g.wordsPerEntry ∧
    (Resting w.out.state → missing = [])

/-- In every run whose clocks are orderly the queue writes out exactly the entries removed, and
what is missing follows as soon as the source bus takes it. -/
theorem entries_sent (junk : Junk g) (before after : List (Inputs g))
    (along : Along PriorityQueue.step Orderly (start junk) (before ++ after)) :
    Faithful (run (start junk) before) ∧
      (g.wordsPerEntry + 2 ≤ (after.countP fun i => !i.srcStall) →
        (run (start junk) before).removed.flatMap wordsOf <+: (run (start junk) (before ++ after)).sent) := by
  obtain ⟨first, second⟩ := along_append.mp along
  have both : Emitting (run (start junk) before) ∧ Fits (run (start junk) before) :=
    first.invariant (fun w => Emitting w ∧ Fits w) ⟨emitting_start junk, fits_start junk⟩
      fun ⟨emitting, fits⟩ orderly => ⟨emitting.step orderly fits.popped, fits.step⟩
  obtain ⟨emitting, fits⟩ := both
  constructor
  · exact ⟨unsent _, emitting.words, unsent_length.1, unsent_resting⟩
  · intro enough
    have joined : run (start junk) (before ++ after) = run (run (start junk) before) after := List.foldl_append
    rw [joined]
    exact emitting.completes fits second (clocksLeft_le.trans enough)

def small : Generics := ⟨2, 64, 0, by decide, by decide⟩

def blank : small.Data := ⟨0, 0⟩

def junk : Junk small :=
  { heap :=
      { ram0 := fun _ => 0, ram1 := fun _ => 0, ram := fun _ => blank, qa0 := 0, qa1 := 0,
        rdVal := blank, entry := blank
        idx := 0, posFound := false, rdAdrMode := .inp, fin0 := false, fin1 := false, fin2 := false, en0 := false
        en1 := false, busy := false }
    fsmStall := false, snkAck := false, snkErr := false, srcMux := false, commandOut := 0, sregOut := 0
    regOut := blank, due1 := false, send1 := false, packetNotEmpty := false }

def wait : Inputs small :=
  { control :=
      { ena := true, autopop := false, autoflushTime := false, autoflushMsgs := false, forcePop := false
        forceFlush := false, dbg := false, msgMax := 0, tTrn := 0, tDue := 0, ebmAdr := 0, dstAdr := 0 }
    time := 0, snk := ⟨false, false, false, 0, 0⟩, srcAck := false, srcStall := false
    clash0 := 0, clash1 := 0, undriven := 0, clash := blank }

def word (dat : BitVec 32) : Inputs small := { wait with snk := ⟨true, true, true, 15, dat⟩ }

def insert (key : BitVec 32) : List (Inputs small) := word 0 :: word key :: List.replicate 14 wait

def forcePop : Inputs small := { wait with control := { wait.control with forcePop := true } }

def popStalled (clocks : Nat) : List (Inputs small) :=
  insert 5 ++ insert 9 ++ forcePop :: List.replicate clocks { wait with srcStall := true } ++ List.replicate 12 wait

theorem entries_sent_pop :
    Faithful (run (start junk) (popStalled 0)) ∧
      (run (start junk) (popStalled 0)).removed.flatMap wordsOf <+:
        (run (start junk) (popStalled 0 ++ List.replicate 4 wait)).sent := by
  have both := entries_sent junk (popStalled 0) (List.replicate 4 wait) (by decide +kernel)
  exact ⟨both.1, both.2 (by decide)⟩

/-- The stall lasts until the heap presents the next entry, and that one is written out instead
of the one removed. -/
theorem stall_exchanges : ¬Faithful (run (start junk) (popStalled 16)) := by
  have removed : (run (start junk) (popStalled 16)).removed = [⟨5, 0⟩] := by decide +kernel
  have sent : (run (start junk) (popStalled 16)).sent = [0, 9] := by decide +kernel
  have state : (run (start junk) (popStalled 16)).out.state = .waitIdle := by decide +kernel
  rintro ⟨missing, words, _, rest⟩
  rw [rest (by rw [state]; decide), removed, sent] at words
  exact absurd words (by decide +kernel)

end BelProject.Ftm.Emission
