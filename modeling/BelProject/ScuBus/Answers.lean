import BelProject.ScuBus.Bridge

/-! How long an access can stay open: the delays of the entity, and then as long as the slave
holds `dtack`. -/

namespace BelProject.ScuBus.Answers
open Master Starts Bridge
open BelProject.Library.Runs (Along along_append)

/-- The clocks from the acceptance of an access to the end of its data phase. -/
def latest (g : Generics) : Nat := max g.selDly 1 + max (max g.dValidToDS 1) (max g.timeOut 1) + 3

/-- Every access that was open before `latest` clocks is answered when `dtack` has then been
inactive for four clocks. -/
def Answering (g : Generics) (w : World) (inputs : List Inputs) : Prop :=
  ∀ past more released : List Inputs, inputs = past ++ more ++ released → latest g ≤ more.length → 4 ≤ released.length →
    (∀ i ∈ released, i.nDtack = true) → (run g w past).accepted.length ≤ (run g w inputs).answers.length

/-- The machine is on its way to the end of the data phase. -/
def Running (r : Registers) : Prop :=
  match r.sm with
  | .idle => requested r = true
  | .sRdCyc | .sWrCyc | .rdCyc | .wrCyc => True
  | _ => False

def running (g : Generics) (r : Registers) : Int :=
  match r.sm with
  | .idle => releasing (cntStart g.selDly) + max (releasing (cntStart g.dValidToDS))
      (releasing (cntStart g.timeOut)) + 1
  | .sRdCyc | .sWrCyc => releasing r.selDlyCnt + max (releasing r.dValidCnt) (releasing (cntStart g.timeOut))
  | .rdCyc | .wrCyc => max (releasing r.dValidCnt) (releasing r.timeOutCnt)
  | _ => 0

/-- An end of the access that the Wishbone side takes. -/
def flagged (r : Registers) : Bool := r.rdErr || r.wrErr || r.extAck

def Closing (r : Registers) : Prop :=
  (r.wbState = .intAcc ∨ r.wbState = .extErr ∨ r.wbState = .extAcc ∨ r.wbState = .invalidSlave) ∧
    (r.wbState = .intAcc → (r.invalidIntern || r.intAck) = true)

/-- The open access is answered in n clocks at most, not counting those in which `dtack` is
still active at the end. -/
inductive Closes (g : Generics) (r : Registers) (n : Int) : Prop where
  | decode (state : r.wbState = .cycStart) (left : latest g + 3 ≤ n)
  | running (state : r.wbState = .extStall) (runs : Running r) (left : Answers.running g r + 4 ≤ n)
  | active (state : r.wbState = .extStall) (sync1 : r.sync1 = false) (left : 4 ≤ n)
  | ended (state : r.wbState = .extStall) (ends : (r.sm = .toRdCyc ∨ r.sm = .toWrCyc) ∨
      (r.sync0 = true ∧ r.sync1 = false)) (left : 3 ≤ n)
  | flagged (state : r.wbState = .extStall) (flag : Answers.flagged r = true) (left : 2 ≤ n)
  | closing (closing : Closing r) (left : 1 ≤ n)

variable {g : Generics} {r : Registers} {i : Inputs} {w : World} {n : Int}

theorem releasing_pos (cnt : Int) : 1 ≤ releasing cnt := by
  unfold releasing
  omega

theorem releasing_high {cnt : Int} (last : high cnt = true) : releasing cnt = 1 := by
  rw [high, decide_eq_true_iff] at last
  unfold releasing
  omega

theorem releasing_low {cnt : Int} (more : ¬high cnt = true) : 2 ≤ releasing cnt := by
  rw [high, decide_eq_true_iff] at more
  unfold releasing
  omega

theorem releasing_start (clocks : Nat) : releasing (cntStart clocks) = max clocks 1 := by
  unfold releasing cntStart
  omega

theorem running_pos (runs : Running r) : 1 ≤ running g r := by
  unfold Running at runs
  unfold running
  have select := releasing_pos (cntStart g.selDly)
  have valid := releasing_pos r.dValidCnt
  have start := releasing_pos (cntStart g.dValidToDS)
  have delay := releasing_pos r.selDlyCnt
  cases state : r.sm <;> rw [state] at runs <;> first | exact runs.elim | (simp only; omega)

theorem data_counts (data : r.sm = .rdCyc ∨ r.sm = .wrCyc) :
    (clock g r i).dValidCnt = countDown r.dValidCnt ∧ (clock g r i).timeOutCnt = countDown r.timeOutCnt := by
  have valid := dValidCnt_clock g r i
  have time : (clock g r i).timeOutCnt = if r.sm == .rdCyc || r.sm == .wrCyc then countDown r.timeOutCnt
    else cntStart g.timeOut := rfl
  rcases data with state | state
  · rw [valid, time, state]
    exact ⟨rfl, rfl⟩
  · rw [valid, time, state]
    exact ⟨rfl, rfl⟩

theorem data_next (data : r.sm = .rdCyc ∨ r.sm = .wrCyc) :
    (smNext r = .toRdCyc ∨ smNext r = .toWrCyc) ∨ r.sync0 = false ∨
      (smNext r = r.sm ∧ ¬(high r.dValidCnt = true ∧ high r.timeOutCnt = true)) := by
  rcases data with state | state
  · rw [smNext, state]
    cases high r.dValidCnt <;> cases r.sync0 <;> cases high r.timeOutCnt <;> simp
  · rw [smNext, state, wrDtack]
    cases high r.dValidCnt <;> cases r.sync0 <;> cases high r.timeOutCnt <;> simp

theorem Running.step (runs : Running r) :
    (Running (clock g r i) ∧ running g (clock g r i) + 1 ≤ running g r) ∨
      ((clock g r i).sm = .toRdCyc ∨ (clock g r i).sm = .toWrCyc) ∨ (clock g r i).sync1 = false := by
  have sm : (clock g r i).sm = smNext r := rfl
  have select := selDlyCnt_clock g r i
  have valid := dValidCnt_clock g r i
  have setup : r.sm = .sRdCyc ∨ r.sm = .sWrCyc → Running (clock g r i) ∧ running g (clock g r i) + 1 ≤ running g r := by
    intro state
    have time : (clock g r i).timeOutCnt = cntStart g.timeOut := by
      show (if r.sm == .rdCyc || r.sm == .wrCyc then countDown r.timeOutCnt else cntStart g.timeOut) = _
      rcases state with state | state <;> rw [state] <;> rfl
    have same : (clock g r i).dValidCnt = r.dValidCnt := by
      rcases state with state | state <;> rw [valid, state]
    have counts : (clock g r i).selDlyCnt = countDown r.selDlyCnt := by
      rcases state with state | state <;> rw [select, state]
    have pos := releasing_pos r.selDlyCnt
    unfold Running running
    by_cases last : high r.selDlyCnt = true
    · rcases state with state | state
      · have next : smNext r = .rdCyc := by rw [smNext, state]; exact if_pos last
        rw [sm, next, state, same, time]
        exact ⟨trivial, by simp only; omega⟩
      · have next : smNext r = .wrCyc := by rw [smNext, state]; exact if_pos last
        rw [sm, next, state, same, time]
        exact ⟨trivial, by simp only; omega⟩
    · have fewer := releasing_count r.selDlyCnt
      rw [if_neg last] at fewer
      rcases state with state | state
      · have next : smNext r = .sRdCyc := by rw [smNext, state]; exact if_neg last
        rw [sm, next, state, same, counts]
        exact ⟨trivial, by simp only; omega⟩
      · have next : smNext r = .sWrCyc := by rw [smNext, state]; exact if_neg last
        rw [sm, next, state, same, counts]
        exact ⟨trivial, by simp only; omega⟩
  have data : r.sm = .rdCyc ∨ r.sm = .wrCyc → (Running (clock g r i) ∧ running g (clock g r i) + 1 ≤ running g r) ∨
      ((clock g r i).sm = .toRdCyc ∨ (clock g r i).sm = .toWrCyc) ∨ (clock g r i).sync1 = false := by
    intro state
    rcases data_next state with late | dtack | ⟨same, goes⟩
    · exact Or.inr (Or.inl late)
    · exact Or.inr (Or.inr dtack)
    · left
      obtain ⟨validCount, timeCount⟩ := data_counts (g := g) (i := i) state
      have fewerValid := releasing_count r.dValidCnt
      have fewerTime := releasing_count r.timeOutCnt
      have less : max (releasing (countDown r.dValidCnt)) (releasing (countDown r.timeOutCnt)) + 1 ≤
          max (releasing r.dValidCnt) (releasing r.timeOutCnt) := by
        rw [fewerValid, fewerTime]
        by_cases lastValid : high r.dValidCnt = true
        · have more := releasing_low (fun lastTime => goes ⟨lastValid, lastTime⟩)
          rw [if_pos lastValid, if_neg (fun lastTime => goes ⟨lastValid, lastTime⟩)]
          omega
        · have more := releasing_low lastValid
          rw [if_neg lastValid]
          by_cases lastTime : high r.timeOutCnt = true
          · rw [if_pos lastTime, releasing_high lastTime]
            omega
          · rw [if_neg lastTime]
            omega
      unfold Running running
      rw [sm, same, validCount, timeCount]
      rcases state with state | state
      · rw [state]
        exact ⟨trivial, less⟩
      · rw [state]
        exact ⟨trivial, less⟩
  unfold Running at runs
  cases state : r.sm with
  | idle =>
    rw [state] at runs
    have asks : (r.startRd || r.startWr) = true := runs
    left
    have next : smNext r = .sRdCyc ∨ smNext r = .sWrCyc := by
      rw [smNext, state]
      cases read : r.startRd with
      | true => exact Or.inl rfl
      | false =>
        rw [read] at asks
        rw [show r.startWr = true from asks]
        exact Or.inr rfl
    unfold Running running
    rw [sm, select, valid, state]
    rcases next with next | next
    · rw [next]
      exact ⟨trivial, le_refl _⟩
    · rw [next]
      exact ⟨trivial, le_refl _⟩
  | sRdCyc => exact Or.inl (setup (Or.inl state))
  | sWrCyc => exact Or.inl (setup (Or.inr state))
  | rdCyc => exact data (Or.inl state)
  | wrCyc => exact data (Or.inr state)
  | _ => rw [state] at runs; exact runs.elim

theorem Closes.mono {m : Int} (closes : Closes g r n) (less : n ≤ m) : Closes g r m := by
  cases closes with
  | decode state left => exact .decode state (left.trans less)
  | running state runs left => exact .running state runs (left.trans less)
  | active state sync1 left => exact .active state sync1 (left.trans less)
  | ended state ends left => exact .ended state ends (left.trans less)
  | flagged state flag left => exact .flagged state flag (left.trans less)
  | closing closing left => exact .closing closing (left.trans less)

theorem Closes.pos (closes : Closes g r n) : 1 ≤ n := by
  cases closes with
  | decode _ left => omega
  | running _ runs left =>
    have pos := running_pos (g := g) runs
    omega
  | active _ _ left => omega
  | ended _ _ left => omega
  | flagged _ _ left => omega
  | closing _ left => exact left

theorem stall_asks (state : r.wbState = .cycStart) (next : (clock g r i).wbState = .extStall) :
    requested (clock g r i) = true := by
  have here : (r.wbState == .cycStart) = true := by rw [state]; rfl
  rw [wbState_clock, wbNext, state] at next
  rw [requested_clock, raisesRd, raisesWr, here]
  by_cases own : r.slaveNr = 0
  · rw [own] at next
    cases next
  · simp only [own, if_false] at next
    cases ext : external r.slaveNr with
    | true => cases i.we <;> rfl
    | false =>
      cases all : multicast r.slaveNr with
      | true => cases writes : i.we <;> simp_all
      | false => simp_all

theorem stalled_closing (state : r.wbState = .extStall) (flag : flagged r = true) : Closing (clock g r i) := by
  have next := stall_next (g := g) (i := i) state
  have ends : answered r = true := by
    rw [answered, state]
    exact flag
  rw [ends, if_pos rfl] at next
  unfold Closing
  rw [next]
  cases r.rdErr || r.wrErr with
  | true => exact ⟨Or.inr (Or.inl rfl), fun other => WbCtrl.noConfusion other⟩
  | false => exact ⟨Or.inr (Or.inr (Or.inl rfl)), fun other => WbCtrl.noConfusion other⟩

theorem stalled_on (state : r.wbState = .extStall) (flag : flagged r = false) : (clock g r i).wbState = .extStall := by
  have next := stall_next (g := g) (i := i) state
  have goes : answered r = false := by
    rw [answered, state]
    exact flag
  rw [goes, if_neg Bool.false_ne_true] at next
  exact next

theorem ended_flagged (state : r.wbState = .extStall)
    (ends : (r.sm = .toRdCyc ∨ r.sm = .toWrCyc) ∨ (r.sync0 = true ∧ r.sync1 = false)) :
    flagged (clock g r i) = true := by
  have rd : (clock g r i).rdErr = (r.sm == .toRdCyc && !clears r i 1) := rfl
  have wr : (clock g r i).wrErr = (r.sm == .toWrCyc && !clears r i 0) := rfl
  have ack : (clock g r i).extAck = (!r.sync1 && r.sync0) := rfl
  have keeps : ∀ bit, clears r i bit = false := by
    intro bit
    rw [clears, wrAcc, state]
    rfl
  rw [flagged, rd, wr, ack, keeps, keeps]
  rcases ends with (late | late) | ⟨sync0, sync1⟩
  · rw [late]; rfl
  · rw [late]; simp
  · rw [sync0, sync1]; simp

theorem Closes.step (closes : Closes g r n) (coupled : Coupled (clock g r i)) (high : n ≤ 4 → i.nDtack = true) :
    Closing r ∨ Closes g (clock g r i) (n - 1) := by
  have sync0 : (clock g r i).sync0 = i.nDtack := rfl
  have sync1 : (clock g r i).sync1 = r.sync0 := rfl
  cases closes with
  | decode state left =>
    right
    rcases cycStart_next (g := g) (i := i) state with next | ⟨_, next⟩
    · have asks := stall_asks state next
      have idle : (clock g r i).sm = .idle := by
        unfold Coupled at coupled
        rw [next] at coupled
        exact coupled asks
      refine .running next ?_ ?_
      · unfold Running
        rw [idle]
        exact asks
      · unfold Answers.running
        rw [idle]
        simp only [releasing_start]
        unfold latest at left
        omega
    · exact .closing ⟨next.imp_right fun rest => rest.imp_right Or.inr, fun _ => intern_known state⟩ (by omega)
  | running state runs left =>
    right
    have pos := running_pos (g := g) runs
    cases flag : Answers.flagged r with
    | true => exact .closing (stalled_closing state flag) (by omega)
    | false =>
      have next := stalled_on (g := g) (i := i) state flag
      rcases runs.step (g := g) (i := i) with ⟨still, less⟩ | late | dtack
      · exact .running next still (by omega)
      · exact .ended next (Or.inl late) (by omega)
      · exact .active next dtack (by omega)
  | active state low left =>
    right
    cases flag : Answers.flagged r with
    | true => exact .closing (stalled_closing state flag) (by omega)
    | false =>
      have next := stalled_on (g := g) (i := i) state flag
      cases was : r.sync0 with
      | true => exact .flagged next (ended_flagged state (Or.inr ⟨was, low⟩)) (by omega)
      | false =>
        by_cases more : n ≤ 4
        · exact .ended next (Or.inr ⟨sync0.trans (high more), sync1.trans was⟩) (by omega)
        · exact .active next (sync1.trans was) (by omega)
  | ended state ends left =>
    right
    cases flag : Answers.flagged r with
    | true => exact .closing (stalled_closing state flag) (by omega)
    | false => exact .flagged (stalled_on state flag) (ended_flagged state ends) (by omega)
  | flagged state flag left => exact Or.inr (.closing (stalled_closing state flag) (by omega))
  | closing closing _ => exact Or.inl closing

/-- What holds in every state of an orderly run. -/
structure Sound (g : Generics) (w : World) : Prop where
  phase : Phase w
  coupled : Coupled w.regs
  stalls : requested w.regs = true → w.regs.wbState = .extStall
  closes : w.regs.wbState = .idle ∨ Closes g w.regs (latest g + 3)
  one : ¬(w.regs.ack = true ∧ w.regs.err = true)

theorem start_sound (g : Generics) (junk : Junk) : Sound g (start g junk) where
  phase := .idle rfl rfl rfl rfl
  coupled := start_coupled junk
  stalls := fun asks => by cases asks
  closes := Or.inl rfl
  one := fun both => by cases both.1

theorem closing_idle (closing : Closing r) : (clock g r i).wbState = .idle := by
  rw [wbState_clock, wbNext]
  rcases closing.1 with state | state | state | state
  · rw [state]
  · rw [state]
  · rw [state]
  · rw [state]

theorem Sound.step (sound : Sound g w) (orderly : Orderly w i) : Sound g (Bridge.step g w i) where
  phase := sound.phase.step sound.coupled orderly
  coupled := sound.coupled.step orderly.inTime
  stalls := stalls_clock
  closes := by
    rcases sound.closes with idle | closes
    · cases strobe : i.cyc && i.stb with
      | true =>
        refine Or.inr (.decode ?_ (le_refl _))
        show wbNext w.regs i = _
        rw [wbNext, idle]
        exact if_pos strobe
      | false =>
        left
        show wbNext w.regs i = _
        rw [wbNext, idle]
        exact if_neg (by rw [strobe]; exact Bool.false_ne_true)
    · have long : ¬(latest g + 3 : Int) ≤ 4 := by
        unfold latest
        omega
      rcases closes.step (sound.coupled.step orderly.inTime) (fun few => absurd few long) with closing | closes
      · exact Or.inl (closing_idle closing)
      · exact Or.inr (closes.mono (by omega))
  one := one_answer

theorem Sound.run {inputs : List Inputs} (sound : Sound g w) (along : Along (Bridge.step g) Orderly w inputs) :
    Sound g (Bridge.run g w inputs) :=
  along.invariant (Sound g) sound fun sound orderly => sound.step orderly

theorem run_append (front back : List Inputs) :
    Bridge.run g w (front ++ back) = Bridge.run g (Bridge.run g w front) back :=
  List.foldl_append ..

/-- The first k accesses are answered, or will be in n clocks. -/
def Pending (g : Generics) (w : World) (k : Nat) (n : Int) : Prop :=
  k ≤ w.answers.length ∨ (w.answers.length + 1 = k ∧ Closes g w.regs n)

theorem Sound.pending (sound : Sound g w) : Pending g w w.accepted.length (latest g + 3) := by
  have counts := (sound.phase.faithful sound.one).answers
  by_cases idle : w.regs.wbState = .idle
  · rw [if_pos idle] at counts
    exact Or.inl counts.ge
  · rw [if_neg idle] at counts
    exact Or.inr ⟨counts, sound.closes.resolve_left idle⟩

theorem Pending.step {k : Nat} (pending : Pending g w k n) (coupled : Coupled (clock g w.regs i))
    (high : n ≤ 4 → i.nDtack = true) :
    Pending g (Bridge.step g w i) k (n - 1) := by
  have length : (Bridge.step g w i).answers.length =
    w.answers.length + (answersOf (clock g w.regs i)).length := List.length_append
  rcases pending with done | ⟨count, closes⟩
  · exact Or.inl (by omega)
  · rcases closes.step coupled high with closing | left
    · have answer := an_answer (g := g) (i := i) closing.1 closing.2
      exact Or.inl (by omega)
    · cases silent : answersOf (clock g w.regs i) with
      | nil =>
        rw [silent] at length
        exact Or.inr ⟨by rw [length]; exact count, left⟩
      | cons answer rest =>
        rw [silent, List.length_cons] at length
        exact Or.inl (by omega)

theorem Pending.run_more {k : Nat} {more : List Inputs} (pending : Pending g w k n) (sound : Sound g w)
    (along : Along (Bridge.step g) Orderly w more) :
    Pending g (Bridge.run g w more) k (max 4 (n - more.length)) := by
  induction more generalizing w n with
  | nil =>
    exact pending.imp_right fun rest => ⟨rest.1, rest.2.mono (by simp)⟩
  | cons i more ih =>
    have next : Pending g (Bridge.step g w i) k (max 4 (n - 1)) := by
      have later : Pending g w k (max 5 n) := pending.imp_right fun rest => ⟨rest.1, rest.2.mono (le_max_right ..)⟩
      exact (later.step (sound.coupled.step along.1.inTime) (by omega)).imp_right fun rest =>
        ⟨rest.1, rest.2.mono (by omega)⟩
    refine (ih next (sound.step along.1) along.2).imp_right fun rest => ⟨rest.1, rest.2.mono ?_⟩
    rw [List.length_cons]
    omega

theorem Pending.run_released {k : Nat} {released : List Inputs} (pending : Pending g w k n) (sound : Sound g w)
    (along : Along (Bridge.step g) Orderly w released) (high : ∀ i ∈ released, i.nDtack = true) :
    Pending g (Bridge.run g w released) k (n - released.length) := by
  induction released generalizing w n with
  | nil => exact pending.imp_right fun rest => ⟨rest.1, rest.2.mono (by simp)⟩
  | cons i released ih =>
    have next := pending.step (i := i) (sound.coupled.step along.1.inTime) (fun _ => high i (List.mem_cons_self ..))
    refine (ih next (sound.step along.1) along.2 fun j mem => high j (List.mem_cons_of_mem i mem)).imp_right
      fun rest => ⟨rest.1, rest.2.mono ?_⟩
    rw [List.length_cons]
    omega

theorem Sound.answering {inputs : List Inputs} (sound : Sound g w)
    (along : Along (Bridge.step g) Orderly w inputs) : Answering g w inputs := by
  intro past more released split long four high
  rw [split, along_append, along_append, List.foldl_append] at along
  obtain ⟨⟨alongPast, alongMore⟩, alongReleased⟩ := along
  have soundPast := sound.run alongPast
  have soundMore := soundPast.run alongMore
  have waiting := (soundPast.pending.run_more soundPast alongMore).run_released soundMore alongReleased high
  rw [split, run_append, run_append]
  rcases waiting with done | ⟨_, closes⟩
  · exact done
  · have pos := closes.pos
    omega

/-- In a run in which the direction and the data of an access stay for another clock, `dtack` is
not active before the data strobe, and the Wishbone side takes the end of an access when the
machine needs four clocks at most, every access is executed once, as it was accepted, and
answered once, in order. -/
theorem run_faithful (g : Generics) (junk : Junk) (inputs : List Inputs)
    (along : Along (Bridge.step g) Orderly (start g junk) inputs) :
    Faithful (run g (start g junk) inputs) ∧ Answering g (start g junk) inputs := by
  have sound := (start_sound g junk).run along
  exact ⟨sound.phase.faithful sound.one, (start_sound g junk).answering along⟩

instance (w : World) (i : Inputs) : Decidable (Held w i) :=
  inferInstanceAs (Decidable (w.regs.wbState = .cycStart → external w.regs.slaveNr = true →
    ∀ q ∈ w.accepted.getLast?, i.we = q.we ∧ (q.we = true → wrDataIn i = q.dat)))

instance (r : Registers) : Decidable (Due r) :=
  inferInstanceAs (Decidable (external r.slaveNr = true → (r.sm = .rdCyc ∨ r.sm = .wrCyc) →
    high r.dValidCnt = true → r.ds = false →
    r.sync0 = true ∧ high r.timeOutCnt = false))

instance (w : World) (i : Inputs) : Decidable (Orderly w i) :=
  decidable_of_iff (InTime w.regs i ∧ Held w i ∧ Due w.regs)
    ⟨fun ⟨inTime, held, due⟩ => ⟨inTime, held, due⟩, fun orderly => ⟨orderly.inTime, orderly.held, orderly.due⟩⟩

theorem run_faithful_prompt :
    Faithful (run defaults (start defaults Starts.junk) prompt) ∧
      Answering defaults (start defaults Starts.junk) prompt :=
  run_faithful defaults Starts.junk prompt (by decide +kernel)

def turns : List Inputs := writes true :: List.replicate 12 ⟨true, true, false, 0x40020, 0, 15, true, 0, 0, 0, false⟩

/-- The write goes out as a read. -/
theorem write_executed_as_read : ¬∀ inputs : List Inputs, Faithful
    (run defaults (start defaults Starts.junk) inputs) := by
  intro all
  have executed : (Bridge.run defaults (start defaults Starts.junk) turns).executed =
    [⟨1, 1, 17, true, none⟩] := by decide +kernel
  have accepted : (Bridge.run defaults (start defaults Starts.junk) turns).accepted =
    [⟨1, 17, true, 7⟩] := by decide +kernel
  rcases (all turns).executed with same | ⟨past, q, split, same, _⟩
  · rw [executed, accepted] at same
    exact absurd same (by decide)
  · rw [accepted] at split
    have none : past = [] := by
      have length := congrArg List.length split
      rw [List.length_append] at length
      exact List.eq_nil_of_length_eq_zero (by simpa using length.symm)
    rw [executed, none] at same
    cases same

end BelProject.ScuBus.Answers
