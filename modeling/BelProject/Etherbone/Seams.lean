import BelProject.Etherbone.Segmentation

/-! Where segmentation shows. On a bus on which every access fails, the error register
tells how many operations there were, so that equal traces and replies leave no room for
a call that makes a difference: the condition under which cutting a stream does not
matter is exact. -/

namespace BelProject.Etherbone.Seams
open BelProject.Library Located Width Wire Header Execute Slave InPlace Deliver Segments Segmentation

section
variable (p : Port) {σ : Type}

/-- A relation between two sessions, indexed by the bus operations so far, that survives the
same request on both sides and does not look at the reply line. -/
structure Lockstep (bus : Bus σ) (R : Nat → Session σ → Session σ → Prop) : Prop where
  step : ∀ n s t request, R n s t → R (n + shifts request) (perform bus s request).1 (perform bus t request).1
  line : ∀ n s t first second, R n s t → R n { s with cycleOpen := first } { t with cycleOpen := second }

variable {p}
variable {bus : Bus σ} {R : Nat → Session σ → Session σ → Prop}

section
variable (lockstep : Lockstep bus R)
include lockstep

variable {n : Nat}

theorem Lockstep.execWrites (lanes : Lanes) (wconfig wfifo : Bool) (bwa bwaB bwaL : Nat)
    (words : List Nat) {s t : Session σ} (related : R n s t) :
    R (n + if wconfig then 0 else words.length) (execWrites p bus lanes wconfig wfifo bwa bwaB bwaL words s)
      (execWrites p bus lanes wconfig wfifo bwa bwaB bwaL words t) := by
  induction words generalizing n s t bwa bwaB bwaL with
  | nil => simpa [Execute.execWrites] using related
  | cons word words ih =>
    have step := lockstep.step n s t (writeRequest p lanes wconfig bwa bwaB bwaL word) related
    rw [shifts_write] at step
    have rest := ih (nextAddress p wfifo bwa) (nextAddress p wfifo bwaB) (nextAddress p wfifo bwaL) step
    rw [Nat.add_assoc] at rest
    cases wconfig
    · rw [show n + (if false = true then 0 else (word :: words).length) = n + (1 + words.length) by
        rw [List.length_cons, Nat.add_comm 1]; rfl]
      exact rest
    · exact rest

theorem Lockstep.execReads (lanes : Lanes) (rconfig : Bool) (words : List Nat)
    {s t : Session σ} (related : R n s t) :
    R (n + if rconfig then 0 else words.length) (execReads p bus lanes rconfig words s).1
      (execReads p bus lanes rconfig words t).1 := by
  induction words generalizing n s t with
  | nil => simpa [Execute.execReads] using related
  | cons word words ih =>
    have step := lockstep.step n s t (readRequest p lanes rconfig word) related
    rw [shifts_read] at step
    have rest := ih step
    rw [Nat.add_assoc] at rest
    cases rconfig
    · rw [show n + (if false = true then 0 else (word :: words).length) = n + (1 + words.length) by
        rw [List.length_cons, Nat.add_comm 1]; rfl]
      exact rest
    · exact rest

theorem Lockstep.execWritePart (r : Record) {s t : Session σ}
    (related : R n s t) : R (n + busWrites r) (execWritePart p bus s r) (execWritePart p bus t r) :=
  lockstep.execWrites _ _ _ _ _ _ _ related

theorem Lockstep.execRecord (r : Record) {s t : Session σ}
    (related : R n s t) : R (n + busWords r) (execRecord p bus s r).1 (execRecord p bus t r).1 := by
  have written := lockstep.execWritePart (p := p) r related
  simp only [Execute.execRecord, execReadPart]
  cases empty : r.reads with
  | nil =>
    rw [show n + busWords r = n + busWrites r by simp [busWords, empty]]
    exact written
  | cons word words =>
    have read := lockstep.execReads (p := p) (decodeSelect p r.select) (r.has recordRca) (word :: words)
      (lockstep.line _ _ _ (!r.has recordCyc) (!r.has recordCyc) written)
    rw [Nat.add_assoc, show busWrites r + (if r.has recordRca then 0 else (word :: words).length) = busWords r by
      rw [busWords, empty]] at read
    exact read

theorem Lockstep.execRecords (records : List Record) {s t : Session σ} (related : R n s t) :
    R (n + busWordsOf records) (execRecords p bus s records).1 (execRecords p bus t records).1 := by
  induction records generalizing n s t with
  | nil => exact related
  | cons r records ih =>
    rw [busWordsOf, List.map_cons, List.sum_cons, ← Nat.add_assoc]
    exact ih (lockstep.execRecord r related)

end

/-- Both sessions have made the same number of accesses since some point. -/
def Grown (first second : List Access) (_ : Nat) (s t : Session σ) : Prop :=
  ∃ more more', s.trace = first ++ more ∧ t.trace = second ++ more' ∧ more.length = more'.length

theorem grown_lockstep (bus : Bus σ) (first second : List Access) : Lockstep bus (Grown first second) where
  step := by
    intro n s t request ⟨more, more', left, right, same⟩
    have grows : ∀ (u : Session σ), ∃ new, (perform bus u request).1.trace = u.trace ++ new ∧
        new.length = (if request = .badBus ∨ request = .badCfg then 0 else 1) := by
      intro u
      cases request with
      | badBus => exact ⟨[], (List.append_nil _).symm, rfl⟩
      | badCfg => exact ⟨[], (List.append_nil _).symm, rfl⟩
      | busWrite width addrB addrL value => exact ⟨_, rfl, rfl⟩
      | busRead width addrB addrL => exact ⟨_, rfl, rfl⟩
      | cfgWrite width addr value => exact ⟨_, rfl, rfl⟩
      | cfgRead width addr => exact ⟨_, rfl, rfl⟩
    obtain ⟨new, trace, count⟩ := grows s
    obtain ⟨new', trace', count'⟩ := grows t
    refine ⟨more ++ new, more' ++ new', ?_, ?_, ?_⟩
    · rw [trace, left, List.append_assoc]
    · rw [trace', right, List.append_assoc]
    · rw [List.length_append, List.length_append, same, count, count']
  line := fun _ _ _ _ _ related => related

theorem Grown.start (s t : Session σ) : Grown s.trace t.trace 0 s t :=
  ⟨[], [], (List.append_nil _).symm, (List.append_nil _).symm, rfl⟩

theorem Grown.before {first second : List Access} {n : Nat} {s t : Session σ} (grown : Grown first second n s t)
    (same : s.trace = t.trace) : first = second := by
  obtain ⟨more, more', left, right, lengths⟩ := grown
  rw [left, right] at same
  exact (List.append_inj' same lengths).1

def broken : Bus Unit := ⟨fun _ _ _ _ => (0, true, ()), fun _ _ _ _ _ => (true, ()), fun _ _ _ _ => ()⟩

/-- After `n` failures, and `before` more of them on the other side. -/
def Failing (before n : Nat) (s t : Session Unit) : Prop :=
  s.error = forgotten n 0 ∧ t.error = forgotten (before + n) 0

theorem shiftError_failing (n : Nat) : shiftError (forgotten n 0) true = forgotten (n + 1) 0 := by
  apply Nat.eq_of_testBit_eq
  intro i
  rw [Bool.eq_iff_iff, testBit_forgotten]
  simp only [shiftError, Nat.testBit_mod_two_pow, Nat.testBit_or, Nat.testBit_shiftLeft, Bool.and_eq_true,
    Bool.or_eq_true, decide_eq_true_eq, testBit_forgotten, Bool.toNat_true, Nat.testBit_one_eq_true_iff_self_eq_zero]
  omega

theorem perform_failing (s : Session Unit) (request : Request) (n : Nat) (failing : s.error = forgotten n 0) :
    (perform broken s request).1.error = forgotten (n + shifts request) 0 := by
  have shift : shiftError s.error true = forgotten (n + 1) 0 := by rw [failing, shiftError_failing]
  cases request with
  | busWrite width addrB addrL value => exact shift
  | busRead width addrB addrL => exact shift
  | badBus => exact shift
  | badCfg => exact failing
  | cfgWrite width addr value => exact failing
  | cfgRead width addr => exact failing

theorem failing_lockstep (before : Nat) : Lockstep broken (Failing before) where
  step := by
    intro n s t request ⟨left, right⟩
    refine ⟨perform_failing s request n left, ?_⟩
    rw [← Nat.add_assoc]
    exact perform_failing t request (before + n) right
  line := fun _ _ _ _ _ related => related

theorem forgotten_xor (before since : Nat) :
    forgotten since 0 ^^^ forgotten (before + since) 0 = forgotten before since := by
  apply Nat.eq_of_testBit_eq
  intro i
  have own := testBit_forgotten since 0 i
  have all := testBit_forgotten (before + since) 0 i
  have old := testBit_forgotten before since i
  rw [Nat.testBit_xor]
  cases h₁ : (forgotten since 0).testBit i <;> cases h₂ : (forgotten (before + since) 0).testBit i <;>
    cases h₃ : (forgotten before since).testBit i <;> simp [h₁, h₂, h₃] at own all old ⊢ <;> omega

theorem execReads_values (bus : Bus σ) (lanes : Lanes) (words : List Nat) (s t : Session σ)
    (same : (execReads p bus lanes true words s).1.trace = (execReads p bus lanes true words t).1.trace) :
    ∀ word ∈ words, ∀ width addr, readRequest p lanes true word = .cfgRead width addr →
      ebSocketReadConfig width addr s.error = ebSocketReadConfig width addr t.error := by
  induction words generalizing s t with
  | nil => simp
  | cons word words ih =>
    have step := (grown_lockstep bus (perform bus s (readRequest p lanes true word)).1.trace
      (perform bus t (readRequest p lanes true word)).1.trace).execReads (p := p) lanes true words (Grown.start _ _)
    have now := step.before same
    have registers : ∀ u : Session σ, (perform bus u (readRequest p lanes true word)).1.error = u.error := by
      intro u
      unfold readRequest
      cases lanes.selOk <;> rfl
    intro other member width addr request
    rcases List.mem_cons.mp member with rfl | later
    · rw [request] at now
      have last := List.append_inj' (show s.trace ++ [_] = t.trace ++ [_] from now) rfl
      have access := List.cons.inj last.2
      exact congrArg Access.value access.1
    · have rest := ih (perform bus s (readRequest p lanes true word)).1
        (perform bus t (readRequest p lanes true word)).1
        same other later width addr request
      rw [registers, registers] at rest
      exact rest

theorem discreet_record {before since : Nat} {s t : Session Unit} (r : Record) (failing : Failing before since s t)
    (same : (execRecord p broken s r).1.trace = (execRecord p broken t r).1.trace) : Discreet p before since r := by
  intro config word member
  obtain ⟨left, right⟩ := (failing_lockstep before).execWritePart (p := p) r failing
  have some : r.reads.isEmpty = false := by
    cases empty : r.reads with
    | nil => simp [empty] at member
    | cons first rest => rfl
  have read : ∀ u : Session Unit, (execRecord p broken u r).1.trace =
      (execReads p broken (decodeSelect p r.select) true r.reads
        { execWritePart p broken u r with cycleOpen := !r.has recordCyc }).1.trace := by
    intro u
    simp only [execRecord, execReadPart, some, Bool.false_eq_true, if_false, config]
  rw [read s, read t] at same
  have values := execReads_values broken (decodeSelect p r.select) r.reads _ _ same word member
  cases request : readRequest p (decodeSelect p r.select) true word with
  | cfgRead width addr =>
    have value : ebSocketReadConfig width addr (execWritePart p broken s r).error =
        ebSocketReadConfig width addr (execWritePart p broken t r).error := values width addr request
    rw [left, right] at value
    show ebSocketReadConfig width addr (forgotten before (since + busWrites r)) = 0
    rw [← forgotten_xor, ebSocketReadConfig_xor, value, Nat.xor_self]
  | busWrite width addrB addrL value => trivial
  | busRead width addrB addrL => trivial
  | cfgWrite width addr value => trivial
  | badBus => trivial
  | badCfg => trivial

theorem discreet_records {before : Nat} {s t : Session Unit} (records : List Record) (failing : Failing before 0 s t)
    (same : (execRecords p broken s records).1.trace = (execRecords p broken t records).1.trace) :
    ∀ front r back, records = front ++ r :: back → Discreet p before (busWordsOf front) r := by
  intro front r back split
  have there := (failing_lockstep before).execRecords (p := p) front failing
  rw [Nat.zero_add] at there
  rw [split, execRecords_append, execRecords_append] at same
  have grown := (grown_lockstep broken _ _).execRecords (p := p) back
    (Grown.start (execRecord p broken (execRecords p broken s front).1 r).1
      (execRecord p broken (execRecords p broken t front).1 r).1)
  exact discreet_record r there (grown.before same)

theorem runCalls_grown (bus : Bus σ) (parts : List (List Record)) (start : σ) (trace : List Access) (t : Session σ)
    {first second : List Access} (n : Nat) (grown : Grown first second n ⟨start, 0, false, trace⟩ t) :
    Grown first second 0 (runCalls p bus start trace parts).1 (execRecords p bus t parts.flatten).1 := by
  induction parts generalizing start trace t n with
  | nil => exact grown
  | cons part parts ih =>
    have step := (grown_lockstep bus first second).execRecords (p := p) part grown
    rw [List.flatten_cons, execRecords_append]
    exact ih _ _ _ (n + busWordsOf part) step

theorem discreet_calls (parts : List (List Record)) (before : Nat) (trace : List Access) (t : Session Unit)
    (failing : t.error = forgotten before 0)
    (same : (runCalls p broken () trace parts).1.trace = (execRecords p broken t parts.flatten).1.trace) :
    ∀ done part rest, parts = done ++ part :: rest → ∀ front r back, part = front ++ r :: back →
      Discreet p (before + busWordsOf done.flatten) (busWordsOf front) r := by
  induction parts generalizing before trace t with
  | nil => simp
  | cons part parts ih =>
    intro done other rest split
    have fresh : Failing before 0 ⟨(), 0, false, trace⟩ t := ⟨rfl, failing⟩
    obtain ⟨_, later⟩ := (failing_lockstep before).execRecords (p := p) part fresh
    rw [Nat.zero_add] at later
    rw [List.flatten_cons, execRecords_append] at same
    cases done with
    | nil =>
      obtain ⟨rfl, rfl⟩ := List.cons.inj split
      have grown := runCalls_grown (p := p) broken parts () _ _ 0
        (Grown.start (execRecords p broken ⟨(), 0, false, trace⟩ part).1 (execRecords p broken t part).1)
      exact discreet_records part fresh (grown.before same)
    | cons first done =>
      obtain ⟨rfl, tail⟩ := List.cons.inj split
      have deeper := ih (before + busWordsOf part) _ _ later same done other rest tail
      rw [Nat.add_assoc, ← busWordsOf_append] at deeper
      exact deeper

theorem Discreet.older {before between since : Nat} {r : Record} (discreet : Discreet p (before + between) since r) :
    Discreet p before (between + since) r := by
  intro config word member
  have hidden := discreet config word member
  cases request : readRequest p (decodeSelect p r.select) true word with
  | cfgRead width addr =>
    rw [request] at hidden
    have within : Within (forgotten before (between + since + busWrites r))
        (forgotten (before + between) (since + busWrites r)) := by
      intro i bit
      rw [testBit_forgotten] at bit ⊢
      omega
    exact readConfig_within within hidden
  | busWrite width addrB addrL value => trivial
  | busRead width addrB addrL => trivial
  | cfgWrite width addr value => trivial
  | badBus => trivial
  | badCfg => trivial

theorem exists_part {parts : List (List Record)} {front back : List Record} {r : Record}
    (whole : parts.flatten = front ++ r :: back) :
    ∃ done part rest head tail, parts = done ++ part :: rest ∧ part = head ++ r :: tail ∧
      front = done.flatten ++ head := by
  induction parts generalizing front with
  | nil => simp at whole
  | cons part parts ih =>
    rw [List.flatten_cons] at whole
    rcases List.append_eq_append_iff.mp whole with ⟨later, rfl, divided⟩ | ⟨rest, rfl, after⟩
    · obtain ⟨done, other, rest, head, tail, rfl, found, rfl⟩ := ih divided
      exact ⟨part :: done, other, rest, head, tail, rfl, found, by simp⟩
    · cases rest with
      | nil =>
        rw [List.nil_append] at after
        have remaining : parts.flatten = [] ++ r :: back := by rw [← after]; rfl
        obtain ⟨done, other, rest, head, tail, rfl, found, empty⟩ := ih remaining
        exact ⟨front :: done, other, rest, head, tail, by simp, found, by simp [← empty]⟩
      | cons r' rest =>
        obtain ⟨rfl, rfl⟩ := List.cons.inj after
        exact ⟨[], front ++ r :: rest, parts, front, rest, rfl, rfl, rfl⟩

/-- Records that only end a reply cycle, sent for some records. -/
def terminators : Bool → List Record → Nat
  | _, [] => 0
  | cycleOpen, r :: records =>
    (if stillOpen cycleOpen r && r.has recordCyc then 1 else 0) + terminators (stillOpen cycleOpen r) records

def answerLength (p : Port) (records : List Record) : Nat :=
  (records.map fun r => if r.reads.isEmpty then 0 else p.recordAlignment + span p r.reads.length).sum

theorem length_stream_execRecord (bus : Bus σ) (s : Session σ) (r : Record) :
    (stream p (execRecord p bus s r).2).length =
    (if r.reads.isEmpty then 0 else p.recordAlignment + span p r.reads.length) +
      p.recordAlignment * if stillOpen s.cycleOpen r && r.has recordCyc then 1 else 0 := by
  have terminator : (stream p [cycleEndRecord]).length = p.recordAlignment := by
    simp [Record.length_encode, cycleEndRecord, Record.total]
  have ended : (stream p (if stillOpen s.cycleOpen r && r.has recordCyc then [cycleEndRecord] else [])).length =
      p.recordAlignment * if stillOpen s.cycleOpen r && r.has recordCyc then 1 else 0 := by
    split
    · rw [terminator, Nat.mul_one]
    · rfl
  have parts : (execRecord p bus s r).2 = (execReadPart p bus (execWritePart p bus s r) r).2 ++
      if (execRecord p bus s r).1.cycleOpen && r.has recordCyc then [cycleEndRecord] else [] := rfl
  rw [parts, execRecord_cycleOpen, stream_append, List.length_append, ended]
  congr 1
  unfold execReadPart
  cases empty : r.reads with
  | nil => rfl
  | cons word words =>
    simp only [List.isEmpty_cons, Bool.false_eq_true, if_false, stream_cons, stream_nil, List.append_nil,
      Record.length_encode, Record.total, replyRecord, length_execReads, span, List.length_cons, List.length_nil]
    simp

theorem length_stream_execRecords (bus : Bus σ) (s : Session σ) (records : List Record) :
    (stream p (execRecords p bus s records).2).length =
      answerLength p records + p.recordAlignment * terminators s.cycleOpen records := by
  induction records generalizing s with
  | nil => rfl
  | cons r records ih =>
    have parts : (execRecords p bus s (r :: records)).2 =
        (execRecord p bus s r).2 ++ (execRecords p bus (execRecord p bus s r).1 records).2 := rfl
    have answers : answerLength p (r :: records) =
        (if r.reads.isEmpty then 0 else p.recordAlignment + span p r.reads.length) + answerLength p records := by
      rw [answerLength, List.map_cons, List.sum_cons]
      rfl
    rw [parts, stream_append, List.length_append, length_stream_execRecord, ih, execRecord_cycleOpen, terminators,
      answers]
    ring

theorem terminators_append (cycleOpen : Bool) (first second : List Record) :
    terminators cycleOpen (first ++ second) =
      terminators cycleOpen first + terminators (openAfter cycleOpen first) second := by
  induction first generalizing cycleOpen with
  | nil => simp [terminators, openAfter]
  | cons r records ih =>
    rw [List.cons_append, terminators, ih, terminators, Nat.add_assoc]
    rfl

theorem terminators_le (records : List Record) : terminators false records ≤ terminators true records := by
  induction records with
  | nil => exact le_rfl
  | cons r records ih =>
    cases empty : r.reads.isEmpty with
    | false => simp [terminators, stillOpen, empty]
    | true =>
      simp only [terminators, stillOpen, empty, if_true, Bool.false_and, Bool.true_and, Bool.false_eq_true, if_false]
      omega

theorem firstCycleReads_of_terminators (records : List Record) (ended : endsCycle false records = true)
    (same : terminators true records = terminators false records) : firstCycleReads records = true := by
  induction records with
  | nil => cases ended
  | cons r records ih =>
    cases empty : r.reads.isEmpty with
    | false => simp [firstCycleReads, empty]
    | true =>
      simp only [terminators, stillOpen, empty, if_true, Bool.false_and, Bool.true_and, Bool.false_eq_true, if_false]
        at same
      cases cyc : r.has recordCyc with
      | true =>
        have less := terminators_le records
        rw [cyc, if_pos rfl] at same
        omega
      | false =>
        rw [cyc] at same
        rw [endsCycle, cyc] at ended
        simp only [firstCycleReads, empty, cyc, Bool.not_true, Bool.not_false, Bool.false_or, Bool.true_and]
        exact ih ended (by simpa using same)

theorem length_stream_runCalls (bus : Bus σ) (parts : List (List Record)) (start : σ) (trace : List Access) :
    (stream p (runCalls p bus start trace parts).2).length =
      answerLength p parts.flatten + p.recordAlignment * (parts.map (terminators false)).sum := by
  induction parts generalizing start trace with
  | nil => rfl
  | cons part parts ih =>
    have split : (runCalls p bus start trace (part :: parts)).2 =
        (execRecords p bus ⟨start, 0, false, trace⟩ part).2 ++
          (runCalls p bus (execRecords p bus ⟨start, 0, false, trace⟩ part).1.bus
            (execRecords p bus ⟨start, 0, false, trace⟩ part).1.trace parts).2 := rfl
    rw [split, stream_append, List.length_append, length_stream_execRecords, ih, List.flatten_cons, List.map_cons,
      List.sum_cons, answerLength, answerLength, answerLength, List.map_append, List.sum_append]
    ring

theorem sum_terminators_le (cycleOpen : Bool) (parts : List (List Record)) :
    (parts.map (terminators false)).sum ≤ terminators cycleOpen parts.flatten := by
  induction parts generalizing cycleOpen with
  | nil => exact Nat.zero_le _
  | cons part parts ih =>
    have first : terminators false part ≤ terminators cycleOpen part := by
      cases cycleOpen
      · exact le_rfl
      · exact terminators_le part
    rw [List.flatten_cons, terminators_append, List.map_cons, List.sum_cons]
    exact Nat.add_le_add first (ih _)

theorem terminators_calls (cycleOpen : Bool) (parts : List (List Record))
    (same : (parts.map (terminators false)).sum = terminators cycleOpen parts.flatten) :
    ∀ done part rest, parts = done ++ part :: rest →
      terminators (openAfter cycleOpen done.flatten) part = terminators false part := by
  induction parts generalizing cycleOpen with
  | nil => simp
  | cons part parts ih =>
    intro done other rest split
    have first : terminators false part ≤ terminators cycleOpen part := by
      cases cycleOpen
      · exact le_rfl
      · exact terminators_le part
    have later := sum_terminators_le (openAfter cycleOpen part) parts
    rw [List.flatten_cons, terminators_append, List.map_cons, List.sum_cons] at same
    cases done with
    | nil =>
      obtain ⟨rfl, rfl⟩ := List.cons.inj split
      show terminators cycleOpen part = terminators false part
      omega
    | cons head done =>
      obtain ⟨rfl, tail⟩ := List.cons.inj split
      have deeper := ih (openAfter cycleOpen part) (by omega) done other rest tail
      rw [List.flatten_cons, openAfter, List.foldl_append]
      exact deeper

theorem firstCycleReads_append {records : List Record} (reads : firstCycleReads records = true)
    (later : List Record) : firstCycleReads (records ++ later) = true := by
  induction records with
  | nil => cases reads
  | cons r records ih =>
    simp only [firstCycleReads, Bool.or_eq_true, Bool.and_eq_true] at reads
    simp only [List.cons_append, firstCycleReads, Bool.or_eq_true, Bool.and_eq_true]
    rcases reads with here | ⟨running, behind⟩
    · exact Or.inl here
    · exact Or.inr ⟨running, ih behind⟩

/-- The calls of `eb_device_slave` on the chunks do what one call on the whole stream does, and
the link survives. -/
def SameInOnePiece (socket : Socket) (p : { p : Port // p.word = socket.word }) (peer : Peer)
    (delivery : Delivery p.val)
    (bus : Bus σ) (start : σ) : Prop :=
  let served := serve socket peer 0 bus delivery.chunks.length (Link.fresh (some p) start delivery.chunks)
  let once := deliver p.val bus 0 start (stream p.val delivery.records)
  served.1 ≠ .kill ∧ served.2.trace = once.state.session.trace ∧
    served.2.sent.flatten = once.state.sent.flatten

/-- No chunk starts inside the first header of a cycle, and where one starts with a cycle the
cycles behind it do not depend on those before. -/
structure Seamless (p : Port) (delivery : Delivery p) : Prop where
  headers : HeadersWhole p true 0 delivery.records 0 delivery.chunks
  calls : ∀ done todo, delivery.records = done ++ todo → todo ≠ [] → endsCycle true done = true →
    (stream p done).length ∈ (chunksAt 0 delivery.chunks).map Prod.fst → Unaffected p done todo

variable {socket : Socket}

theorem not_whole_of_torn {low : Bool} {offset frontier : Nat} {records : List Record} {chunks : List (List Byte)}
    (torn : Torn p low offset records (chunksAt frontier chunks)) :
    ¬HeadersWhole p low offset records frontier chunks := by
  intro clean
  obtain ⟨start, member, cut, here, inside⟩ := torn
  exact clean start member cut here inside

theorem Seamless.same {p : { p : Port // p.word = socket.word }} {delivery : Delivery p.val}
    (seamless : Seamless p.val delivery) (peer : Peer) (alone : peer ≠ .transport) (bus : Bus σ) (start : σ) :
    SameInOnePiece socket p peer delivery bus start := by
  obtain ⟨_, session, sent⟩ := deliver_records p.val bus 0 start delivery.records delivery.fits delivery.ended
  rcases serve_waiting peer bus delivery.chunks.length alone (delivery.waiting start) le_rfl with
    ⟨_, torn⟩ | ⟨idle, _, parts, whole, located, _, trace, replies⟩
  · exact absurd seamless.headers (not_whole_of_torn torn)
  · have fresh : Agree (busWordsOf []) 0 (⟨start, 0, false, []⟩ : Session σ) (opening start) := by
      refine ⟨rfl, rfl, ?_, 0, ?_, (Nat.or_zero _).symm⟩
      · intro i bit
        simp at bit
      · intro i bit
        simp at bit
    obtain ⟨traces, answers⟩ := runCalls_unaffected p.val bus [] parts start [] (opening start) fresh rfl (by
      intro before part after split
      have place := located.cut before part after split
      rw [Nat.zero_add] at place
      apply seamless.calls
      · rw [← whole, split, List.flatten_append, List.flatten_cons]
        rfl
      · have some := located.some part (split ▸ List.mem_append_right _ List.mem_cons_self)
        simp [some]
      · exact endsCycle_flatten before (fun one member => located.ended one (split ▸ List.mem_append_left _ member))
      · exact place)
    rw [whole] at traces answers
    refine ⟨by rw [idle]; simp, ?_, ?_⟩
    · rw [trace, session]
      exact traces
    · rw [replies, sent, ← answers]
      rfl

theorem Seamless.of_same {p : { p : Port // p.word = socket.word }} {delivery : Delivery p.val} (peer : Peer)
    (alone : peer ≠ .transport) (same : SameInOnePiece socket p peer delivery broken ()) :
    Seamless p.val delivery := by
  obtain ⟨alive, sameTrace, sameSent⟩ := same
  obtain ⟨_, session, sent⟩ := deliver_records p.val broken 0 () delivery.records delivery.fits delivery.ended
  rcases serve_waiting peer broken delivery.chunks.length alone (delivery.waiting ()) le_rfl with
    ⟨killed, _⟩ | ⟨_, clean, parts, whole, located, _, trace, replies⟩
  · exact absurd killed alive
  · rw [trace, session, ← whole] at sameTrace
    rw [replies, sent, ← whole] at sameSent
    have lengths := congrArg List.length sameSent
    have four := p.val.four_le_recordAlignment
    rw [show (Link.fresh (Option.some p) () delivery.chunks : Link Unit socket).sent.flatten = [] from rfl,
      List.nil_append, length_stream_runCalls, length_stream_execRecords] at lengths
    have counts : (parts.map (terminators false)).sum = terminators false parts.flatten :=
      Nat.eq_of_mul_eq_mul_left (by omega) (Nat.add_left_cancel lengths)
    refine ⟨clean, ?_⟩
    intro done todo split more ended cut
    obtain ⟨before, after, rfl, rfl, rfl⟩ := located.complete done todo (whole.trans split) more ended (by
      rw [Nat.zero_add]
      exact cut)
    constructor
    · intro left
      cases after with
      | nil => exact absurd rfl more
      | cons part after =>
        have same := terminators_calls false _ counts before part after rfl
        rw [left] at same
        rw [List.flatten_cons]
        apply firstCycleReads_append
        apply firstCycleReads_of_terminators part _ same
        have some := located.some part (List.mem_append_right _ List.mem_cons_self)
        have closed := located.ended part (List.mem_append_right _ List.mem_cons_self)
        cases part with
        | nil => exact absurd rfl some
        | cons r part => exact closed
    · intro front r back divided
      obtain ⟨first, part, rest, head, tail, rfl, found, rfl⟩ := exists_part divided
      have discreet := discreet_calls (before ++ (first ++ part :: rest)) 0 [] (opening ()) rfl sameTrace
        (before ++ first) part rest (by rw [List.append_assoc]) head r tail found
      rw [Nat.zero_add, List.flatten_append, busWordsOf_append] at discreet
      have older := Discreet.older discreet
      rw [← busWordsOf_append] at older
      exact older

/-- How a stream was cut makes no difference on any bus if and only if it is seamless. -/
theorem ebDeviceSlave_same_in_one_piece (socket : Socket) (p : { p : Port // p.word = socket.word }) (peer : Peer)
    (delivery : Delivery p.val) (alone : peer ≠ .transport) :
    (∀ (σ : Type) (bus : Bus σ) (start : σ), SameInOnePiece socket p peer delivery bus start) ↔
      Seamless p.val delivery := by
  constructor
  · intro same
    exact Seamless.of_same peer alone (same Unit broken ())
  · intro seamless σ bus start
    exact seamless.same peer alone bus start

end

def board : Socket := ⟨4, 0x44, Port.wishbone32.word_size, by decide, by decide⟩

def boardPort : { p : Port // p.word = board.word } := ⟨Port.wishbone32, rfl⟩

def oneWrite : Record := ⟨recordCyc, 0x0f, 0x4000, [7], 0, []⟩

theorem oneWrite_fits : oneWrite.Fits Port.wishbone32 :=
  ⟨by decide, by decide, by decide, by decide, by decide, by decide⟩

def cutInBody : Delivery boardPort.val where
  records := [oneWrite, oneWrite]
  chunks := [(stream boardPort.val [oneWrite]).take 6, (stream boardPort.val [oneWrite]).drop 6,
    stream boardPort.val [oneWrite]]
  fits := by
    intro r member
    simp only [List.mem_cons, List.not_mem_nil, or_false, or_self] at member
    exact member ▸ oneWrite_fits
  ended := by decide
  whole := by decide
  some := by decide
  granted := by
    unfold Granted
    decide

theorem cutInBody_seamless : Seamless boardPort.val cutInBody := by
  refine ⟨?_, ?_⟩
  · unfold HeadersWhole
    decide
  · intro done todo split more ended cut
    have all : ∀ r ∈ done ++ todo, r = oneWrite := by
      rw [← split]
      decide
    refine ⟨?_, ?_⟩
    · intro left
      have silent : ∀ records : List Record, (∀ r ∈ records, r = oneWrite) → openAfter false records = false := by
        intro records same
        induction records with
        | nil => rfl
        | cons r records ih =>
          rw [same r List.mem_cons_self]
          exact ih (fun other member => same other (List.mem_cons_of_mem _ member))
      rw [silent done (fun r member => all r (List.mem_append_left _ member))] at left
      cases left
    · intro before r after found config
      rw [all r (by rw [found]; simp)] at config
      cases config

/-- Three chunks are executed like one, also on a bus where everything fails. -/
theorem ebDeviceSlave_same_cutInBody : SameInOnePiece board boardPort .passive cutInBody broken () :=
  (ebDeviceSlave_same_in_one_piece board boardPort .passive cutInBody (by decide)).mpr cutInBody_seamless Unit broken ()

def cutBehindCycle : Delivery boardPort.val where
  records := [oneWrite, oneWrite]
  chunks := [(stream boardPort.val [oneWrite, oneWrite]).take 13, (stream boardPort.val [oneWrite, oneWrite]).drop 13]
  fits := cutInBody.fits
  ended := by decide
  whole := by decide
  some := by decide
  granted := by
    unfold Granted
    decide

/-- A stream cut there loses its link. -/
theorem ebDeviceSlave_killed_cutBehindCycle :
    ¬∀ (delivery : Delivery boardPort.val) (σ : Type) (bus : Bus σ) (start : σ),
      SameInOnePiece board boardPort .passive delivery bus start := by
  intro same
  have killed : (serve board .passive 0 broken 2 (Link.fresh (some boardPort) () cutBehindCycle.chunks)).1 = .kill := by
    decide +kernel
  exact (same cutBehindCycle Unit broken ()).1 killed

end BelProject.Etherbone.Seams
