import BelProject.Etherbone.Segments

/-! Does it matter how a stream was cut? Every call of `eb_device_slave` starts with an
empty error register and no reply cycle open, one delivery of the whole stream does not.
The difference shows only where a record reads register bits of earlier calls, or where
an open reply cycle would be terminated once more. -/

namespace BelProject.Etherbone.Segmentation
open BelProject.Library Width Wire Execute InPlace Segments

/-- Every bit of the first word is a bit of the second. -/
def Within (first second : Nat) : Prop := ∀ i, first.testBit i = true → second.testBit i = true

theorem Within.or_eq {first second : Nat} (within : Within first second) : first ||| second = second := by
  apply Nat.eq_of_testBit_eq
  intro i
  rw [Nat.testBit_or]
  cases bit : first.testBit i with
  | true => rw [within i bit, Bool.or_self]
  | false => rw [Bool.false_or]

/-- The register bits that tell of `before` earlier operations, `since` operations later. -/
def forgotten (before since : Nat) : Nat := ((2 ^ before - 1) <<< since) % 2 ^ 64

theorem testBit_forgotten (before since i : Nat) :
    (forgotten before since).testBit i = true ↔ i < 64 ∧ since ≤ i ∧ i - since < before := by
  rw [forgotten, Nat.testBit_mod_two_pow, Nat.testBit_shiftLeft, Nat.testBit_two_pow_sub_one]
  simp only [Bool.and_eq_true, decide_eq_true_eq]

theorem ebSocketReadConfig_or (width : UInt8) (addr first second : Nat) :
    ebSocketReadConfig width addr (first ||| second) =
      ebSocketReadConfig width addr first ||| ebSocketReadConfig width addr second := by
  simp only [ebSocketReadConfig_eq]
  split
  · rfl
  · rw [Nat.shiftLeft_or_distrib, Nat.shiftRight_or_distrib, Nat.or_mod_two_pow]

theorem ebSocketReadConfig_xor (width : UInt8) (addr first second : Nat) :
    ebSocketReadConfig width addr (first ^^^ second) =
      ebSocketReadConfig width addr first ^^^ ebSocketReadConfig width addr second := by
  simp only [ebSocketReadConfig_eq]
  split
  · rfl
  · rw [Nat.shiftLeft_xor_distrib, Nat.shiftRight_xor_distrib, Nat.xor_mod_two_pow]

theorem readConfig_within {width : UInt8} {addr first second : Nat} (within : Within first second)
    (hidden : ebSocketReadConfig width addr second = 0) : ebSocketReadConfig width addr first = 0 := by
  have both := ebSocketReadConfig_or width addr first second
  rw [within.or_eq, hidden, Nat.or_zero] at both
  exact both.symm

variable {σ : Type}

/-- A session behind `since` bus operations of a call, and the one that also remembers the
`before` operations of earlier calls. -/
structure Agree (before since : Nat) (s t : Session σ) : Prop where
  bus_eq : t.bus = s.bus
  trace_eq : t.trace = s.trace
  own : Within s.error (forgotten since 0)
  error_eq : ∃ missing, Within missing (forgotten before since) ∧ t.error = s.error ||| missing

theorem Agree.reset {before since : Nat} {s t : Session σ} (agree : Agree before since s t) :
    Agree (before + since) 0 ⟨s.bus, 0, false, s.trace⟩ t := by
  obtain ⟨missing, within, error⟩ := agree.error_eq
  refine ⟨agree.bus_eq, agree.trace_eq, ?_, t.error, ?_, (Nat.zero_or _).symm⟩
  · intro i bit
    rw [Nat.zero_testBit] at bit
    cases bit
  · intro i bit
    rw [error, Nat.testBit_or, Bool.or_eq_true] at bit
    rw [testBit_forgotten]
    rcases bit with own | old
    · have := (testBit_forgotten _ _ _).mp (agree.own i own)
      omega
    · have := (testBit_forgotten _ _ _).mp (within i old)
      omega

/-- Operations a request shifts into the register. -/
def shifts : Request → Nat
  | .busWrite .. => 1
  | .busRead .. => 1
  | .badBus => 1
  | _ => 0

/-- The request does not look at the bits of earlier calls. -/
def Hidden (before since : Nat) : Request → Prop
  | .cfgRead width addr => ebSocketReadConfig width addr (forgotten before since) = 0
  | _ => True

theorem shiftError_or (error missing : Nat) (failed : Bool) :
    shiftError (error ||| missing) failed = shiftError error failed ||| (missing <<< 1) % 2 ^ 64 := by
  unfold shiftError
  rw [Nat.shiftLeft_or_distrib, Nat.or_mod_two_pow, Nat.or_mod_two_pow, Nat.or_mod_two_pow]
  ac_rfl

theorem shiftError_within {since error : Nat} (failed : Bool) (own : Within error (forgotten since 0)) :
    Within (shiftError error failed) (forgotten (since + 1) 0) := by
  intro i bit
  rw [testBit_forgotten]
  simp only [shiftError, Nat.testBit_mod_two_pow, Nat.testBit_or, Nat.testBit_shiftLeft, Bool.and_eq_true,
    Bool.or_eq_true, decide_eq_true_eq] at bit
  obtain ⟨small, ⟨positive, shifted⟩ | new⟩ := bit
  · have := (testBit_forgotten _ _ _).mp (own (i - 1) shifted)
    omega
  · have zero : i = 0 := by
      by_contra positive
      cases failed
      · simp at new
      · have : (1 : Nat).testBit i = true := new
        rw [Nat.testBit_one_eq_true_iff_self_eq_zero] at this
        exact positive this
    omega

theorem shift_within {before since missing : Nat} (within : Within missing (forgotten before since)) :
    Within ((missing <<< 1) % 2 ^ 64) (forgotten before (since + 1)) := by
  intro i bit
  rw [testBit_forgotten]
  simp only [Nat.testBit_mod_two_pow, Nat.testBit_shiftLeft, Bool.and_eq_true, decide_eq_true_eq] at bit
  obtain ⟨small, positive, old⟩ := bit
  have := (testBit_forgotten _ _ _).mp (within (i - 1) old)
  omega

theorem Agree.shift {before since : Nat} {s t : Session σ} (agree : Agree before since s t) (bus : σ)
    (access : Access) (failed : Bool) :
    Agree before (since + 1) (⟨bus, shiftError s.error failed, s.cycleOpen, s.trace ++ [access]⟩ : Session σ)
      ⟨bus, shiftError t.error failed, t.cycleOpen, t.trace ++ [access]⟩ := by
  obtain ⟨missing, within, error⟩ := agree.error_eq
  refine ⟨rfl, by rw [agree.trace_eq], shiftError_within failed agree.own, _, shift_within within, ?_⟩
  rw [error, shiftError_or]

theorem Agree.perform {before since : Nat} {s t : Session σ} (bus : Bus σ) (request : Request)
    (agree : Agree before since s t) (hidden : Hidden before since request) :
    Agree before (since + shifts request) (perform bus s request).1 (perform bus t request).1 ∧
      (perform bus t request).2 = (perform bus s request).2 := by
  have bus_eq := agree.bus_eq
  cases request with
  | busWrite width addrB addrL value =>
    simp only [Execute.perform, bus_eq]
    exact ⟨agree.shift _ _ _, trivial⟩
  | busRead width addrB addrL =>
    simp only [Execute.perform, bus_eq]
    exact ⟨agree.shift _ _ _, trivial⟩
  | cfgWrite width addr value =>
    simp only [Execute.perform, bus_eq]
    exact ⟨⟨rfl, by simp only [record, agree.trace_eq], agree.own, agree.error_eq⟩, trivial⟩
  | cfgRead width addr =>
    obtain ⟨missing, within, error⟩ := agree.error_eq
    have same : ebSocketReadConfig width addr t.error = ebSocketReadConfig width addr s.error := by
      rw [error, ebSocketReadConfig_or, readConfig_within within hidden, Nat.or_zero]
    simp only [Execute.perform, same]
    exact ⟨⟨bus_eq, by simp only [record, agree.trace_eq], agree.own, agree.error_eq⟩, trivial⟩
  | badBus =>
    obtain ⟨missing, within, error⟩ := agree.error_eq
    refine ⟨⟨bus_eq, agree.trace_eq, shiftError_within true agree.own, _, shift_within within, ?_⟩, rfl⟩
    simp only [Execute.perform, shifted, error, shiftError_or]
  | badCfg => exact ⟨agree, rfl⟩

section
variable (p : Port)

theorem shifts_write (lanes : Lanes) (wconfig : Bool) (bwa bwaB bwaL word : Nat) :
    shifts (writeRequest p lanes wconfig bwa bwaB bwaL word) = if wconfig then 0 else 1 := by
  unfold writeRequest
  cases wconfig <;> cases lanes.selOk <;> rfl

theorem hidden_write (before since : Nat) (lanes : Lanes) (wconfig : Bool) (bwa bwaB bwaL word : Nat) :
    Hidden before since (writeRequest p lanes wconfig bwa bwaB bwaL word) := by
  unfold writeRequest
  cases wconfig <;> cases lanes.selOk <;> exact trivial

theorem shifts_read (lanes : Lanes) (rconfig : Bool) (word : Nat) :
    shifts (readRequest p lanes rconfig word) = if rconfig then 0 else 1 := by
  unfold readRequest
  cases rconfig <;> cases lanes.selOk <;> rfl

variable {before since : Nat} {s t : Session σ}

variable (bus : Bus σ)

theorem Agree.execWrites (lanes : Lanes) (wconfig wfifo : Bool)
    (bwa bwaB bwaL : Nat) (words : List Nat) (agree : Agree before since s t) :
    Agree before (since + if wconfig then 0 else words.length)
      (execWrites p bus lanes wconfig wfifo bwa bwaB bwaL words s)
      (execWrites p bus lanes wconfig wfifo bwa bwaB bwaL words t) := by
  induction words generalizing since s t bwa bwaB bwaL with
  | nil => simpa [Execute.execWrites] using agree
  | cons word words ih =>
    obtain ⟨step, _⟩ := agree.perform bus (writeRequest p lanes wconfig bwa bwaB bwaL word) (hidden_write p _ _ _ _ _ _ _ _)
    have rest := ih (nextAddress p wfifo bwa) (nextAddress p wfifo bwaB) (nextAddress p wfifo bwaL) step
    rw [shifts_write] at rest
    have count : since + (if wconfig then 0 else (word :: words).length) =
        since + (if wconfig then 0 else 1) + (if wconfig then 0 else words.length) := by
      cases wconfig
      · simp only [Bool.false_eq_true, if_false, List.length_cons]
        omega
      · rfl
    rw [count]
    exact rest

theorem Agree.execReads (lanes : Lanes) (rconfig : Bool) (words : List Nat) (agree : Agree before since s t)
    (hidden : rconfig = true → ∀ word ∈ words, Hidden before since (readRequest p lanes true word)) :
    Agree before (since + if rconfig then 0 else words.length) (execReads p bus lanes rconfig words s).1
        (execReads p bus lanes rconfig words t).1 ∧
      (execReads p bus lanes rconfig words t).2 = (execReads p bus lanes rconfig words s).2 := by
  induction words generalizing since s t with
  | nil => exact ⟨by simpa [Execute.execReads] using agree, rfl⟩
  | cons word words ih =>
    have here : Hidden before since (readRequest p lanes rconfig word) := by
      cases rconfig with
      | true => exact hidden rfl word List.mem_cons_self
      | false =>
        unfold readRequest
        cases lanes.selOk <;> exact trivial
    obtain ⟨step, value⟩ := agree.perform bus (readRequest p lanes rconfig word) here
    rw [shifts_read] at step
    obtain ⟨rest, values⟩ := ih step (by
      intro config
      subst config
      intro other member
      exact hidden rfl other (List.mem_cons_of_mem _ member))
    have count : since + (if rconfig then 0 else (word :: words).length) =
        since + (if rconfig then 0 else 1) + (if rconfig then 0 else words.length) := by
      cases rconfig
      · simp only [Bool.false_eq_true, if_false, List.length_cons]
        omega
      · rfl
    rw [count]
    simp only [Execute.execReads, value, values]
    exact ⟨rest, trivial⟩

def busWrites (r : Record) : Nat := if r.has recordWca then 0 else r.writes.length

def busWords (r : Record) : Nat := busWrites r + if r.has recordRca then 0 else r.reads.length

def Discreet (before since : Nat) (r : Record) : Prop :=
  r.has recordRca = true → ∀ word ∈ r.reads,
    Hidden before (since + busWrites r) (readRequest p (decodeSelect p r.select) true word)

/-- Is the cycle line of the replies left up behind a record? -/
def stillOpen (cycleOpen : Bool) (r : Record) : Bool := if r.reads.isEmpty then cycleOpen else !r.has recordCyc

theorem execRecord_cycleOpen (s : Session σ) (r : Record) :
    (execRecord p bus s r).1.cycleOpen = stillOpen s.cycleOpen r := by
  simp only [execRecord, execReadPart, stillOpen]
  split
  · simp only [execWritePart, execWrites_cycleOpen]
  · simp only [execReads_cycleOpen]

theorem Agree.execRecord (r : Record) (agree : Agree before since s t) (discreet : Discreet p before since r)
    (ends : r.has recordCyc = true → stillOpen t.cycleOpen r = stillOpen s.cycleOpen r) :
    Agree before (since + busWords r) (execRecord p bus s r).1 (execRecord p bus t r).1 ∧
      (execRecord p bus t r).2 = (execRecord p bus s r).2 := by
  have written : Agree before (since + busWrites r) (execWritePart p bus s r) (execWritePart p bus t r) :=
    agree.execWrites p bus _ _ _ _ _ _ _
  have opened := execRecord_cycleOpen p bus s r
  have opened' := execRecord_cycleOpen p bus t r
  have terminator : ((Execute.execRecord p bus t r).1.cycleOpen && r.has recordCyc) =
      ((Execute.execRecord p bus s r).1.cycleOpen && r.has recordCyc) := by
    rw [opened, opened']
    cases cyc : r.has recordCyc with
    | true => rw [ends cyc]
    | false => rw [Bool.and_false, Bool.and_false]
  have read : Agree before (since + busWords r) (execReadPart p bus (execWritePart p bus s r) r).1
      (execReadPart p bus (execWritePart p bus t r) r).1 ∧
      (execReadPart p bus (execWritePart p bus t r) r).2 = (execReadPart p bus (execWritePart p bus s r) r).2 := by
    unfold execReadPart
    cases empty : r.reads with
    | nil =>
      have words : busWords r = busWrites r := by simp [busWords, empty]
      rw [words]
      exact ⟨written, rfl⟩
    | cons word rest =>
      have opened : Agree before (since + busWrites r)
          { execWritePart p bus s r with cycleOpen := !r.has recordCyc }
          { execWritePart p bus t r with cycleOpen := !r.has recordCyc } :=
        ⟨written.bus_eq, written.trace_eq, written.own, written.error_eq⟩
      obtain ⟨step, values⟩ := opened.execReads p bus (decodeSelect p r.select) (r.has recordRca) (word :: rest) (by
        intro config
        rw [← empty]
        exact discreet config)
      simp only [List.isEmpty_cons, Bool.false_eq_true, if_false, values]
      rw [show since + busWords r = since + busWrites r + if r.has recordRca then 0 else (word :: rest).length by
        rw [busWords, empty, Nat.add_assoc]]
      exact ⟨step, trivial⟩
  refine ⟨read.1, ?_⟩
  have split : ∀ u : Session σ, (Execute.execRecord p bus u r).2 = (execReadPart p bus (execWritePart p bus u r) r).2 ++
      if (Execute.execRecord p bus u r).1.cycleOpen && r.has recordCyc then [cycleEndRecord] else [] := fun _ => rfl
  rw [split, split, read.2, terminator]

def busWordsOf (records : List Record) : Nat := (records.map busWords).sum

/-- Is a reply cycle left open behind some records? -/
def openAfter (cycleOpen : Bool) (records : List Record) : Bool := records.foldl stillOpen cycleOpen

/-- Does the cycle that some records start with read anything? -/
def firstCycleReads : List Record → Bool
  | [] => false
  | r :: records => !r.reads.isEmpty || (!r.has recordCyc && firstCycleReads records)

theorem execRecords_cycleOpen (s : Session σ) (records : List Record) :
    (execRecords p bus s records).1.cycleOpen = openAfter s.cycleOpen records := by
  induction records generalizing s with
  | nil => rfl
  | cons r records ih =>
    show (execRecords p bus (execRecord p bus s r).1 records).1.cycleOpen = _
    rw [ih, execRecord_cycleOpen]
    rfl

/-- A new call makes no difference between what was executed and what comes. -/
structure Unaffected (done todo : List Record) : Prop where
  closed : openAfter false done = true → firstCycleReads todo = true
  discreet : ∀ before r after, todo = before ++ r :: after → Discreet p (busWordsOf done) (busWordsOf before) r

theorem Agree.execRecords (records later : List Record) (agree : Agree before since s t)
    (discreet : ∀ front r back, records = front ++ r :: back → Discreet p before (since + busWordsOf front) r)
    (lines : t.cycleOpen = s.cycleOpen ∨ firstCycleReads (records ++ later) = true) :
    Agree before (since + busWordsOf records) (execRecords p bus s records).1 (execRecords p bus t records).1 ∧
      (execRecords p bus t records).2 = (execRecords p bus s records).2 := by
  induction records generalizing since s t with
  | nil => exact ⟨agree, rfl⟩
  | cons r records ih =>
    have ends : r.has recordCyc = true → stillOpen t.cycleOpen r = stillOpen s.cycleOpen r := by
      intro cyc
      rcases lines with same | reads
      · rw [same]
      · simp only [List.cons_append, firstCycleReads, cyc, Bool.not_true, Bool.false_and, Bool.or_false,
          Bool.not_eq_true'] at reads
        simp only [stillOpen, reads, Bool.false_eq_true, if_false]
    obtain ⟨step, replies⟩ := agree.execRecord p bus r (discreet [] r records rfl) ends
    have next : (Execute.execRecord p bus t r).1.cycleOpen = (Execute.execRecord p bus s r).1.cycleOpen ∨
        firstCycleReads (records ++ later) = true := by
      rw [execRecord_cycleOpen, execRecord_cycleOpen]
      rcases lines with same | reads
      · rw [same]
        exact Or.inl rfl
      · cases empty : r.reads.isEmpty with
        | false => simp [stillOpen, empty]
        | true =>
          simp only [List.cons_append, firstCycleReads, empty, Bool.not_true, Bool.false_or, Bool.and_eq_true] at reads
          exact Or.inr reads.2
    obtain ⟨rest, values⟩ := ih step (by
      intro front other back split
      have moved := discreet (r :: front) other back (by rw [split]; rfl)
      rw [busWordsOf, List.map_cons, List.sum_cons, ← Nat.add_assoc] at moved
      exact moved) next
    have count : since + busWordsOf (r :: records) = since + busWords r + busWordsOf records := by
      rw [busWordsOf, List.map_cons, List.sum_cons, ← Nat.add_assoc]
      rfl
    rw [count]
    exact ⟨rest, congrArg₂ (· ++ ·) replies values⟩

theorem busWordsOf_append (first second : List Record) :
    busWordsOf (first ++ second) = busWordsOf first + busWordsOf second := by
  rw [busWordsOf, List.map_append, List.sum_append]
  rfl

theorem runCalls_unaffected (done : List Record) (parts : List (List Record)) (start : σ)
    (trace : List Access) (t : Session σ) (agree : Agree (busWordsOf done) 0 ⟨start, 0, false, trace⟩ t)
    (lines : t.cycleOpen = openAfter false done) (unaffected : ∀ before part after, parts = before ++ part :: after →
      Unaffected p (done ++ before.flatten) (part ++ after.flatten)) :
    (runCalls p bus start trace parts).1.trace = (execRecords p bus t parts.flatten).1.trace ∧
      (runCalls p bus start trace parts).2 = (execRecords p bus t parts.flatten).2 := by
  induction parts generalizing done start trace t with
  | nil => exact ⟨agree.trace_eq.symm, rfl⟩
  | cons part parts ih =>
    have here := unaffected [] part parts rfl
    rw [List.flatten_nil, List.append_nil] at here
    have open' : t.cycleOpen = (⟨start, 0, false, trace⟩ : Session σ).cycleOpen ∨
        firstCycleReads (part ++ parts.flatten) = true := by
      rw [lines]
      cases left : openAfter false done with
      | false => exact Or.inl rfl
      | true => exact Or.inr (here.closed left)
    obtain ⟨step, replies⟩ := agree.execRecords p bus part parts.flatten (by
      intro front r back split
      rw [Nat.zero_add]
      apply here.discreet front r (back ++ parts.flatten)
      rw [split, List.append_assoc, List.cons_append]) open'
    have next := step.reset
    rw [Nat.zero_add, ← busWordsOf_append] at next
    obtain ⟨traces, rest⟩ := ih (done ++ part) _ _ _ next
      (by
        rw [execRecords_cycleOpen, lines]
        exact List.foldl_append.symm)
      (by
        intro before other after split
        have moved := unaffected (part :: before) other after (by rw [split]; rfl)
        rw [List.flatten_cons, ← List.append_assoc] at moved
        exact moved)
    rw [List.flatten_cons, execRecords_append]
    exact ⟨traces, congrArg₂ (· ++ ·) replies.symm rest⟩

end

end BelProject.Etherbone.Segmentation
